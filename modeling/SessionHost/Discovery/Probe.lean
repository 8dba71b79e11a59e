import SessionHost.Path
import SessionHost.SystemError

/-!
# Questions to the file system

Discovery asks three questions.  What it finds out is a value together with the questions asked
and the warnings given for it, so that "as lazy as possible" can be said of it.

Main definitions:

- `Probe`: the answers of a file system.
- `Traced`: a value with the questions and warnings behind it.
-/

namespace SessionHost.Discovery

/-- The answers of a file system. -/
structure Probe where
  isFile : Path → Bool
  isFolder : Path → Bool
  /-- The names of the entries in a folder, or `none` when it cannot be listed. -/
  listing : Path → Option (List String)

/-- A question that was asked. -/
inductive Query where
  | isFile (path : Path)
  | isFolder (path : Path)
  | listing (path : Path)
deriving DecidableEq

/-- A value with the questions and warnings behind it, in their order. -/
structure Traced (α : Type) where
  value : α
  queries : List Query
  warnings : List String

namespace Traced

/-- A value for which nothing was asked. -/
def pure {α : Type} (a : α) : Traced α := ⟨a, [], []⟩

/-- The second step's value behind both steps' questions and warnings. -/
def bind {α β : Type} (x : Traced α) (f : α → Traced β) : Traced β :=
  let y := f x.value
  ⟨y.value, x.queries ++ y.queries, x.warnings ++ y.warnings⟩

instance : Monad Traced where
  pure := pure
  bind := bind

/-- A warning. -/
def warn (text : String) : Traced Unit := ⟨(), [], [text]⟩

end Traced

/-- Asks whether a path is a file. -/
def Probe.askFile (p : Probe) (path : Path) : Traced Bool :=
  ⟨p.isFile path, [.isFile path], []⟩

/-- Asks whether a path is a folder. -/
def Probe.askFolder (p : Probe) (path : Path) : Traced Bool :=
  ⟨p.isFolder path, [.isFolder path], []⟩

/-- Asks for the names in a folder. -/
def Probe.askListing (p : Probe) (path : Path) : Traced (Option (List String)) :=
  ⟨p.listing path, [.listing path], []⟩

/-- The first path that is a file; nothing is asked behind it. -/
def Probe.firstFile (p : Probe) : List Path → Traced (Option Path)
  | [] => .pure none
  | path :: rest =>
    (p.askFile path).bind fun found => if found then .pure (some path) else p.firstFile rest

end SessionHost.Discovery
