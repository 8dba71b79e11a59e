import SessionHost.Text.Split

/-!
# Paths

Paths of folders and files, with `/` between their parts on every operating system.  A path
is its text; two paths are alike when they have the same parts, so doubled and trailing
separators and inner `.` parts do not tell paths apart, while `..` parts do.

Main definitions:

- `Path`, `Path.join`: a path, and a path below another one.
- `Path.parts`, `Path.alike`: the parts that count, and equality up to them.
- `Path.parent?`, `Path.fileName?`, `Path.stem?`, `Path.withExtension`: the last part.
-/

namespace SessionHost

/-- A path, as it is written. -/
structure Path where
  text : String
deriving DecidableEq

namespace Path

/-- A part of a path. -/
inductive Part where
  | root
  | here
  | up
  | name (text : String)
deriving DecidableEq

/-- The path begins at the root. -/
def isAbsolute (p : Path) : Bool := Text.startsWith p.text "/"

/-- The path has no text. -/
def isEmpty (p : Path) : Bool := p.text.isEmpty

/-- The path `below` seen from `base`.  An absolute path stands for itself. -/
def join (base : Path) (below : String) : Path :=
  if base.isEmpty || Text.startsWith below "/" then ⟨below⟩
  else if Text.endsWith base.text "/" then ⟨base.text ++ below⟩
  else ⟨base.text ++ "/" ++ below⟩

/-- A part other than the empty one and `.`. -/
def partOf? (s : String) : Option Part :=
  if s = "" ∨ s = "." then none
  else if s = ".." then some .up
  else some (.name s)

/-- The texts between the separators. -/
def pieces (p : Path) : List String :=
  (Text.splitAt '/' p.text.toList).map String.ofList

/-- The parts of a path.  A `.` counts only at the beginning of a relative path. -/
def parts (p : Path) : List Part :=
  let inner := p.pieces.filterMap partOf?
  if p.isAbsolute then .root :: inner
  else if p.pieces.head? = some "." then .here :: inner
  else inner

/-- Equality of the parts. -/
def alike (p q : Path) : Bool := p.parts == q.parts

/-- The pieces of a path without the empty and `.` pieces at the end. -/
def trimmedPieces (p : Path) : List String :=
  (p.pieces.reverse.dropWhile fun s => s = "" || s = ".").reverse

/-- The path that pieces spell; nothing but the beginning of an absolute path is its root. -/
def ofPieces (absolute : Bool) (pieces : List String) : Path :=
  let text := Text.joinWith "/" pieces
  if absolute && text.isEmpty then ⟨"/"⟩ else ⟨text⟩

/-- The last part that counts. -/
def lastPart? (p : Path) : Option Part := p.parts.getLast?

/-- The path without its last part; empty for a single relative part. -/
def parent? (p : Path) : Option Path :=
  match p.lastPart? with
  | none => none
  | some .root => none
  | some .here => some ⟨""⟩
  | some _ =>
    let before := (p.trimmedPieces.dropLast.reverse.dropWhile fun s => s = "" || s = ".").reverse
    let leading := p.pieces.head? = some "." && !p.isAbsolute
    if before.isEmpty && leading then some ⟨"."⟩
    else some (ofPieces p.isAbsolute before)

/-- The name of the last part; a path that ends in `..` has none. -/
def fileName? (p : Path) : Option String :=
  match p.lastPart? with
  | some (.name s) => some s
  | _ => none

/-- A file name without its extension: the characters before the last dot, unless that dot
comes first. -/
def stemOf (name : String) : String :=
  let ending := name.toList.reverse.takeWhile (· ≠ '.')
  let before := name.toList.take (name.length - ending.length - 1)
  if ending.length = name.length ∨ before.isEmpty then name else String.ofList before

/-- The file name without its extension. -/
def stem? (p : Path) : Option String := p.fileName?.map stemOf

/-- The path with another extension; unchanged without a file name. -/
def withExtension (p : Path) (extension : String) : Path :=
  match p.stem? with
  | none => p
  | some stem =>
    let leading := p.trimmedPieces.dropLast
    ofPieces false (leading ++ [stem ++ "." ++ extension])

end Path

end SessionHost
