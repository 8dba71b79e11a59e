import SessionHost.Files.Tree

/-!
# Disks

A program that works on files makes one call after the other, and each of them may fail.  A disk
holds the files together with a plan of the calls that fail for a reason of their own.

Main definitions:

- `Disk`, `DiskM`: files with the plan, and programs over them.
- `DiskM.call`: one call, which fails if the plan says so.
- `DiskM.attempt`: a program whose failure is a value.
-/

namespace SessionHost

/-- Files, the number of calls made so far, and the calls that fail. -/
structure Disk where
  files : FileTree
  calls : Nat
  faults : Nat → Option SystemError

/-- A disk on which no call fails for a reason of its own. -/
def Disk.sound (files : FileTree) : Disk := ⟨files, 0, fun _ => none⟩

/-- A program over a disk. -/
def DiskM (α : Type) : Type := Disk → Except SystemError α × Disk

namespace DiskM

/-- The program that gives a value. -/
def pure {α : Type} (a : α) : DiskM α := fun d => (.ok a, d)

/-- One program after the other; a failure ends both. -/
def bind {α β : Type} (x : DiskM α) (f : α → DiskM β) : DiskM β := fun d =>
  match x d with
  | (.ok a, d) => f a d
  | (.error e, d) => (.error e, d)

instance : Monad DiskM where
  pure := pure
  bind := bind

/-- The program that fails. -/
def fail {α : Type} (e : SystemError) : DiskM α := fun d => (.error e, d)

/-- One call.  A failed one changes nothing. -/
def call {α : Type} (op : FileTree → Except ErrorKind (α × FileTree)) : DiskM α := fun d =>
  let next := { d with calls := d.calls + 1 }
  match d.faults d.calls with
  | some e => (.error e, next)
  | none =>
    match op d.files with
    | .ok (a, files) => (.ok a, { next with files := files })
    | .error kind => (.error (.ofKind kind), next)

/-- A call that only changes files. -/
def change (op : FileTree → Except ErrorKind FileTree) : DiskM Unit :=
  call fun t => (op t).map fun t => ((), t)

/-- A call that only looks. -/
def look {α : Type} (op : FileTree → Except ErrorKind α) : DiskM α :=
  call fun t => (op t).map fun a => (a, t)

/-- A program whose failure is a value. -/
def attempt {α : Type} (x : DiskM α) : DiskM (Except SystemError α) := fun d =>
  match x d with
  | (result, d) => (.ok result, d)

/-- A path leads to something; a call that fails says no. -/
def pathExists (p : Path) : DiskM Bool := fun d =>
  match attempt (look fun t => t.find p) d with
  | (.ok (.ok _), d) => (.ok true, d)
  | (_, d) => (.ok false, d)

end DiskM

end SessionHost
