import SessionHost.Path

/-!
# Executables

An installed runtime: where its program is, what it is called, and whether it takes
arguments of several lines unharmed.

Main definitions:

- `Executable`, `Executable.alike`: runtimes and their equality.
- `Descriptor`, `Descriptor.check`: a runtime that remembers whether its program exists.
-/

namespace SessionHost

/-- A runtime that can be started. -/
structure Executable where
  path : Path
  name : String
  /-- An argument of several lines reaches the program as it is. -/
  properArguments : Bool := true
deriving DecidableEq

/-- Equality with paths compared part by part. -/
def Executable.alike (a b : Executable) : Bool :=
  a.path.alike b.path && a.name == b.name && a.properArguments == b.properArguments

/-- A runtime with the remembered answer to whether its program exists. -/
structure Descriptor where
  exe : Executable
  exists? : Option Bool

/-- Whether the program exists, asking only the first time. -/
def Descriptor.check (d : Descriptor) (isFile : Path → Bool) : Bool × Descriptor :=
  match d.exists? with
  | some known => (known, d)
  | none =>
    let answer := isFile d.exe.path
    (answer, { d with exists? := some answer })

end SessionHost
