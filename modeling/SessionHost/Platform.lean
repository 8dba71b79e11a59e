/-!
# Platforms

The operating system and the processor widths that discovery and the command line depend on.

Main definitions:

- `OperatingSystem`: the families that are told apart.
- `Platform`: a family with the widths of the system and of this process.
-/

namespace SessionHost

/-- A family of operating systems. -/
inductive OperatingSystem where
  | unknown
  | windows
  | macOS
  | linux
deriving DecidableEq

/-- The family with a given name; any other name is unknown. -/
def OperatingSystem.ofName (name : String) : OperatingSystem :=
  if name = "windows" then .windows
  else if name = "macos" then .macOS
  else if name = "linux" then .linux
  else .unknown

/-- Whether the family is Windows. -/
def OperatingSystem.isWindows (os : OperatingSystem) : Bool := os = .windows

/-- The host's operating system and widths. -/
structure Platform where
  os : OperatingSystem
  systemIs64Bit : Bool
  processIs64Bit : Bool
deriving DecidableEq

/-- A second processor width exists on this machine at all. -/
def Platform.hasAlternateBitness (p : Platform) : Bool := p.systemIs64Bit

end SessionHost
