import SessionHost.Path

/-!
# The environment of discovery

The folders below which runtimes are looked for, as the process's environment names them.

Main definitions:

- `Environment`, `Environment.ofVariables`: the folders, and where they come from.
-/

namespace SessionHost.Discovery

/-- The folders that candidate paths begin with. -/
structure Environment where
  programFiles : Option Path
  programFilesX86 : Option Path
  programW6432 : Option Path
  windowsFolder : Option Path
  localAppData : Option Path
  home : Option Path

/-- An environment without any folder. -/
def Environment.none : Environment :=
  ⟨Option.none, Option.none, Option.none, Option.none, Option.none, Option.none⟩

/-- The home folder: the variable `HOME` unless it is empty, else what the user database says. -/
def homeFolder (fromVariable : Option String) (fromDatabase : Option String) : Option Path :=
  match fromVariable with
  | some text => if text.isEmpty then fromDatabase.map Path.mk else some ⟨text⟩
  | Option.none => fromDatabase.map Path.mk

/-- The environment that variables describe. -/
def Environment.ofVariables (value : String → Option String) (userHome : Option String) :
    Environment :=
  let folder (name : String) : Option Path := (value name).map Path.mk
  { programFiles := folder "ProgramFiles"
    programFilesX86 := folder "ProgramFiles(x86)"
    programW6432 := folder "ProgramW6432"
    windowsFolder := folder "windir"
    localAppData := folder "LOCALAPPDATA"
    home := homeFolder (value "HOME") userHome }

end SessionHost.Discovery
