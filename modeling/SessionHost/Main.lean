import SessionHost.CommandLine.Run

/-!
# The program

The thin layer around `CommandLine.run`: it learns about the files that a run asks for, has the
run computed, prints what it says, and makes the folders and files that it leaves behind.
Programs are not launched from here; every launch is answered by an error.

Main definitions:

- `main`: the program.
-/

namespace SessionHost.CommandLine

open Simulation

/-- The machine's file tree as far as it is known, with a file that is there. -/
def learnFile (t : FileTree) (p : Path) : IO FileTree := do
  let place := p.pieces.filter fun s => s ≠ ""
  try
    let bytes ← IO.FS.readBinFile p.text
    return t.plantFile place bytes.toList 0o644
  catch _ => return t

/-- The files that discovery asks for. -/
def askedFiles (s : Surroundings) (home : Path) : List Path :=
  let (settings, _) := loadSettings home s.files
  let config := configuration s (hostFolder home)
  let finder : Discovery.Finder := ⟨s.platform, s.environment, settings.additionalPaths⟩
  (finder.all config.probe).queries.filterMap fun q =>
    match q with
    | .isFile p => some p
    | _ => none

/-- The surroundings of a run, as far as the run asks for them. -/
def learn (s : Surroundings) (home : Path) : IO Surroundings := do
  let host := hostFolder home
  let mut files := s.files.plantFolder (home.pieces.filter fun s => s ≠ "") 0o755
  for p in [host, settingsPath home, host.join "sessions", host.join "logs", logPath host] do
    files ← learnFile files p
  let mut known := { s with files }
  for _ in [0, 1, 2] do
    for p in askedFiles known home do
      unless known.files.isFile p do
        known := { known with files := ← learnFile known.files p }
  return known

/-- Makes the folders and files that a run has left. -/
def leave (before after : FileTree) : IO Unit := do
  for (place, entry) in after.entries do
    if (before.at? place).isNone then
      let path := "/" ++ Text.joinWith "/" place
      match entry with
      | .folder _ => IO.FS.createDirAll path
      | .file content _ => IO.FS.writeBinFile path ⟨content.toArray⟩

/-- The surroundings before anything is known about the files. -/
def unknownSurroundings (home : Option String) (folder : String) : Surroundings :=
  { files := .empty ((⟨folder⟩ : Path).pieces.filter fun s => s ≠ "")
    environment := .ofVariables (fun name => if name = "HOME" then home else none) none
    platform := ⟨.linux, true, true⟩
    launcher := { LauncherScript.standard with
      spawnError := some "programs cannot be launched from here" }
    refusal := ErrorKind.connectionRefused.text }

end SessionHost.CommandLine

open SessionHost.CommandLine in
/-- The program. -/
def main (arguments : List String) : IO UInt32 := do
  let folder ← IO.currentDir
  let start := unknownSurroundings (← IO.getEnv "HOME") folder.toString
  let known ← match start.environment.home with
    | some home => learn start home
    | none => pure start
  let outcome := run known arguments
  leave known.files outcome.files
  (← IO.getStderr).putStr outcome.errors
  (← IO.getStdout).putStr outcome.output
  return outcome.code.toUInt32
