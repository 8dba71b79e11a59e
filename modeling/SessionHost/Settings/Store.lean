import SessionHost.Files.Disk
import SessionHost.Settings.Decode
import SessionHost.Text.Utf8
import SessionHost.Toml.Render

/-!
# Stored settings

Settings are read from a file, and the preferred runtime is written back into it with everything
else in the file kept as it is.  The file is written beside itself first and then moved into its
place, so that no failure on the way loses what was there.

Main definitions:

- `Settings.load`: the settings in a file.
- `withDefaultVersion?`: the text of a file with another preferred runtime.
- `persistDefaultVersion`, `writeAtomically`: writing it back.
-/

namespace SessionHost

/-- Why settings could not be loaded. -/
inductive SettingsFault where
  | read (path : Path) (error : SystemError)
  | parse (path : Path)
deriving DecidableEq

/-- The file that a fault is about. -/
def SettingsFault.path : SettingsFault → Path
  | .read path _ => path
  | .parse path => path

/-- What stands for the details that a reader of TOML would give. -/
def tomlDetail : String := "<toml>"

/-- The message of a fault. -/
def SettingsFault.message : SettingsFault → String
  | .read path error => "failed to read config at " ++ path.text ++ ": " ++ error.message
  | .parse path => "failed to parse config at " ++ path.text ++ ": " ++ tomlDetail

/-- The text of a file. -/
def DiskM.readText (p : Path) : DiskM String :=
  DiskM.look fun t =>
    match t.read p with
    | .ok bytes =>
      match Text.ofUtf8? bytes with
      | some text => .ok text
      | none => .error .invalidData
    | .error kind => .error kind

/-- The settings in a file, or nothing when there is no file. -/
def Settings.load (p : Path) (d : Disk) : Except SettingsFault (Option Settings) × Disk :=
  match DiskM.pathExists p d with
  | (.ok true, d) =>
    match DiskM.readText p d with
    | (.error e, d) => (.error (.read p e), d)
    | (.ok text, d) =>
      match Settings.ofText? text with
      | some s => (.ok (some s), d)
      | none => (.error (.parse p), d)
  | (_, d) => (.ok none, d)

/-- The folder of this program's files, below the home folder. -/
def hostFolder (home : Path) : Path := home.join ".pwsh-host"

/-- Where settings are stored. -/
def settingsPath (home : Path) : Path := (hostFolder home).join "config.toml"

/-! ## Writing back -/

/-- The text of a file with another preferred runtime. -/
def withDefaultVersion? (text name : String) : Option String :=
  match Toml.Document.ofText? text with
  | none => none
  | some d =>
    if Toml.Value.allMembers Toml.Scalar.isEditable d.members then
      some (d.set defaultVersionKey name).render
    else none

/-- Takes all rights from group and others, on a folder of the user's own. -/
def restrictToOwner (folder : Path) : DiskM Unit := do
  let (_, entry) ← DiskM.look fun t => t.find folder
  if entry.isOpenToOthers then DiskM.change fun t => t.setMode folder 0o700 else return ()

/-- The name of a new file beside others. -/
def temporaryPath (folder : Path) (t : FileTree) : Path :=
  let taken (n : Nat) : Bool := t.pathExists (folder.join (".tmp" ++ Text.decimal n))
  let n := ((List.range (t.entries.length + 1)).find? fun n => !taken n).getD 0
  folder.join (".tmp" ++ Text.decimal n)

/-- Makes a new, empty file in a folder. -/
def createTemporary (folder : Path) : DiskM Path :=
  DiskM.call fun t =>
    let p := temporaryPath folder t
    (t.write p [] 0o600).map fun changed => (p, changed)

/-- Deletes a file without looking whether that works. -/
def discard (p : Path) : DiskM Unit := do
  let _ ← DiskM.attempt (DiskM.change fun t => t.delete p)
  return ()

/-- A program whose failure deletes a file first. -/
def discardOnFailure {α : Type} (p : Path) (x : DiskM α) : DiskM α := fun d =>
  match x d with
  | (.ok a, d) => (.ok a, d)
  | (.error e, d) => (.error e, (discard p d).2)

/-- The folder in which a path's file is written; a path without a folder means the working
folder. -/
def writingFolder (p : Path) : Path :=
  match p.parent? with
  | some parent => if parent.isEmpty then ⟨"."⟩ else parent
  | none => ⟨"."⟩

/-- Moves a written file into its place when it cannot simply replace what is there: the old file
steps aside, and comes back if the new one cannot take its place. -/
def replaceAside (temporary p : Path) (error : SystemError) : DiskM Unit := do
  if !(← DiskM.pathExists p) then DiskM.fail error
  else
    let backup := p.withExtension "bak"
    discard backup
    DiskM.change fun t => t.rename p backup
    match ← DiskM.attempt (DiskM.change fun t => t.rename temporary p) with
    | .ok _ => discard backup
    | .error again =>
      let _ ← DiskM.attempt (DiskM.change fun t => t.rename backup p)
      DiskM.fail again

/-- Waits until the disk holds what was written. -/
def waitForDisk : DiskM Unit := DiskM.change fun t => .ok t

/-- Writes a file beside its place and moves it there. -/
def writeAtomically (p : Path) (bytes : List UInt8) : DiskM Unit := do
  let temporary ← createTemporary (writingFolder p)
  discardOnFailure temporary do
    DiskM.change fun t => t.write temporary bytes 0o600
    waitForDisk
    match ← DiskM.attempt (DiskM.change fun t => t.rename temporary p) with
    | .ok _ => return ()
    | .error e => replaceAside temporary p e

/-- Makes the folder of a file and keeps others out of it. -/
def prepareFolder (p : Path) : DiskM Unit :=
  match p.parent? with
  | some parent => do
    DiskM.change fun t => t.createFolders parent
    restrictToOwner parent
  | none => return ()

/-- The text of a settings file; one that is not there is empty. -/
def presentText (p : Path) : DiskM String := do
  if ← DiskM.pathExists p then DiskM.readText p else return ""

/-- Writes another preferred runtime into a settings file. -/
def persistDefaultVersion (p : Path) (name : String) : DiskM Unit := do
  prepareFolder p
  let text ← presentText p
  match withDefaultVersion? text name with
  | some changed => writeAtomically p (Text.utf8Bytes changed)
  | none => DiskM.fail (.ofKind .invalidData)

end SessionHost
