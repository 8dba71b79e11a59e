import SessionHost.Session.World
import SessionHost.Settings.Store

/-!
# The command line

What the arguments ask for, what is written for the user, and where the log goes.

Main definitions:

- `Request.ofArguments`: what the arguments ask for.
- `listing`, `report?`: the texts for the user.
- `openLog`: the file tree after the log has been opened.
-/

namespace SessionHost.CommandLine

/-- What the arguments ask for. -/
inductive Request where
  | list
  /-- A session, with a runtime of this name for this run only. -/
  | start (name : Option String)
deriving DecidableEq

/-- What the arguments ask for; only the first one counts. -/
def Request.ofArguments : List String → Request
  | [] => .start none
  | first :: _ => if first = "--list" then .list else .start (some first)

/-! ## Texts -/

/-- A line for every runtime: its name and its path. -/
def listing (found : List Executable) : String :=
  String.join (found.map fun e => e.name ++ "\t" ++ e.path.text ++ "\n")

/-- A notice and the action that it suggests. -/
def noticeText (n : Notice) : String :=
  let action := match n.action with
    | none => ""
    | some a =>
      match a.link? with
      | some link => "  " ++ a.label ++ ": " ++ link ++ "\n"
      | none => "  " ++ a.label ++ "\n"
  "error: " ++ n.message ++ "\n" ++ action

/-- What the user is told about an event. -/
def report? : Event → Option String
  | .started _ => some "PowerShell session started\n"
  | .failed _ n => some (noticeText n)
  | .unexpectedExit _ n =>
    some (noticeText n ++ "  Run pwsh-host again to start a new session.\n")
  | .restartSuggested setting =>
    some ("'" ++ setting ++ "' changed; restart the session to apply it\n")
  | .slow _ elapsed =>
    some ("Starting PowerShell is taking longer than expected (" ++
      Text.decimal elapsed.seconds ++ "s)...\n")
  | _ => none

/-- What the user is told about settings that could not be used. -/
def settingsWarning (fault : SettingsFault) : String :=
  "warning: " ++ fault.message ++ "; using default settings\n"

/-! ## The log -/

/-- The log below a folder. -/
def logPath (folder : Path) : Path := (folder.join "logs").join "pwsh-host.log"

/-- Where the log may be, the first choice in front. -/
def logCandidates (home : Option Path) : List Path :=
  ((home.map hostFolder).toList ++ [(⟨".pwsh-host"⟩ : Path)]).map logPath

/-- Opens a log for writing at its end. -/
def openLogAt? (t : FileTree) (p : Path) : Option FileTree := do
  let t ← (t.createFolders (p.parent?.getD ⟨""⟩)).toOption
  if t.isFile p then some t else (t.write p [] 0o644).toOption

/-- The file tree after the log has been opened at the first place where that is possible. -/
def openLog (t : FileTree) : List Path → FileTree
  | [] => t
  | p :: rest =>
    match openLogAt? t p with
    | some t => t
    | none => openLog t rest

end SessionHost.CommandLine
