import SessionHost.CommandLine.Basic
import SessionHost.Simulation.Scenario

/-!
# Running the program

A whole run of the program: settings are loaded, runtimes listed or a session started, and in
the end everything is stopped.

Main definitions:

- `Surroundings`, `Outcome`: what a run is given, and what it leaves.
- `run`: a whole run.
-/

namespace SessionHost.CommandLine

open Simulation

/-- What a run is given. -/
structure Surroundings where
  files : FileTree
  environment : Discovery.Environment
  platform : Platform
  /-- What becomes of launches. -/
  launcher : LauncherScript
  /-- The answer to attempts to connect. -/
  refusal : String

/-- What a run leaves. -/
structure Outcome where
  code : Nat
  output : String
  errors : String
  files : FileTree

/-- The bounds that a run of the program uses. -/
def standardTimings : Timings :=
  { poll := .ofSeconds 2
    version := .ofSeconds 60
    clientStartup := .ofSeconds 10
    clientStop := .ofSeconds 3
    connect := .ofSeconds 10
    statusPoll := .ofMillis 300 }

/-- How this program presents itself to a server. -/
def standardHost : HostInfo := ⟨"PowerShell Session Host", "pwsh-host", "0.0.0"⟩

/-- What does not change during a run. -/
def configuration (s : Surroundings) (folder : Path) : Configuration :=
  { platform := s.platform
    environment := s.environment
    probe := ⟨s.files.isFile, s.files.isFolder, fun p => (s.files.names p).toOption⟩
    sessionsFolder := folder.join "sessions"
    logFolder := (folder.join "logs").join "editor-services"
    modulesFolder := folder.join "modules"
    host := standardHost
    timings := standardTimings
    sessionId := "00000000-0000-0000-0000-000000000000"
    processId := .null
    mailboxRoom := 32 }

/-- The settings of a run, and what the user is told about them. -/
def loadSettings (home : Path) (files : FileTree) : Settings × String :=
  match (Settings.load (settingsPath home) (Disk.sound files)).1 with
  | .ok (some settings) => (settings, "")
  | .ok none => ({}, "")
  | .error fault => ({}, settingsWarning fault)

/-- A session from its start to its end. -/
def session (s : Stage) (name : Option String) : Stage :=
  let command : Command := match name with
    | some _ => .restart name
    | none => .start
  let started := (s.play (.call command false)).1
  ((started.play (.call .stop false)).1.play (.act (·.change (·.after .letGo)))).1

/-- A whole run in a home folder. -/
def runAt (s : Surroundings) (home : Path) (request : Request) : Outcome :=
  let (settings, warning) := loadSettings home s.files
  let world : World :=
    { config := configuration s (hostFolder home), settings, store := .absent, files := s.files }
  match request with
  | .list =>
    ⟨0, listing ((world.finder settings).all world.config.probe).value, warning, s.files⟩
  | .start name =>
    let stage : Stage := { world, launcher := s.launcher, connectMode := .refuse s.refusal }
    let done := (session stage name).world
    ⟨0, "", warning ++ String.join (done.log.filterMap report?), done.files⟩

/-- A whole run. -/
def run (s : Surroundings) (arguments : List String) : Outcome :=
  let home := s.environment.home
  let s := { s with files := openLog s.files (logCandidates home) }
  match home with
  | none => ⟨1, "", "Error: could not determine home directory\n", s.files⟩
  | some home => runAt s home (.ofArguments arguments)

end SessionHost.CommandLine
