import SessionHost.Session.Place
import SessionHost.Discovery.Finder
import SessionHost.Files.Tree
import SessionHost.Settings.ColdRestart
import SessionHost.Status

/-!
# The world of a session

Everything that the activities of a session share: the status and its generation, the session
itself, processes, consoles, connections and clients, the files, the time, and a log of all
that was seen from outside.

Main definitions:

- `Post`: something on its way to a console.
- `World`: the state.
- `World.transition`: the guarded moves of the status.
- `World.cancel`, `World.isCancelled`: calling starts off.
-/

namespace SessionHost

/-! ## What is given -/

/-- How the host presents itself to a server. -/
structure HostInfo where
  name : String
  profileId : String
  version : String

/-- Bounds for everything that may take long. -/
structure Timings where
  poll : Duration
  version : Duration
  clientStartup : Duration
  clientStop : Duration
  connect : Duration
  statusPoll : Duration

/-- What does not change during a session's life. -/
structure Configuration where
  platform : Platform
  environment : Discovery.Environment
  probe : Discovery.Probe
  sessionsFolder : Path
  logFolder : Path
  /-- The server's modules, unless the settings name others. -/
  modulesFolder : Path
  host : HostInfo
  timings : Timings
  /-- The part of session file names that is the same for all. -/
  sessionId : String
  /-- The number of this process, as a client tells it. -/
  processId : Json.Value
  /-- How many signals of a client are kept. -/
  mailboxRoom : Nat

/-- Where a changed default runtime is written down. -/
inductive DefaultStore where
  | absent
  | working
  /-- The store fails with a message. -/
  | failing (text : String)

/-! ## What is seen from outside -/

/-- The part of the program that gives a warning. -/
inductive Topic where
  | process
  | session
  | discovery
deriving DecidableEq

/-- Something that is seen from outside. -/
inductive Event where
  | statusChanged (generation : Nat) (status : Status)
  | started (generation : Nat)
  | failed (generation : Nat) (notice : Notice)
  | unexpectedExit (generation : Nat) (notice : Notice)
  | restartSuggested (setting : String)
  | slow (process : Nat) (elapsed : Duration)
  | selected (generation : Nat) (exe : Executable)
  | launched (console : Nat) (command : Launch.LaunchCommand) (script : String)
  | commanded (console : Nat) (command : ConsoleCommand)
  /-- The command end of a console was let go of without a kill. -/
  | released (console : Nat)
  | inquired (exe : Path)
  | connecting (endpoint : Endpoint)
  /-- The store was given a default runtime. -/
  | persisted (name : String)
  | warned (topic : Topic) (text : String)

/-! ## What changes -/

/-- Something on its way to a console. -/
structure Post where
  console : Nat
  /-- `none` when the command end is let go of. -/
  command : Option ConsoleCommand
deriving DecidableEq

/-- What is seen when the console takes it. -/
def Post.event (post : Post) : Event :=
  match post.command with
  | some command => .commanded post.console command
  | none => .released post.console

/-- What calls something off. -/
inductive Token where
  | start (generation : Nat)
  | debug (process : Nat)
  | lone
deriving DecidableEq

/-- The token that calls a process's launch off. -/
def Purpose.token (p : Purpose) (process : Nat) : Token :=
  match p with
  | .main generation => .start generation
  | .debug => .debug process
  | .lone => .lone

/-- Something that a start has stored, with the start's generation. -/
structure Stored (α : Type) where
  generation : Nat
  value : α

/-- What belongs to the session. -/
structure Session where
  process : Option (Stored Nat) := none
  client : Option (Stored Nat) := none
  details : Option (Stored StartedSession) := none
  version : Option (Stored RuntimeDetails) := none
  executable : Option Executable := none
  debug : Option Nat := none

/-- The session without anything of its running server. -/
def Session.withoutLive (s : Session) : Session :=
  { s with process := none, client := none, details := none, version := none }

/-- A question to a runtime for its version, with the answer when it has come. -/
structure Inquiry where
  exe : Path
  answer : Option (Option String) := none

/-- The state of everything. -/
structure World where
  config : Configuration
  settings : Settings
  store : DefaultStore
  status : Status := .notStarted
  generation : Nat := 0
  /-- The default runtime is being changed. -/
  changing : Bool := false
  session : Session := {}
  cancelled : List Token := []
  processes : List ServerProcess := []
  consoles : List Console := []
  /-- What consoles have not taken yet, in the order in which it was sent. -/
  posts : List Post := []
  connections : List Connection := []
  clients : List Client := []
  inquiries : List Inquiry := []
  calls : List Call := []
  watches : List Watch := []
  pumps : List Pump := []
  files : FileTree
  /-- The number in the next session file's name. -/
  fileNumber : Nat := 100000
  now : Nat := 0
  /-- Somebody can still make calls. -/
  held : Bool := true
  /-- Nothing refers to the session any longer, and it is gone. -/
  dissolved : Bool := false
  log : List Event := []

namespace World

/-! ## Parts -/

/-- The world with an event in its log. -/
def record (w : World) (e : Event) : World := { w with log := w.log ++ [e] }

/-- The world with a warning in its log. -/
def warn (w : World) (topic : Topic) (text : String) : World := w.record (.warned topic text)

/-- The world with another process in a process's place. -/
def setProcess (w : World) (i : Nat) (p : ServerProcess) : World :=
  { w with processes := w.processes.set i p }

/-- The world with another console in a console's place. -/
def setConsole (w : World) (i : Nat) (c : Console) : World :=
  { w with consoles := w.consoles.set i c }

/-- The world with something more on its way to a console. -/
def post (w : World) (console : Nat) (command : Option ConsoleCommand) : World :=
  { w with posts := w.posts ++ [⟨console, command⟩] }

/-- The world with another client in a client's place. -/
def setClient (w : World) (i : Nat) (c : Client) : World :=
  { w with clients := w.clients.set i c }

/-- The world with another connection in a connection's place. -/
def setConnection (w : World) (i : Nat) (c : Connection) : World :=
  { w with connections := w.connections.set i c }

/-- A piece of a client's activity. -/
def onClient {σ α : Type} (w : World) (i : Nat) (step : Client → ClientProgress σ α) :
    Progress World σ α :=
  match w.clients[i]? with
  | none => .blocked
  | some c => (step c).within (w.setClient i)

/-- Both activities of a client come to their end. -/
def abandonClient (w : World) (i : Nat) : World :=
  match w.clients[i]? with
  | none => w
  | some c => w.setClient i { c.abandon with heard := false }

/-! ## Calling off -/

/-- Calls something off. -/
def cancel (w : World) (t : Token) : World := { w with cancelled := w.cancelled ++ [t] }

/-- Something has been called off. -/
def isCancelled (w : World) (t : Token) : Bool := t ∈ w.cancelled

/-! ## Status -/

/-- Moves to a status; a move to the same status is none. -/
def setStatus (w : World) (s : Status) : World :=
  if w.status = s then w
  else { w with status := s }.record (.statusChanged w.generation s)

/-- Moves from one of several states to another one, for a given generation only.  The result
says whether the move took place. -/
def transition (w : World) (generation : Nat) (sources : List Status) (target : Status) :
    World × Bool :=
  if w.generation = generation ∧ w.status ∈ sources then (w.setStatus target, true)
  else (w, false)

/-! ## Files and discovery -/

/-- Deletes a session file; a missing one is no reason for a warning. -/
def deleteSessionFile (w : World) (p : Path) : World :=
  match w.files.delete p with
  | .ok files => { w with files := files }
  | .error .notFound => w
  | .error kind =>
    w.warn .process ("Failed to delete session file " ++ p.text ++ ": " ++ kind.text)

/-- Discovery with the additional paths of settings. -/
def finder (w : World) (s : Settings) : Discovery.Finder :=
  ⟨w.config.platform, w.config.environment, s.additionalPaths⟩

/-- Takes a finding over, with its warnings. -/
def learn {α : Type} (w : World) (t : Discovery.Traced α) : World × α :=
  (t.warnings.foldl (fun w text => w.warn .discovery text) w, t.value)

/-- The runtime for a start: the one that was asked for by name, or else the default one of
the settings. -/
def choice (w : World) (s : Settings) (name : Option String) :
    Discovery.Traced (Option Executable) :=
  (w.finder s).choose w.config.probe (name.orElse fun _ => s.defaultVersion)

end World

end SessionHost
