import SessionHost.Client.Request
import SessionHost.Console.Process
import SessionHost.Settings.Basic

/-!
# Suspension points

Every activity of a session waits at one of these places.  A place before a lock is one of its
own, so that other activities may run before the lock is taken; everything between two places
happens at once.

Main definitions:

- `Wait`, `Release`, `Stopping`, `Starting`, `Debugging`: the places of the activities.
- `Watch`, `Pump`: the activities behind a running session.
- `Command`, `Job`, `Call`: what callers ask for, and how far it is.
-/

namespace SessionHost

/-- Waiting for the end of a transition: how many looks are left, and when to look next. -/
structure Wait where
  looks : Nat
  wake : Nat

/-- Taking a session's process and client away from their generation. -/
inductive Release where
  /-- Before the session's lock. -/
  | taking
  /-- While the client says goodbye; the process is in hand. -/
  | closing (client : Nat) (process : Option Nat) (closing : Closing)

/-- The places of a stop. -/
inductive Stopping where
  | waiting (wait : Wait)
  /-- Before the session's lock, with no main session to stop. -/
  | endingDebug
  /-- Before the session's lock. -/
  | taking
  | closing (client : Nat) (process debug : Option Nat) (closing : Closing)

/-- A start that has claimed a generation, with the settings of that moment. -/
structure Attempt where
  generation : Nat
  settings : Settings

/-- The outcome of a step on the file system; `none` before it. -/
abbrev FolderStep := Option (Except ErrorKind Unit)

/-- The places of a start. -/
inductive Starting where
  /-- Another start is under way, whose outcome will do. -/
  | joining (wait : Wait)
  /-- A stop is under way. -/
  | awaiting (name : Option String) (wait : Wait)
  /-- Clearing away what an earlier session left. -/
  | clearing (attempt : Attempt) (name : Option String) (release : Release)
  /-- Making the folder for session files. -/
  | preparing (attempt : Attempt) (name : Option String) (step : FolderStep)
  /-- Before the session's lock, with a runtime. -/
  | recording (attempt : Attempt) (exe : Executable)
  /-- Before the session's lock, with a process. -/
  | adopting (attempt : Attempt) (exe : Executable) (process : Nat)
  | launching (attempt : Attempt) (exe : Executable) (process : Nat) (place : Launching)
  /-- Asking the runtime for its version after a launch without a handshake. -/
  | diagnosing (attempt : Attempt) (inquiry : Nat)
  /-- Before the session's lock, with a handshake. -/
  | noting (attempt : Attempt) (details : StartedSession)
  | connecting (attempt : Attempt) (details : StartedSession) (connection deadline : Nat)
  | opening (attempt : Attempt) (client : Nat) (place : Opening)
  /-- Before the session's lock, with a client. -/
  | keeping (attempt : Attempt) (client : Nat)
  /-- Asking the server for its version. -/
  | asking (attempt : Attempt) (client : Nat) (request : Request)
  /-- Before the session's lock, with the version. -/
  | concluding (attempt : Attempt) (version : RuntimeDetails)
  | failing (attempt : Attempt) (failure : SessionFailure) (release : Release)

/-- The places of the start of a debug session. -/
inductive Debugging where
  /-- Before the session's lock, to use the session's runtime. -/
  | choosing (settings : Settings)
  /-- Making the folder for session files. -/
  | preparing (settings : Settings) (exe : Executable) (step : FolderStep)
  /-- Before the session's lock, with a process. -/
  | installing (exe : Executable) (process : Nat)
  | launching (exe : Executable) (process : Nat) (place : Launching)
  /-- Asking the runtime for its version after a launch without a handshake. -/
  | diagnosing (process inquiry : Nat)
  /-- Before the session's lock, to take back a process that failed. -/
  | withdrawing (process : Nat) (failure : SessionFailure)

/-! ## Behind a running session -/

/-- Where the watch over a console's exit is. -/
inductive WatchPlace where
  | waiting
  | releasing (exit : ConsoleExit) (release : Release)
  | over

/-- The watch over the exit of a session's process. -/
structure Watch where
  process : Nat
  generation : Nat
  name : String
  place : WatchPlace := .waiting

/-- Where the handling of a client's signals is. -/
inductive PumpPlace where
  | receiving
  /-- Before the session's lock, to press a key. -/
  | pressing
  | over

/-- The handling of the signals of a session's client. -/
structure Pump where
  client : Nat
  generation : Nat
  place : PumpPlace := .receiving

/-! ## Calls -/

/-- What callers ask for. -/
inductive Command where
  | start
  | stop
  | restart (name : Option String)
  | changeDefault (name : String)
  | startDebug (name : Option String)
  | stopDebug
  | reveal (preserveFocus : Bool)
  | updateSettings (settings : Settings)
  | settings
  | available
  | executable
  /-- The launch of a process without a session. -/
  | launch (process : Nat)
  /-- A client without a session, and what is asked of it. -/
  | openClient (client : Nat) (profileLoading : Bool) (cwd : Option Path) (timeout : Duration)
  | askVersion (client : Nat) (timeout : Duration)
  | closeClient (client : Nat) (timeout : Duration)

/-- The parts that calls on the main session are made of. -/
inductive Phase where
  /-- Writes a name down as the default runtime. -/
  | announce (name : String)
  | stop
  | start (name : Option String)
  /-- Ends a change of the default runtime. -/
  | settle

/-- Where a part of a call waits. -/
inductive PhasePlace where
  | stopping (place : Stopping)
  | starting (place : Starting)

/-- How a part of a call ended. -/
inductive PhaseEnd where
  | done
  /-- A computation left its range, and the call broke off. -/
  | aborted
deriving DecidableEq

/-- How far a call is. -/
inductive Job where
  | fresh (command : Command)
  | phased (place : PhasePlace) (next : List Phase)
  | debugging (place : Debugging)
  /-- Before the session's lock, to take the debug session. -/
  | endingDebug
  | launching (process : Nat) (place : Launching)
  | opening (client : Nat) (place : Opening)
  | asking (client : Nat) (request : Request)
  | closing (client : Nat) (place : Closing)

/-- What a call gives its caller. -/
inductive CallResult where
  | done
  | aborted
  | debug (outcome : Except Notice (Option StartedSession))
  | launch (outcome : LaunchOutcome)
  | opened (outcome : Except OpeningFailure Unit)
  | version (outcome : Except RequestFailure RuntimeDetails)
  | executables (found : List Executable)
  | executable (exe : Option Executable)
  | settings (settings : Settings)

/-- A call: under way, or over. -/
inductive Call where
  | active (job : Job)
  | over (result : CallResult)

/-- The result of a call. -/
def Call.result? : Call → Option CallResult
  | .active _ => none
  | .over r => some r

end SessionHost
