/-!
# Session status

The states of a session.  Busy is running code for the user; the server's notifications
alone move a session between running and busy.

Main definitions:

- `Status`, `Status.name`, `Status.label`: the states, their names, and the texts shown for them.
- `Status.isLive`, `Status.isTransitioning`: the two groups that callers distinguish.
-/

namespace SessionHost

/-- The state of a session. -/
inductive Status where
  | notStarted
  | starting
  | running
  | busy
  | stopping
  | failed
deriving DecidableEq

instance : Inhabited Status := ⟨.notStarted⟩

/-- The name of a state. -/
def Status.name : Status → String
  | .notStarted => "NotStarted"
  | .starting => "Starting"
  | .running => "Running"
  | .busy => "Busy"
  | .stopping => "Stopping"
  | .failed => "Failed"

/-- The state of a name; any other name is that of the first state. -/
def Status.ofName (name : String) : Status :=
  ([.starting, .running, .busy, .stopping, .failed].find? fun s => s.name = name).getD .notStarted

/-- The text shown for a state. -/
def Status.label : Status → String
  | .notStarted => "Not Started"
  | .starting => "Starting..."
  | .running => "Running"
  | .busy => "Busy"
  | .stopping => "Stopping..."
  | .failed => "Failed"

/-- The session is up. -/
def Status.isLive : Status → Bool
  | .running => true
  | .busy => true
  | _ => false

/-- A start or a stop is under way. -/
def Status.isTransitioning : Status → Bool
  | .starting => true
  | .stopping => true
  | _ => false

end SessionHost
