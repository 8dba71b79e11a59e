import SessionHost.Session.Start

/-!
# Debug sessions

A debug session is a console of its own, next to the main session.  A new one takes the place
of the one before, which is called off and disposed of; one that fails takes back its own
process only.

Main definitions:

- `World.beginDebug`, `World.debug`: one piece of the start of a debug session.
-/

namespace SessionHost

namespace World

/-- The outcome of the start of a debug session: where its server listens, `none` when it was
called off, or a notice. -/
abbrev DebugOutcome := Except Notice (Option StartedSession)

/-- A piece of the start of a debug session. -/
abbrev DebugProgress := Progress World Debugging DebugOutcome

/-- Goes on with a runtime, or without any. -/
def debugWith (w : World) (s : Settings) (exe : Option Executable) : DebugProgress :=
  match exe with
  | none => .finished w (.error SessionFailure.discovery.notice)
  | some exe => .going w (.preparing s exe none)

/-- Chooses a runtime by name, or the default one. -/
def chooseForDebug (w : World) (s : Settings) (name : Option String) : DebugProgress :=
  let (w, exe) := w.learn (w.choice s name)
  w.debugWith s exe

/-- The first piece: a runtime that was asked for by name is looked for; otherwise the
session's is used. -/
def beginDebug (w : World) (name : Option String) : DebugProgress :=
  match name with
  | some _ => w.chooseForDebug w.settings name
  | none => .going w (.choosing w.settings)

/-- Fails: the process is disposed of at once. -/
def failDebug (w : World) (process : Nat) (failure : SessionFailure) : DebugProgress :=
  .going (w.dispose process) (.withdrawing process failure)

/-- Goes on with what a launch gave. -/
def afterDebugLaunch (w : World) (exe : Executable) (process : Nat) (outcome : LaunchOutcome) :
    DebugProgress :=
  match outcome with
  | .ok none => .finished w (.ok none)
  | .ok (some (.started details)) => .finished w (.ok (some details))
  | .ok (some (.refused refusal)) => w.failDebug process (.handshakeRefused refusal)
  | .error failure =>
    if needsDiagnosis failure then
      let (w, inquiry) := w.inquire exe.path
      .going w (.diagnosing process inquiry)
    else
      w.failDebug process (.ofProcess failure)

/-- Puts a process in the place of the debug session and launches it. -/
def installDebug (w : World) (exe : Executable) (process : Nat) : DebugProgress :=
  let previous := w.session.debug
  let w := { w with session := { w.session with debug := some process } }
  let w := match previous with
    | some p => w.endDebugProcess p
    | none => w
  (w.beginLaunch process).andThen (.launching exe process) fun w outcome =>
    w.afterDebugLaunch exe process outcome

/-- One piece of the start of a debug session. -/
def debug (w : World) (place : Debugging) : DebugProgress :=
  match place with
  | .choosing s =>
    match w.session.executable with
    | some exe => w.debugWith s (some exe)
    | none => w.chooseForDebug s none
  | .preparing s exe step =>
    match step with
    | none => .blocked
    | some (.error kind) => .finished w (.error (w.folderFailure kind).notice)
    | some (.ok _) =>
      let (w, process) := w.newProcess s exe .debug true
      .going w (.installing exe process)
  | .installing exe process => w.installDebug exe process
  | .launching exe process p =>
    (w.launch process p).andThen (.launching exe process) fun w outcome =>
      w.afterDebugLaunch exe process outcome
  | .diagnosing process inquiry =>
    match w.inquiries[inquiry]?.bind Inquiry.answer with
    | none => .blocked
    | some version =>
      let (w, failure) := w.diagnosis version
      w.failDebug process failure
  | .withdrawing process failure =>
    let w := if w.session.debug = some process
      then { w with session := { w.session with debug := none } } else w
    .finished w (.error failure.notice)

/-- What the start of a debug session waits for outside, when it is there. -/
def prepareDebug (w : World) (place : Debugging) : Option (World × Debugging) :=
  match place with
  | .preparing s exe none =>
    let (w, result) := w.makeFolder
    some (w, .preparing s exe (some result))
  | .launching exe process p => (w.arrival? process p).map fun p => (w, .launching exe process p)
  | _ => none

end World

/-- The time at which the start of a debug session goes on by itself. -/
def Debugging.alarm? : Debugging → Option Nat
  | .launching _ _ p => p.alarm?
  | _ => none

end SessionHost
