import SessionHost.Session.World
import SessionHost.Text.Utf8

/-!
# Launching a process

A launch asks the launcher for a console and then looks for the session file until it is there,
the console has ended, or the time is over.  It can be called off, and disposing of the process
calls it off, too; a console that comes too late is told to end.

Main definitions:

- `World.dispose`: ends a process for good.
- `World.beginLaunch`, `World.launch`: one piece of a launch.
- `World.arrival?`: what a launch waits for outside.
-/

namespace SessionHost

/-- A piece of a launch. -/
abbrev LaunchProgress := Progress World Launching LaunchOutcome

namespace World

/-! ## Consoles -/

/-- Tells a console something.  Nothing is sent to one that has ended. -/
def tell (w : World) (console : Nat) (command : ConsoleCommand) : World :=
  match w.consoles[console]? with
  | none => w
  | some c =>
    let w := w.setConsole console (c.told command)
    if c.isUp then w.post console (some command) else w

/-- Tells a process's console something, if there is one. -/
def tellProcess (w : World) (process : Nat) (command : ConsoleCommand) : World :=
  match w.processes[process]?.bind ServerProcess.console with
  | some c => w.tell c command
  | none => w

/-- Lets go of a console that nobody can end any more. -/
def releaseConsole (w : World) (console : Nat) : World :=
  match w.consoles[console]? with
  | some c =>
    let w := w.setConsole console { c with released := true }
    if c.isUp then w.post console none else w
  | none => w

/-- Ends a process for good: its session file is deleted and its console told to end.  A second
time changes nothing. -/
def dispose (w : World) (process : Nat) : World :=
  match w.processes[process]? with
  | none => w
  | some p =>
    if p.disposed then w
    else
      ((w.deleteSessionFile p.spec.sessionFile).tellProcess process .kill).setProcess process
        p.retired

/-- Disposes of a process, if there is one. -/
def disposeAny (w : World) (process : Option Nat) : World :=
  match process with
  | some p => w.dispose p
  | none => w

/-- The launch of a process is called off, or the process disposed of. -/
def launchEnded (w : World) (process : Nat) (p : ServerProcess) : Bool :=
  w.isCancelled (p.purpose.token process) || p.disposed

/-! ## The launch -/

/-- Asks the launcher for a console. -/
def askForConsole (w : World) (process : Nat) (p : ServerProcess) : LaunchProgress :=
  let console := w.consoles.length
  let w := w.deleteSessionFile p.spec.sessionFile
  let w := { w with consoles := w.consoles ++ [({ owner := process } : Console)] }
  .going (w.record (.launched console (p.spec.command p.exe w.config.platform) p.spec.script))
    (.answer console)

/-- The first piece of a launch. -/
def beginLaunch (w : World) (process : Nat) : LaunchProgress :=
  match w.processes[process]? with
  | none => .blocked
  | some p => if p.disposed then .finished w (.ok none) else w.askForConsole process p

/-- Looks again, unless all looks have been used up or the launch has been called off. -/
def lookAgain (w : World) (process : Nat) (p : ServerProcess) (attempt : Nat) : LaunchProgress :=
  if p.plan.attempts < attempt then .finished w (.error (.timedOut p.plan.timeout))
  else if w.launchEnded process p then .finished w (.ok none)
  else .going w (.file attempt)

/-- Takes a console over that has just been launched. -/
def adoptConsole (w : World) (process : Nat) (p : ServerProcess) (console : Nat)
    (number : Option Nat) : LaunchProgress :=
  if p.disposed then .finished (w.tell console .kill) (.ok none)
  else
    let w := match p.console with
      | some previous => w.releaseConsole previous
      | none => w
    let p := p.holding console number
    let w := w.setProcess process p
    let w := match w.consoles[console]? with
      | some c => w.setConsole console { c with watched := true }
      | none => w
    let w := if p.spec.showOnStartup && !p.spec.startInBackground
      then w.tell console (.reveal true) else w
    w.lookAgain process p 1

/-- What the text of a session file makes of a launch. -/
def handshakeOutcome (bytes : List UInt8) : Except ErrorKind LaunchOutcome :=
  match Text.ofUtf8? bytes with
  | none => .error .invalidData
  | some text =>
    match Handshake.ofText text with
    | .ok h => .ok (.ok (some h))
    | .error fault => .ok (.error (.handshake fault))

/-- Gives the warning of a slow start. -/
def warnSlow (w : World) (process : Nat) (p : ServerProcess) (attempt : Nat) : World :=
  let elapsed := p.plan.elapsed attempt
  let w := w.warn .process
    ("Loading the PowerShell extension is taking longer than expected (" ++ elapsed.text ++ ")")
  if p.reportsSlowness then w.record (.slow process elapsed) else w

/-- Goes on without a session file: the console may have ended; else the next look is due after
an interval. -/
def withoutFile (w : World) (process : Nat) (p : ServerProcess) (attempt : Nat) : LaunchProgress :=
  match p.exit with
  | some exit => .finished w (.error (.exitedBeforeHandshake exit.code))
  | none =>
    let w := if attempt = p.plan.warnAt then w.warnSlow process p attempt else w
    .going w (.interval attempt (w.now + p.plan.interval.nanos))

/-- Goes on after the look at the session file. -/
def afterLook (w : World) (process : Nat) (p : ServerProcess) (attempt : Nat)
    (content : Except ErrorKind (List UInt8)) : LaunchProgress :=
  let path := p.spec.sessionFile
  let unreadable (kind : ErrorKind) : LaunchProgress :=
    .finished w (.error (.sessionFile path (SystemError.ofKind kind)))
  match content with
  | .error .notFound => w.withoutFile process p attempt
  | .error kind => unreadable kind
  | .ok bytes =>
    match handshakeOutcome bytes with
    | .error kind => unreadable kind
    | .ok outcome => .finished (w.deleteSessionFile path) outcome

/-- One piece of a launch. -/
def launch (w : World) (process : Nat) (place : Launching) : LaunchProgress :=
  match w.processes[process]? with
  | none => .blocked
  | some p =>
    match place with
    | .answer console =>
      match w.consoles[console]?.bind Console.answer with
      | none => .blocked
      | some (.error e) => .finished w (.error (.spawn p.exe.path e))
      | some (.ok number) => w.adoptConsole process p console number
    | .file _ => .blocked
    | .turn attempt content => w.afterLook process p attempt content
    | .interval attempt wake =>
      if w.isCancelled (p.purpose.token process) then .finished w (.ok none)
      else if wake ≤ w.now then w.lookAgain process p (attempt + 1)
      else .blocked
    | .woken attempt => w.lookAgain process p (attempt + 1)

/-- What a launch waits for outside, when it is there: the look at the session file, or the end of
an interval.  The end of an interval and a call to stop may both be there; a launch that is awake
goes on, and one that is not is called off. -/
def arrival? (w : World) (process : Nat) (place : Launching) : Option Launching :=
  match place, w.processes[process]? with
  | .file attempt, some p => some (.turn attempt (w.files.read p.spec.sessionFile))
  | .interval attempt wake, some _ => if wake ≤ w.now then some (.woken attempt) else none
  | _, _ => none

end World

/-- The time at which a launch goes on by itself. -/
def Launching.alarm? : Launching → Option Nat
  | .interval _ wake => some wake
  | _ => none

end SessionHost
