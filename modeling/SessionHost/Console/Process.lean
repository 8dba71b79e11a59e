import SessionHost.Console.Basic
import SessionHost.Console.Polling
import SessionHost.Executable
import SessionHost.Failure
import SessionHost.Handshake
import SessionHost.Launch.Command

/-!
# Supervised processes

A supervised process owns at most one console.  It is disposed of once: its session file is
deleted, and its console told to end or, without one, its exit taken as asked for.

Main definitions:

- `Purpose`, `ServerProcess`: a process and what it is for.
- `ServerProcess.retired`: a process after its disposal.
- `Launching`: the places at which a launch waits.
-/

namespace SessionHost

/-- What is known about the number of a process. -/
inductive ProcessNumber where
  | pending
  | known (number : Option Nat)
  | gone
deriving DecidableEq

/-- What a process is for. -/
inductive Purpose where
  /-- The main session of a generation. -/
  | main (generation : Nat)
  | debug
  /-- No session. -/
  | lone
deriving DecidableEq

/-- A supervised process. -/
structure ServerProcess where
  purpose : Purpose
  exe : Executable
  spec : Launch.LaunchSpec
  plan : PollPlan
  /-- A slow start is reported. -/
  reportsSlowness : Bool
  console : Option Nat := none
  number : ProcessNumber := .pending
  exit : Option ConsoleExit := none
  /-- The one notifier of the exit has been taken. -/
  noticeTaken : Bool := false
  disposed : Bool := false

/-- The process after its disposal.  One without a console counts as ended on request. -/
def ServerProcess.retired (p : ServerProcess) : ServerProcess :=
  { p with
    disposed := true
    console := none
    exit := if p.console.isSome then p.exit else p.exit.orElse fun _ => some .silent
    number := if p.number = .pending then .gone else p.number }

/-- The process with a console in its hands. -/
def ServerProcess.holding (p : ServerProcess) (console : Nat) (number : Option Nat) :
    ServerProcess :=
  { p with console := some console, number := .known number }

/-- The outcome of a launch: a handshake, `none` when it was called off, or a failure. -/
abbrev LaunchOutcome := Except ProcessFailure (Option Handshake)

/-- Where a launch waits. -/
inductive Launching where
  /-- For the launcher. -/
  | answer (console : Nat)
  /-- For the session file, which nobody has looked at yet. -/
  | file (attempt : Nat)
  /-- For its turn, after the look at the session file. -/
  | turn (attempt : Nat) (content : Except ErrorKind (List UInt8))
  /-- For the next look, or for being called off. -/
  | interval (attempt : Nat) (wake : Nat)
  /-- For its turn, the interval being over: nobody calls the launch off before it goes on. -/
  | woken (attempt : Nat)

/-- The key that unblocks a console which waits for one. -/
def keyPress : ConsoleCommand := .text "p"

end SessionHost
