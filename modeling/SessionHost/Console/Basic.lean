import SessionHost.SystemError

/-!
# Consoles

A console is a runtime's process with its terminal, as the launcher hands it out: commands go
in, and one exit comes out.  Its exit may be lost, which its owner reads as an exit that was
asked for.

Main definitions:

- `ConsoleExit`, `ConsoleCommand`: what comes out of a console and what goes in.
- `Console`: a launched console.
-/

namespace SessionHost

/-- How a console ended. -/
structure ConsoleExit where
  code : Option Int
  /-- The exit followed a kill from this side. -/
  requested : Bool
deriving DecidableEq

/-- The exit that stands for one nobody reported. -/
def ConsoleExit.silent : ConsoleExit := ⟨none, true⟩

/-- What a console is told. -/
inductive ConsoleCommand where
  | text (input : String)
  | reveal (preserveFocus : Bool)
  | kill
deriving DecidableEq

/-- How a console reports its end. -/
inductive Ending where
  | reported (exit : ConsoleExit)
  /-- The signal was dropped without a report. -/
  | lost
deriving DecidableEq

/-- The exit that an ending is read as. -/
def Ending.exit : Ending → ConsoleExit
  | .reported exit => exit
  | .lost => .silent

/-- The launcher's answer: an error, or a console with its process number when there is one. -/
abbrev LaunchAnswer := Except SystemError (Option Nat)

/-- A console from its launch on. -/
structure Console where
  /-- The process that it was launched for. -/
  owner : Nat
  /-- The launcher's answer, when it has come. -/
  answer : Option LaunchAnswer := none
  ending : Option Ending := none
  /-- What was sent to its input. -/
  typed : String := ""
  /-- How many times it was told to end. -/
  kills : Nat := 0
  /-- Nobody can tell it anything any more. -/
  released : Bool := false
  /-- Its exit is to be passed on to its owner. -/
  watched : Bool := false
  /-- Its exit has been passed on. -/
  passedOn : Bool := false

/-- The console takes commands. -/
def Console.isUp (c : Console) : Bool := c.ending.isNone

/-- The console after a command was sent to it. -/
def Console.told (c : Console) : ConsoleCommand → Console
  | .text input => { c with typed := c.typed ++ input }
  | .reveal _ => c
  | .kill => { c with kills := c.kills + 1 }

end SessionHost
