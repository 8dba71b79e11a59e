import SessionHost.Shell.Word

/-!
# Shell scripts

A script is a list of simple commands with their redirections, each of which may depend on the
outcome of the one before.

Main definitions:

- `Instruction`: a simple command.
- `Script.ofText`: the instructions of a script.
-/

namespace SessionHost.Shell

/-- When an instruction is carried out. -/
inductive Condition where
  | always
  | afterSuccess
  | afterFailure
deriving DecidableEq

/-- What happens to one of a command's streams. -/
inductive Redirection where
  | write (stream : Nat) (target : List Piece)
  | append (stream : Nat) (target : List Piece)
  | read (source : List Piece)
  | duplicate (stream : Nat) (target : List Piece)

/-- A simple command. -/
structure Instruction where
  condition : Condition := .always
  words : List (List Piece) := []
  redirections : List Redirection := []

/-- A list of instructions. -/
abbrev Script := List Instruction

/-- The reader of a script between two tokens; instructions are kept last first. -/
structure Reader where
  done : Script := []
  current : Instruction := {}

namespace Reader

/-- The reader after the end of an instruction; the next one has a condition. -/
def endInstruction (r : Reader) (next : Condition) : Reader :=
  if r.current.words.isEmpty && r.current.redirections.isEmpty then
    { r with current := { r.current with
      condition := if next = .always then r.current.condition else next } }
  else
    { done := r.current :: r.done, current := { condition := next } }

/-- The reader with a redirection. -/
def redirect (r : Reader) (x : Redirection) : Reader :=
  { r with current := { r.current with redirections := r.current.redirections ++ [x] } }

/-- The stream number that stands directly before an operator, and the reader without it. -/
def takeStream (r : Reader) (glued : Bool) (default : Nat) : Nat × Reader :=
  if glued then
    match r.current.words.getLast? with
    | some [.text [c] false] =>
      if c.isDigit then
        (c.toNat - '0'.toNat,
          { r with current := { r.current with words := r.current.words.dropLast } })
      else (default, r)
    | _ => (default, r)
  else (default, r)

end Reader

/-- Reads instructions off tokens. -/
def readTokens (r : Reader) : List Token → Script
  | [] => (r.endInstruction .always).done.reverse
  | .operator '&' _ :: .operator '&' _ :: rest => readTokens (r.endInstruction .afterSuccess) rest
  | .operator '|' _ :: .operator '|' _ :: rest => readTokens (r.endInstruction .afterFailure) rest
  | .operator '>' glued :: .operator '>' _ :: .word w :: rest =>
    let (stream, r) := r.takeStream glued 1
    readTokens (r.redirect (.append stream w)) rest
  | .operator '>' glued :: .operator '&' _ :: .word w :: rest =>
    let (stream, r) := r.takeStream glued 1
    readTokens (r.redirect (.duplicate stream w)) rest
  | .operator '>' glued :: .word w :: rest =>
    let (stream, r) := r.takeStream glued 1
    readTokens (r.redirect (.write stream w)) rest
  | .operator '<' glued :: .word w :: rest =>
    readTokens ((r.takeStream glued 0).2.redirect (.read w)) rest
  | .operator _ _ :: rest => readTokens (r.endInstruction .always) rest
  | .word w :: rest =>
    readTokens { r with current := { r.current with words := r.current.words ++ [w] } } rest

/-- The instructions of a script. -/
def Script.ofText (text : String) : Script := readTokens {} (tokens text)

end SessionHost.Shell
