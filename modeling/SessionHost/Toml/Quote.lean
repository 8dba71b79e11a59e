import SessionHost.Toml.Text

/-!
# Writing strings

A string is written in the plainest form that can hold it: double quotes if nothing in it needs
care, else single quotes, else one of the forms of several lines, and with escapes only if it
must be.

Main definitions:

- `StringForm`, `StringForm.choose`: the forms, and which one a text is given.
- `writeString`: the written form of a text.
-/

namespace SessionHost.Toml

/-- The form of a written string. -/
inductive StringForm where
  | basic
  | literal
  | longBasic
  | longLiteral
deriving DecidableEq

/-- The longest run of a character. -/
def longestRun (c : Char) (cs : List Char) : Nat :=
  (cs.foldl (fun (state : Nat × Nat) d =>
    if d = c then (state.1 + 1, max (state.1 + 1) state.2) else (0, state.2)) (0, 0)).2

/-- A control character that only an escape can write. -/
def needsEscape (c : Char) : Bool :=
  (c.toNat < 0x20 && c ≠ '\t' && c ≠ '\n') || c.toNat = 0x7F

/-- The form for a text. -/
def StringForm.choose (cs : List Char) : StringForm :=
  let codes := cs.any needsEscape
  let backslash := cs.contains '\\'
  let lines := cs.contains '\n'
  let double := longestRun '"' cs
  let single := longestRun '\'' cs
  if !codes && !backslash && double = 0 && !lines then .basic
  else if !codes && single = 0 && !lines then .literal
  else if !codes && !backslash && double ≤ 2 then .longBasic
  else if !codes && single ≤ 2 then .longLiteral
  else if lines then .longBasic
  else .basic

/-- An escape by the number of a character. -/
def numberEscape (c : Char) : List Char :=
  '\\' :: 'u' :: (Text.hexDigits 4 c.toNat).map Char.toUpper

/-- A text with escapes.  In the long form line ends stand as they are, and of quotes in a row
every third one is escaped. -/
def escapeText (long : Bool) (quotes : Nat) : List Char → List Char
  | [] => []
  | c :: rest =>
    if c = '"' then
      if long && quotes < 2 then c :: escapeText long (quotes + 1) rest
      else '\\' :: '"' :: escapeText long 0 rest
    else
      let written : List Char :=
        if c = '\\' then ['\\', '\\']
        else if c = '\x08' then ['\\', 'b']
        else if c = '\t' then ['\\', 't']
        else if c = '\n' then (if long then ['\n'] else ['\\', 'n'])
        else if c = '\x0c' then ['\\', 'f']
        else if c = '\r' then ['\\', 'r']
        else if needsEscape c then numberEscape c
        else [c]
      written ++ escapeText long 0 rest

/-- The written form of a text. -/
def writeString (s : String) : List Char :=
  let cs := s.toList
  let first : List Char := if cs.contains '\n' then ['\n'] else []
  let doubles : List Char := ['"', '"', '"']
  let singles : List Char := ['\'', '\'', '\'']
  match StringForm.choose cs with
  | .basic => '"' :: (escapeText false 0 cs ++ ['"'])
  | .literal => '\'' :: (cs ++ ['\''])
  | .longBasic => doubles ++ first ++ escapeText true 0 cs ++ doubles
  | .longLiteral => singles ++ first ++ cs ++ singles

end SessionHost.Toml
