import SessionHost.Text.Decimal

/-!
# Shell words

The text of a shell script as tokens: words, whose parts may be quoted, and operators.  The
lexer takes one character after the other.

Main definitions:

- `Piece`, `Token`: parts of words, and tokens.
- `Lexer.step`: what a character does.
- `tokens`: the tokens of a script.
-/

namespace SessionHost.Shell

/-- A part of a word. -/
inductive Piece where
  | text (chars : List Char) (quoted : Bool)
  | parameter (name : String) (quoted : Bool)
deriving DecidableEq

/-- A part of a script. -/
inductive Token where
  | word (pieces : List Piece)
  /-- An operator character; `glued` says that a word ends directly before it. -/
  | operator (c : Char) (glued : Bool)
deriving DecidableEq

/-- What the next character is part of. -/
inductive Mode where
  | plain
  | single
  | double
  /-- After a backslash. -/
  | escape (quoted : Bool)
  /-- After a dollar sign. -/
  | dollar (quoted : Bool)
  | name (chars : List Char) (quoted : Bool)
  | braced (chars : List Char) (quoted : Bool)
  | comment
deriving DecidableEq

/-- The lexer between two characters.  Tokens and pieces are kept last first. -/
structure Lexer where
  tokens : List Token := []
  pieces : List Piece := []
  inWord : Bool := false
  mode : Mode := .plain

namespace Lexer

/-- The lexer with a character in its word. -/
def put (s : Lexer) (c : Char) (quoted : Bool) : Lexer :=
  let pieces := match s.pieces with
    | .text chars q :: rest =>
      if q = quoted then .text (chars ++ [c]) q :: rest else .text [c] quoted :: s.pieces
    | _ => .text [c] quoted :: s.pieces
  { s with pieces, inWord := true }

/-- The lexer with a parameter in its word. -/
def putParameter (s : Lexer) (name : String) (quoted : Bool) : Lexer :=
  { s with pieces := .parameter name quoted :: s.pieces, inWord := true }

/-- The lexer after the end of a word. -/
def endWord (s : Lexer) : Lexer :=
  if s.inWord then
    { s with tokens := .word s.pieces.reverse :: s.tokens, pieces := [], inWord := false }
  else
    s

/-- The lexer in a mode outside or inside double quotes. -/
def back (s : Lexer) (quoted : Bool) : Lexer :=
  { s with mode := if quoted then .double else .plain }

/-- A character that is an operator outside quotes. -/
def isOperator (c : Char) : Bool := c ∈ ['\n', ';', '&', '|', '<', '>', '(', ')']

/-- A character outside quotes. -/
def plainStep (s : Lexer) (c : Char) : Lexer :=
  if isOperator c then
    let glued := s.inWord
    let s := s.endWord
    { s with tokens := .operator c glued :: s.tokens }
  else if c = ' ' ∨ c = '\t' then s.endWord
  else if c = '#' ∧ !s.inWord then { s with mode := .comment }
  else if c = '\'' then
    { s with mode := .single, inWord := true, pieces := .text [] true :: s.pieces }
  else if c = '"' then
    { s with mode := .double, inWord := true, pieces := .text [] true :: s.pieces }
  else if c = '\\' then { s with mode := .escape false }
  else if c = '$' then { s with mode := .dollar false }
  else s.put c false

/-- A character inside double quotes. -/
def doubleStep (s : Lexer) (c : Char) : Lexer :=
  if c = '"' then { s with mode := .plain }
  else if c = '\\' then { s with mode := .escape true }
  else if c = '$' then { s with mode := .dollar true }
  else s.put c true

/-- A character outside or inside double quotes. -/
def baseStep (s : Lexer) (quoted : Bool) (c : Char) : Lexer :=
  if quoted then (s.back quoted).doubleStep c else (s.back quoted).plainStep c

/-- A character after a backslash. -/
def escapeStep (s : Lexer) (quoted : Bool) (c : Char) : Lexer :=
  let s := s.back quoted
  if c = '\n' then s
  else if quoted && !(c ∈ ['$', '"', '\\'] || c = Char.ofNat 96) then (s.put '\\' true).put c true
  else s.put c true

/-- A character after a dollar sign. -/
def dollarStep (s : Lexer) (quoted : Bool) (c : Char) : Lexer :=
  if c.isDigit ∨ c ∈ ['#', '?', '$', '@', '*', '!'] then
    (s.back quoted).putParameter (String.singleton c) quoted
  else if c.isAlpha ∨ c = '_' then { s with mode := .name [c] quoted }
  else if c = Char.ofNat 123 then { s with mode := .braced [] quoted }
  else (s.put '$' quoted).baseStep quoted c

/-- What a character does. -/
def step (s : Lexer) (c : Char) : Lexer :=
  match s.mode with
  | .plain => s.plainStep c
  | .single => if c = '\'' then { s with mode := .plain } else s.put c true
  | .double => s.doubleStep c
  | .escape quoted => s.escapeStep quoted c
  | .dollar quoted => s.dollarStep quoted c
  | .name chars quoted =>
    if c.isAlphanum ∨ c = '_' then { s with mode := .name (chars ++ [c]) quoted }
    else (s.putParameter (String.ofList chars) quoted).baseStep quoted c
  | .braced chars quoted =>
    if c = Char.ofNat 125 then (s.back quoted).putParameter (String.ofList chars) quoted
    else { s with mode := .braced (chars ++ [c]) quoted }
  | .comment => if c = '\n' then { s with mode := .plain }.plainStep c else s

end Lexer

/-- The tokens of a script, which ends like a line. -/
def tokens (script : String) : List Token :=
  ((script.toList ++ ['\n']).foldl Lexer.step {}).tokens.reverse

end SessionHost.Shell
