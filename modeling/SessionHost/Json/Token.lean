import SessionHost.Json.Number

/-!
# JSON tokens

A text is cut into tokens character by character.  A string token keeps its text, or
nothing when an escape in it is half of a surrogate pair without the other half: such
a string is well formed, but has no text.

Main definitions:

- `Token`: punctuation, words, numerals and strings.
- `Lexer`, `Lexer.step`: the unfinished token, and what one character does to it.
- `Token.ofChars?`: the tokens of a text.
-/

namespace SessionHost.Json

/-- One token. -/
inductive Token where
  | openArray
  | closeArray
  | openObject
  | closeObject
  | comma
  | colon
  | null
  | bool (value : Bool)
  | number (value : Numeral)
  | string (text : Option String)

/-- A part of a string: a character, or a UTF-16 unit from an escape. -/
inductive Part where
  | char (c : Char)
  | unit (n : Nat)

/-- The first half of a surrogate pair. -/
def isHighSurrogate (n : Nat) : Bool := 0xD800 ≤ n && n ≤ 0xDBFF

/-- The second half of a surrogate pair. -/
def isLowSurrogate (n : Nat) : Bool := 0xDC00 ≤ n && n ≤ 0xDFFF

/-- The character of a surrogate pair. -/
def pairChar (high low : Nat) : Char :=
  Char.ofNat (0x10000 + (high - 0xD800) * 0x400 + (low - 0xDC00))

/-- The characters of a string's parts; `none` when a surrogate stands alone. -/
def joinParts? : List Part → Option (List Char)
  | [] => some []
  | .char c :: rest => (joinParts? rest).map (c :: ·)
  | [.unit n] =>
    if isHighSurrogate n || isLowSurrogate n then none else some [Char.ofNat n]
  | .unit n :: .char c :: rest =>
    if isHighSurrogate n || isLowSurrogate n then none
    else (joinParts? rest).map fun cs => Char.ofNat n :: c :: cs
  | .unit n :: .unit m :: rest =>
    if isHighSurrogate n then
      if isLowSurrogate m then (joinParts? rest).map (pairChar n m :: ·) else none
    else if isLowSurrogate n then none
    else (joinParts? (.unit m :: rest)).map (Char.ofNat n :: ·)

/-- The token of a string with the given parts. -/
def stringToken (parts : List Part) : Token :=
  .string ((joinParts? parts).map String.ofList)

/-- The token of a word. -/
def wordToken? (cs : List Char) : Option Token :=
  if cs = "null".toList then some .null
  else if cs = "true".toList then some (.bool true)
  else if cs = "false".toList then some (.bool false)
  else none

/-- What stands before the next character.  Characters and parts are kept last first. -/
inductive Lexer where
  | between
  | inWord (seen : List Char)
  | inNumeral (seen : List Char)
  | inString (parts : List Part)
  | inEscape (parts : List Part)
  | inUnit (parts : List Part) (digits value : Nat)

/-- White space between tokens. -/
def isSpace (c : Char) : Bool :=
  c = ' ' || c = '\n' || c = '\r' || c = '\t'

/-- A character that can continue a numeral. -/
def isNumeralChar (c : Char) : Bool :=
  c.isDigit || c = '-' || c = '+' || c = '.' || c = 'e' || c = 'E'

/-- A character that can stand in a word. -/
def isWordChar (c : Char) : Bool := 'a' ≤ c && c ≤ 'z'

/-- The punctuation token of a character. -/
def punctuation? : Char → Option Token
  | '[' => some .openArray
  | ']' => some .closeArray
  | '{' => some .openObject
  | '}' => some .closeObject
  | ',' => some .comma
  | ':' => some .colon
  | _ => none

/-- What a character does between two tokens. -/
def Lexer.begin (out : List Token) (c : Char) : Option (List Token × Lexer) :=
  if isSpace c then some (out, .between)
  else if c = '"' then some (out, .inString [])
  else if c.isDigit || c = '-' then some (out, .inNumeral [c])
  else if isWordChar c then some (out, .inWord [c])
  else (punctuation? c).map fun t => (t :: out, .between)

/-- The character of a one-letter escape. -/
def simpleEscape? : Char → Option Char
  | '"' => some '"'
  | '\\' => some '\\'
  | '/' => some '/'
  | 'b' => some '\x08'
  | 'f' => some '\x0c'
  | 'n' => some '\n'
  | 'r' => some '\r'
  | 't' => some '\t'
  | _ => none

/-- What a character does: the finished tokens, last first, and the unfinished one. -/
def Lexer.step (out : List Token) (lexer : Lexer) (c : Char) : Option (List Token × Lexer) :=
  match lexer with
  | .between => Lexer.begin out c
  | .inWord seen =>
    if isWordChar c then some (out, .inWord (c :: seen))
    else (wordToken? seen.reverse).bind fun t => Lexer.begin (t :: out) c
  | .inNumeral seen =>
    if isNumeralChar c then some (out, .inNumeral (c :: seen))
    else (Numeral.ofChars? seen.reverse).bind fun n => Lexer.begin (.number n :: out) c
  | .inString parts =>
    if c = '"' then some (stringToken parts.reverse :: out, .between)
    else if c = '\\' then some (out, .inEscape parts)
    else if c.toNat < 0x20 then none
    else some (out, .inString (.char c :: parts))
  | .inEscape parts =>
    if c = 'u' then some (out, .inUnit parts 0 0)
    else (simpleEscape? c).map fun d => (out, .inString (.char d :: parts))
  | .inUnit parts digits value =>
    (Text.hexValue? c).map fun h =>
      let next := value * 16 + h
      if digits = 3 then (out, .inString (.unit next :: parts))
      else (out, .inUnit parts (digits + 1) next)

/-- The token that the end of the text finishes; `none` inside a string. -/
def Lexer.finish (out : List Token) : Lexer → Option (List Token)
  | .between => some out
  | .inWord seen => (wordToken? seen.reverse).map (· :: out)
  | .inNumeral seen => (Numeral.ofChars? seen.reverse).map (.number · :: out)
  | .inString _ => none
  | .inEscape _ => none
  | .inUnit _ _ _ => none

/-- The tokens of `cs` behind the tokens `out`, all last first. -/
def Lexer.run (out : List Token) (lexer : Lexer) : List Char → Option (List Token)
  | [] => lexer.finish out
  | c :: rest =>
    match lexer.step out c with
    | some next => Lexer.run next.1 next.2 rest
    | none => none

/-- The tokens of a text; `none` when it cannot be cut into tokens. -/
def Token.ofChars? (cs : List Char) : Option (List Token) :=
  (Lexer.run [] .between cs).map List.reverse

end SessionHost.Json
