import SessionHost.Toml.Moment

/-!
# Strings, keys and space

The parts of a document below its values.  Every reader takes the characters that belong to it and
returns the rest.

Main definitions:

- `readLineEnd?`: space and a comment up to the end of a line.
- `readString?`: the four forms of strings.
- `KeyPart`, `readKeyPath?`: keys with dots between them.
-/

namespace SessionHost.Toml

/-! ## Space and comments -/

/-- Space inside a line. -/
def isBlankChar (c : Char) : Bool := c = ' ' || c = '\t'

/-- A control character that may stand nowhere but, for some, at a line end. -/
def isControl (c : Char) : Bool := (c.toNat < 0x20 && c ≠ '\t') || c.toNat = 0x7F

/-- The characters in front, and the rest. -/
def takeBlank (cs : List Char) : List Char × List Char :=
  (cs.takeWhile isBlankChar, cs.dropWhile isBlankChar)

/-- The characters behind a line end. -/
def dropLineEnd? : List Char → Option (List Char)
  | '\n' :: rest => some rest
  | '\r' :: '\n' :: rest => some rest
  | _ => none

/-- A comment without its line end. -/
def readComment? (cs : List Char) : Reading (List Char) :=
  let body := cs.takeWhile fun c => c ≠ '\n' && c ≠ '\r'
  if body.any isControl then none
  else some (body, cs.drop body.length)

/-- Space and an optional comment up to the end of the line, and what follows the line end.  The
last line may end with the text. -/
def readLineEnd? (cs : List Char) : Reading (List Char) :=
  let blank := takeBlank cs
  let tail : Reading (List Char) :=
    match blank.2 with
    | '#' :: _ => readComment? blank.2
    | _ => some ([], blank.2)
  match tail with
  | none => none
  | some (comment, []) => some (blank.1 ++ comment, [])
  | some (comment, rest) => (dropLineEnd? rest).map fun next => (blank.1 ++ comment, next)

/-- Prepends a character to what was read. -/
def Reading.cons (c : Char) (r : Reading (List Char)) : Reading (List Char) :=
  r.map fun p => (c :: p.1, p.2)

/-- Space, line ends and comments inside brackets, with plain line ends; the fuel is at least the
number of characters. -/
def readGap? (cs : List Char) : Nat → Reading (List Char)
  | 0 => some ([], cs)
  | fuel + 1 =>
    match cs with
    | '#' :: _ =>
      match readComment? cs with
      | some (comment, rest) => (readGap? rest fuel).map fun p => (comment ++ p.1, p.2)
      | none => none
    | '\r' :: '\n' :: rest => (readGap? rest fuel).cons '\n'
    | c :: rest => if isBlankChar c || c = '\n' then (readGap? rest fuel).cons c else some ([], cs)
    | [] => some ([], [])

/-! ## Strings -/

/-- The value of hexadecimal digits. -/
def hexValue? (cs : List Char) : Option Nat :=
  cs.foldl (fun acc c => acc.bind fun n => (Text.hexValue? c).map fun d => n * 16 + d) (some 0)

/-- The character of a code point; surrogates are none. -/
def scalarChar? (n : Nat) : Option Char :=
  if n < 0xD800 ∨ (0xDFFF < n ∧ n ≤ 0x10FFFF) then some (Char.ofNat n) else none

/-- The character that `width` hexadecimal digits spell. -/
def readHexChar? (width : Nat) (cs : List Char) : Reading Char :=
  if cs.length < width then none
  else ((hexValue? (cs.take width)).bind scalarChar?).map fun c => (c, cs.drop width)

/-- The character of an escape, behind its backslash. -/
def readEscape? : List Char → Reading Char
  | 'b' :: rest => some ('\x08', rest)
  | 't' :: rest => some ('\t', rest)
  | 'n' :: rest => some ('\n', rest)
  | 'f' :: rest => some ('\x0c', rest)
  | 'r' :: rest => some ('\r', rest)
  | 'e' :: rest => some ('\x1b', rest)
  | '"' :: rest => some ('"', rest)
  | '\\' :: rest => some ('\\', rest)
  | 'x' :: rest => readHexChar? 2 rest
  | 'u' :: rest => readHexChar? 4 rest
  | 'U' :: rest => readHexChar? 8 rest
  | _ => none

/-- A string in double quotes, behind the first one; the fuel is the number of characters. -/
def readBasic? (cs : List Char) : Nat → Reading (List Char)
  | 0 => none
  | fuel + 1 =>
    match cs with
    | '"' :: rest => some ([], rest)
    | '\\' :: rest =>
      match readEscape? rest with
      | some (c, rest) => (readBasic? rest fuel).cons c
      | none => none
    | c :: rest => if isControl c then none else (readBasic? rest fuel).cons c
    | [] => none

/-- A string in single quotes, behind the first one. -/
def readLiteral? : List Char → Reading (List Char)
  | [] => none
  | c :: rest =>
    if c = '\'' then some ([], rest)
    else if isControl c then none
    else (readLiteral? rest).cons c

/-- The characters behind the space and line ends that a backslash at a line's end joins. -/
def skipJoin? (cs : List Char) : Option (List Char) :=
  let behind := dropLineEnd? (takeBlank cs).2
  behind.bind fun rest => some (dropJoined rest rest.length)
where
  /-- Drops space and line ends. -/
  dropJoined (cs : List Char) : Nat → List Char
    | 0 => cs
    | fuel + 1 =>
      match cs with
      | '\r' :: '\n' :: rest => dropJoined rest fuel
      | c :: rest => if isBlankChar c || c = '\n' then dropJoined rest fuel else cs
      | [] => []

/-- The number of quotes in front, at most five. -/
def quoteRun (quote : Char) (cs : List Char) : Nat :=
  ((cs.take 5).takeWhile (· = quote)).length

/-- A string of several lines, behind its opening; the fuel is the number of characters.  Up to
two quotes before the closing ones belong to the string. -/
def readLong? (quote : Char) (cs : List Char) : Nat → Reading (List Char)
  | 0 => none
  | fuel + 1 =>
    match cs with
    | [] => none
    | '\r' :: '\n' :: rest => ((readLong? quote rest fuel).cons '\n').cons '\r'
    | c :: rest =>
      if c = quote then
        let run := quoteRun quote cs
        if 3 ≤ run then some (List.replicate (run - 3) quote, cs.drop run)
        else (readLong? quote rest fuel).cons c
      else if c = '\n' then (readLong? quote rest fuel).cons c
      else if c = '\\' ∧ quote = '"' then
        match readEscape? rest, skipJoin? rest with
        | some (d, behind), _ => (readLong? quote behind fuel).cons d
        | none, some behind => readLong? quote behind fuel
        | none, none => none
      else if isControl c then none
      else (readLong? quote rest fuel).cons c

/-- A line end directly behind the opening of a string of several lines does not count. -/
def dropFirstLineEnd (cs : List Char) : List Char := (dropLineEnd? cs).getD cs

/-- A string in any of the four forms. -/
def readString? : List Char → Reading String
  | '"' :: '"' :: '"' :: rest =>
    let body := dropFirstLineEnd rest
    (readLong? '"' body (body.length + 1)).map fun p => (String.ofList p.1, p.2)
  | '\'' :: '\'' :: '\'' :: rest =>
    let body := dropFirstLineEnd rest
    (readLong? '\'' body (body.length + 1)).map fun p => (String.ofList p.1, p.2)
  | '"' :: rest => (readBasic? rest (rest.length + 1)).map fun p => (String.ofList p.1, p.2)
  | '\'' :: rest => (readLiteral? rest).map fun p => (String.ofList p.1, p.2)
  | _ => none

/-! ## Keys -/

/-- A key as it is written: its name, its text, and the space around it. -/
structure KeyPart where
  name : String
  raw : String
  before : String
  after : String

/-- A character of a key without quotes. -/
def isBareChar (c : Char) : Bool := c.isAlphanum || c = '_' || c = '-'

/-- The name of a key, behind the space in front of it. -/
def readKeyName? (cs : List Char) : Reading String :=
  match cs with
  | '"' :: rest => (readBasic? rest (rest.length + 1)).map fun p => (String.ofList p.1, p.2)
  | '\'' :: rest => (readLiteral? rest).map fun p => (String.ofList p.1, p.2)
  | _ =>
    match cs.takeWhile isBareChar with
    | [] => none
    | name => some (String.ofList name, cs.drop name.length)

/-- A key with the space around it. -/
def readKeyPart? (cs : List Char) : Reading KeyPart :=
  let blank := takeBlank cs
  match readKeyName? blank.2 with
  | none => none
  | some (name, rest) =>
    let raw := blank.2.take (blank.2.length - rest.length)
    let behind := takeBlank rest
    some
      (⟨name, String.ofList raw, String.ofList blank.1, String.ofList behind.1⟩, behind.2)

/-- The number of keys that may stand with dots between them. -/
def maxKeyParts : Nat := 80

/-- Keys with dots between them, at least one and no more than the fuel. -/
def readKeyParts? (cs : List Char) : Nat → Reading (List KeyPart)
  | 0 => none
  | fuel + 1 =>
    match readKeyPart? cs with
    | none => none
    | some (part, '.' :: rest) => (readKeyParts? rest fuel).map fun p => (part :: p.1, p.2)
    | some (part, rest) => some ([part], rest)

/-- A key with all that stand before it. -/
def readKeyPath? (cs : List Char) : Reading (List KeyPart) := readKeyParts? cs maxKeyParts

end SessionHost.Toml
