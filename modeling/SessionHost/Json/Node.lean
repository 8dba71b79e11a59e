import SessionHost.Json.Token

/-!
# JSON documents

A document is the tree of a text, of any depth, before any decision about what is kept:
numerals are not evaluated, members keep their order and their repetitions, and a string
without a text stands as such.  Skipping a value asks no more than that it is one.

The tree is built by a stack machine that takes one token after the other.

Main definitions:

- `Node`: a document.
- `Builder`, `Builder.step`: the open arrays and objects, and what one token does to them.
- `Node.ofText?`: the document of a text.
-/

namespace SessionHost.Json

/-- A JSON document. -/
inductive Node where
  | null
  | bool (value : Bool)
  | number (value : Numeral)
  | string (text : Option String)
  | array (items : List Node)
  | object (members : List (Option String × Node))

/-- An array or object whose end has not come; items and members are kept last first. -/
inductive Open where
  | array (items : List Node)
  | object (members : List (Option String × Node))
  | member (members : List (Option String × Node)) (key : Option String)

/-- What the next token may be. -/
inductive Expecting where
  | value
  | firstItem
  | firstKey
  | key
  | colon
  | separator

/-- The machine's state: the innermost open node first, or the whole document. -/
inductive Builder where
  | reading (stack : List Open) (next : Expecting)
  | finished (node : Node)

/-- Hands a finished node to the innermost open one. -/
def Builder.attach (node : Node) : List Open → Option Builder
  | [] => some (.finished node)
  | .array items :: stack => some (.reading (.array (node :: items) :: stack) .separator)
  | .member members key :: stack =>
    some (.reading (.object ((key, node) :: members) :: stack) .separator)
  | .object _ :: _ => none

/-- What a token does where a value is expected. -/
def Builder.value (stack : List Open) : Token → Option Builder
  | .null => attach .null stack
  | .bool b => attach (.bool b) stack
  | .number n => attach (.number n) stack
  | .string s => attach (.string s) stack
  | .openArray => some (.reading (.array [] :: stack) .firstItem)
  | .openObject => some (.reading (.object [] :: stack) .firstKey)
  | _ => none

/-- What a token does where a key is expected. -/
def Builder.key (stack : List Open) (t : Token) : Option Builder :=
  match stack, t with
  | .object members :: rest, .string s => some (.reading (.member members s :: rest) .colon)
  | _, _ => none

/-- What a closing bracket or brace does. -/
def Builder.close (stack : List Open) (t : Token) : Option Builder :=
  match stack, t with
  | .array items :: rest, .closeArray => attach (.array items.reverse) rest
  | .object members :: rest, .closeObject => attach (.object members.reverse) rest
  | _, _ => none

/-- What one token does. -/
def Builder.step (b : Builder) (t : Token) : Option Builder :=
  match b with
  | .finished _ => none
  | .reading stack .value => Builder.value stack t
  | .reading stack .firstItem =>
    match t with
    | .closeArray => Builder.close stack t
    | _ => Builder.value stack t
  | .reading stack .firstKey =>
    match t with
    | .closeObject => Builder.close stack t
    | _ => Builder.key stack t
  | .reading stack .key => Builder.key stack t
  | .reading stack .colon =>
    match t with
    | .colon => some (.reading stack .value)
    | _ => none
  | .reading stack .separator =>
    match stack, t with
    | .array _ :: _, .comma => some (.reading stack .value)
    | .object _ :: _, .comma => some (.reading stack .key)
    | _, _ => Builder.close stack t

/-- The state behind a list of tokens. -/
def Builder.run (b : Builder) : List Token → Option Builder
  | [] => some b
  | t :: rest => (b.step t).bind fun next => next.run rest

/-- The document that a list of tokens spells. -/
def Node.ofTokens? (tokens : List Token) : Option Node :=
  match Builder.run (.reading [] .value) tokens with
  | some (.finished node) => some node
  | _ => none

/-- The document of a text. -/
def Node.ofText? (text : String) : Option Node :=
  (Token.ofChars? text.toList).bind Node.ofTokens?

end SessionHost.Json
