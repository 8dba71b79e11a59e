import SessionHost.Json.Node
import SessionHost.Text.Utf8

/-!
# JSON values

A value is what is kept of a document: numbers are evaluated, every string has a text, and
an object holds each key once, in ascending order, with the last value given for it.  A
document that nests 128 deep or deeper has no value.

Main definitions:

- `Value`: the kept form of a document.
- `Node.value?`: the value of a document.
- `Value.chars`, `Value.text`: the compact text.
- `Value.get?`: a member of an object.
-/

namespace SessionHost.Json

/-- A JSON value. -/
inductive Value where
  | null
  | bool (value : Bool)
  | number (value : Number)
  | string (text : String)
  | array (items : List Value)
  | object (members : List (String × Value))

instance : Inhabited Value := ⟨.null⟩

/-- Sets a key's value in members sorted by key. -/
def insertMember (key : String) (v : Value) : List (String × Value) → List (String × Value)
  | [] => [(key, v)]
  | m :: rest =>
    if key < m.1 then (key, v) :: m :: rest
    else if key = m.1 then (key, v) :: rest
    else m :: insertMember key v rest

/-- The object with the given members; of a repeated key the last one counts. -/
def Value.ofMembers (members : List (String × Value)) : Value :=
  .object (members.foldl (fun sorted m => insertMember m.1 m.2 sorted) [])

/-- A whole number as a value. -/
def Value.int (i : Int) : Value := .number (.int i)

/-- A natural number as a value. -/
def Value.nat (n : Nat) : Value := .number (.int n)

/-- A text, or null. -/
def Value.optional {α : Type} (f : α → Value) : Option α → Value
  | some a => f a
  | none => .null

/-! ## Evaluation -/

mutual

/-- The value of a document that may nest `depth` levels deep. -/
def Node.valueWithin? (depth : Nat) : Node → Option Value
  | .null => some .null
  | .bool b => some (.bool b)
  | .number n => n.value?.map .number
  | .string s => s.map .string
  | .array items =>
    if depth = 0 then none
    else (Node.itemsWithin? (depth - 1) items).map .array
  | .object members =>
    if depth = 0 then none
    else (Node.membersWithin? (depth - 1) members).map Value.ofMembers

/-- The values of an array's items. -/
def Node.itemsWithin? (depth : Nat) : List Node → Option (List Value)
  | [] => some []
  | n :: rest =>
    match Node.valueWithin? depth n with
    | some v => (Node.itemsWithin? depth rest).map (v :: ·)
    | none => none

/-- The values of an object's members, in their order. -/
def Node.membersWithin? (depth : Nat) :
    List (Option String × Node) → Option (List (String × Value))
  | [] => some []
  | (key, n) :: rest =>
    match key, Node.valueWithin? depth n with
    | some k, some v => (Node.membersWithin? depth rest).map ((k, v) :: ·)
    | _, _ => none

end

/-- The number of levels a kept value may nest. -/
def maxDepth : Nat := 127

/-- The value of a document. -/
def Node.value? (n : Node) : Option Value := n.valueWithin? maxDepth

/-- The value of a text. -/
def Value.ofText? (text : String) : Option Value :=
  (Node.ofText? text).bind Node.value?

/-- The value of UTF-8 bytes. -/
def Value.ofBytes? (bytes : List UInt8) : Option Value :=
  (Text.ofUtf8? bytes).bind Value.ofText?

/-! ## Text -/

/-- How a character is written inside a string. -/
def escapeChar (c : Char) : List Char :=
  if c = '"' then ['\\', '"']
  else if c = '\\' then ['\\', '\\']
  else if c = '\x08' then ['\\', 'b']
  else if c = '\x0c' then ['\\', 'f']
  else if c = '\n' then ['\\', 'n']
  else if c = '\r' then ['\\', 'r']
  else if c = '\t' then ['\\', 't']
  else if c.toNat < 0x20 then '\\' :: 'u' :: Text.hexDigits 4 c.toNat
  else [c]

/-- A string in quotes. -/
def quote (s : String) : List Char :=
  '"' :: (s.toList.flatMap escapeChar ++ ['"'])

mutual

/-- The characters of a value's compact text. -/
def Value.chars : Value → List Char
  | .null => "null".toList
  | .bool true => "true".toList
  | .bool false => "false".toList
  | .number n => n.text.toList
  | .string s => quote s
  | .array items => '[' :: (Value.itemChars items ++ [']'])
  | .object members => '{' :: (Value.memberChars members ++ ['}'])

/-- The characters of items with commas between them. -/
def Value.itemChars : List Value → List Char
  | [] => []
  | [v] => v.chars
  | v :: w :: rest => v.chars ++ ',' :: Value.itemChars (w :: rest)

/-- The characters of members with commas between them. -/
def Value.memberChars : List (String × Value) → List Char
  | [] => []
  | [(k, v)] => quote k ++ ':' :: v.chars
  | (k, v) :: m :: rest => quote k ++ ':' :: (v.chars ++ ',' :: Value.memberChars (m :: rest))

end

/-- The compact text of a value. -/
def Value.text (v : Value) : String := String.ofList v.chars

/-! ## Access -/

/-- The member of an object under a key. -/
def Value.get? (v : Value) (key : String) : Option Value :=
  match v with
  | .object members => (members.find? fun m => m.1 == key).map (·.2)
  | _ => none

/-- The text of a string. -/
def Value.text? : Value → Option String
  | .string s => some s
  | _ => none

/-- The truth value of a boolean. -/
def Value.bool? : Value → Option Bool
  | .bool b => some b
  | _ => none

/-- The whole number of a value. -/
def Value.int? : Value → Option Int
  | .number (.int i) => some i
  | _ => none

end SessionHost.Json
