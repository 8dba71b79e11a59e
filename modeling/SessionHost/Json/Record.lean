import SessionHost.Json.Value

/-!
# Records in JSON

A record with named fields is written as an object, in which members of other names are
skipped and no field may be given twice, or as an array of its fields in their order.

Main definitions:

- `Record`: the fields that were given.
- `Record.ofMembers?`, `Record.ofItems?`: reading the two forms.
- `Node.record?`, `Value.record?`: reading a document or a kept value.
-/

namespace SessionHost.Json

/-- The given fields of a record, by position.  A field that is absent may be required only in
the positional form. -/
structure Record (α : Type) where
  positional : Bool
  fields : List (Option α)

/-- The only member of a name: `some none` if there is none, `none` if there are several. -/
def soleMember? {α : Type} (name : String) (members : List (String × α)) : Option (Option α) :=
  match members.filter fun m => m.1 == name with
  | [] => some none
  | [m] => some (some m.2)
  | _ :: _ :: _ => none

/-- Reads the fields `names` from the members of an object. -/
def Record.ofMembers? {α : Type} (names : List String) (members : List (String × α)) :
    Option (Record α) :=
  (names.mapM fun name => soleMember? name members).map fun fields => ⟨false, fields⟩

/-- Reads the fields `names` from the items of an array; the last ones may be missing. -/
def Record.ofItems? {α : Type} (names : List String) (items : List α) : Option (Record α) :=
  if items.length ≤ names.length then
    some ⟨true, items.map some ++ List.replicate (names.length - items.length) none⟩
  else
    none

/-- The members of a record's object.  A key without a text cannot be compared with the
fields' names. -/
def keyedMembers? (members : List (Option String × Node)) : Option (List (String × Node)) :=
  members.mapM fun m => m.1.map fun key => (key, m.2)

/-- A document as a record. -/
def Node.record? (names : List String) : Node → Option (Record Node)
  | .object members => (keyedMembers? members).bind (Record.ofMembers? names)
  | .array items => Record.ofItems? names items
  | _ => none

/-- A kept value as a record. -/
def Value.record? (names : List String) : Value → Option (Record Value)
  | .object members => Record.ofMembers? names members
  | .array items => Record.ofItems? names items
  | _ => none

/-- The text of a document that is a string. -/
def Node.text? : Node → Option String
  | .string s => s
  | _ => none

/-- A text or null. -/
def Node.nullableText? : Node → Option (Option String)
  | .null => some none
  | .string (some s) => some (some s)
  | _ => none

/-- A whole number between zero and a bound, or null. -/
def Node.nullableNat? (bound : Nat) : Node → Option (Option Nat)
  | .null => some none
  | .number n =>
    match n.value? with
    | some (.int i) => if 0 ≤ i ∧ i ≤ bound then some (some i.toNat) else none
    | _ => none
  | _ => none

end SessionHost.Json
