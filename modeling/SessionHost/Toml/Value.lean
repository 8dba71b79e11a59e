import SessionHost.Toml.Scalar

/-!
# Values

Strings, scalars, arrays and tables.

Main definitions:

- `Value`: a value.
- `Value.allScalars`: a property of every scalar in a value.
-/

namespace SessionHost.Toml

/-- A value. -/
inductive Value where
  | string (text : String)
  | scalar (value : Scalar)
  | array (items : List Value)
  | table (members : List (String × Value))

instance : Inhabited Value := ⟨.string ""⟩

/-- The value under a name. -/
def member? (name : String) (members : List (String × Value)) : Option Value :=
  (members.find? fun m => m.1 == name).map (·.2)

mutual

/-- Every scalar in a value satisfies a test. -/
def Value.allScalars (p : Scalar → Bool) : Value → Bool
  | .string _ => true
  | .scalar s => p s
  | .array items => Value.allItems p items
  | .table members => Value.allMembers p members

/-- Every scalar in the items of an array satisfies a test. -/
def Value.allItems (p : Scalar → Bool) : List Value → Bool
  | [] => true
  | v :: rest => v.allScalars p && Value.allItems p rest

/-- Every scalar in the members of a table satisfies a test. -/
def Value.allMembers (p : Scalar → Bool) : List (String × Value) → Bool
  | [] => true
  | (_, v) :: rest => v.allScalars p && Value.allMembers p rest

end

end SessionHost.Toml
