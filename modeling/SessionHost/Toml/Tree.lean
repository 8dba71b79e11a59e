import SessionHost.Toml.Text
import SessionHost.Toml.Value

/-!
# Trees of tables

The keys of a table with what stands under them, and the texts that were around them, so that
they can be written again as they were.  An inline table is such a tree, too.

Main definitions:

- `Key`, `Item`, `Entries`: the tree.
- `addMember?`: what a key with its value does to the tree.
- `entriesMeaning`: what a tree says.
- `ownMembers`, `memberText`: what is written for it.
-/

namespace SessionHost.Toml

/-- A key in the tree: its name and text, the texts around it where it stands last, and the
texts around it where it stands before or behind a dot. -/
structure Key where
  name : String
  raw : String
  around : Option (String × String)
  beforeDot : String
  behindDot : String

/-- How a table was made. -/
inductive TableKind where
  | header
  /-- By standing above headers, which does not define it yet. -/
  | aboveHeader
  | dotted
deriving DecidableEq

/-- How a table was made, the number of its header, and the texts around the header. -/
structure TableInfo where
  kind : TableKind
  position : Nat
  before : String
  after : String

/-- What stands under a key: a value with the text behind its `=`, a table, or an array of
tables. -/
inductive Item where
  | value (text : String) (v : Value)
  | table (info : TableInfo) (entries : List (Key × Item))
  | tables (elements : List (TableInfo × List (Key × Item)))

/-- The keys of a table, in their order. -/
abbrev Entries := List (Key × Item)

/-- The item under a name. -/
def find? (name : String) (entries : Entries) : Option Item :=
  (entries.find? fun e => e.1.name == name).map (·.2)

/-- The entries with another item under a name. -/
def replace (name : String) (item : Item) (entries : Entries) : Entries :=
  entries.map fun e => if e.1.name == name then (e.1, item) else e

/-- The entries without a name. -/
def remove (name : String) (entries : Entries) : Entries :=
  entries.filter fun e => e.1.name != name

/-- The last element of an array of tables with other entries. -/
def replaceLast (elements : List (TableInfo × Entries)) (entries : Entries) :
    List (TableInfo × Entries) :=
  match elements.getLast? with
  | some last => elements.dropLast ++ [(last.1, entries)]
  | none => []

/-- The information on a table that no header names. -/
def TableInfo.unnamed (kind : TableKind) : TableInfo := ⟨kind, 0, "", ""⟩

/-- Puts a value under a key at a path of keys with dots.  A table that so far only stands above
headers has not been defined yet: keys with dots that lead through it define it, in the lines of
the table in which they stand.  A table with a header of its own and an array of tables are defined
already. -/
def addMember? (path : List Key) (key : Key) (item : Item) (entries : Entries) :
    Option Entries :=
  match path with
  | [] => if (find? key.name entries).isSome then none else some (entries ++ [(key, item)])
  | k :: rest =>
    match find? k.name entries with
    | none =>
      (addMember? rest key item []).map fun inner =>
        entries ++ [(k, .table (.unnamed .dotted) inner)]
    | some (.table info inner) =>
      if info.kind = .header then none
      else
        (addMember? rest key item inner).map fun changed =>
          replace k.name (.table { info with kind := .dotted } changed) entries
    | some _ => none

/-! ## Keys as they were read -/

/-- The text without carriage returns. -/
def plainText (cs : List Char) : String := String.ofList (cs.filter (· ≠ '\r'))

/-- A key that stands before a dot. -/
def Key.inner (first : Bool) (part : KeyPart) : Key :=
  ⟨part.name, part.raw, none, part.after, if first then "" else part.before⟩

/-- The keys before the last one, and the last one with the texts around the whole path. -/
def Key.ofPath? (before : String) (path : List KeyPart) (after : String) :
    Option (List Key × Key) :=
  match path, path.getLast? with
  | first :: _, some last =>
    let inner := path.dropLast
    let leading := inner.mapIdx fun i part => Key.inner (i == 0) part
    some
      (leading,
        ⟨last.name, last.raw, some (before ++ first.before, last.after ++ after), "",
          if inner.isEmpty then "" else last.before⟩)
  | _, _ => none

/-! ## Meaning -/

mutual

/-- The value of an item. -/
def Item.meaning : Item → Value
  | .value _ v => v
  | .table _ entries => .table (entriesMeaning entries)
  | .tables elements => .array (elementsMeaning elements)

/-- The members that entries are. -/
def entriesMeaning : List (Key × Item) → List (String × Value)
  | [] => []
  | (key, item) :: rest => (key.name, item.meaning) :: entriesMeaning rest

/-- The tables that elements are. -/
def elementsMeaning : List (TableInfo × List (Key × Item)) → List Value
  | [] => []
  | (_, entries) :: rest => .table (entriesMeaning entries) :: elementsMeaning rest

end

/-! ## Text -/

/-- Keys with dots between them, and the texts around the whole. -/
def pathText (path : List Key) (default : String × String) : String :=
  match path.getLast? with
  | none => ""
  | some last =>
    let around := last.around.getD default
    let rec inner (first : Bool) : List Key → String
      | [] => ""
      | [k] => (if first then "" else "." ++ k.behindDot) ++ k.raw
      | k :: rest =>
        (if first then "" else "." ++ k.behindDot) ++ k.raw ++ k.beforeDot ++ inner false rest
    around.1 ++ inner true path ++ around.2

mutual

/-- The keys with values that belong to a table's own lines. -/
def ownMembers (path : List Key) : List (Key × Item) → List (List Key × String)
  | [] => []
  | (key, item) :: rest => itemMembers (path ++ [key]) item ++ ownMembers path rest

/-- The keys with values that an item adds to the lines of the table above it. -/
def itemMembers (path : List Key) : Item → List (List Key × String)
  | .value text _ => [(path, text)]
  | .table info entries => if info.kind = .dotted then ownMembers path entries else []
  | .tables _ => []

end

/-- A key with its value. -/
def memberText (member : List Key × String) : String :=
  pathText member.1 ("", " ") ++ "=" ++ member.2

end SessionHost.Toml
