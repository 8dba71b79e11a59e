import SessionHost.Toml.Document
import SessionHost.Toml.Quote

/-!
# Writing documents

A document is written table by table in the order of the headers, each with its own keys; the
texts that surrounded keys, values and headers are written where they stood.

Main definitions:

- `Document.set`: a document with another string under a key at the top.
- `Document.render`: the text of a document.
-/

namespace SessionHost.Toml

/-! ## Change -/

/-- A string behind its `=`. -/
def stringItem (s : String) : Item := .value (" " ++ String.ofList (writeString s)) (.string s)

/-- A key that was not in the document before. -/
def Key.new (name : String) : Key := ⟨name, name, none, "", ""⟩

/-- The document with a string under a key at the top: in the place of what was there, or behind
all other keys. -/
def Document.set (d : Document) (name s : String) : Document :=
  if (find? name d.entries).isSome then
    { d with entries := replace name (stringItem s) d.entries }
  else
    { d with entries := d.entries ++ [(Key.new name, stringItem s)] }

/-! ## Text -/

/-- The lines of keys with their values. -/
def memberLines (members : List (List Key × String)) : String :=
  String.join (members.map fun m => memberText m ++ "\n")

/-- A table to be written: the number of its header, and its text. -/
structure Chunk where
  position : Nat
  text : String

/-- The text of a table with its header. -/
def headerText (doubled : Bool) (path : List Key) (info : TableInfo) : String :=
  let name := pathText path ("", "")
  let bracketed := if doubled then "[[" ++ name ++ "]]" else "[" ++ name ++ "]"
  info.before ++ bracketed ++ info.after ++ "\n"

/-- What is written for a table itself.  Keys with dots stand in the lines of the table above, and
nothing is written for a table that only stands above headers. -/
def tableChunks (doubled : Bool) (path : List Key) (info : TableInfo) (entries : Entries) :
    List Chunk :=
  match info.kind with
  | .dotted => []
  | .aboveHeader => []
  | .header =>
    [⟨info.position, headerText doubled path info ++ memberLines (ownMembers [] entries)⟩]

mutual

/-- The tables below entries. -/
def entryChunks (path : List Key) : List (Key × Item) → List Chunk
  | [] => []
  | (key, item) :: rest => itemChunks (path ++ [key]) item ++ entryChunks path rest

/-- The tables that an item is and holds. -/
def itemChunks (path : List Key) : Item → List Chunk
  | .value _ _ => []
  | .table info entries => tableChunks false path info entries ++ entryChunks path entries
  | .tables elements => elementChunks path elements

/-- The tables that an array of tables is and holds. -/
def elementChunks (path : List Key) : List (TableInfo × List (Key × Item)) → List Chunk
  | [] => []
  | (info, entries) :: rest =>
    tableChunks true path info entries ++ entryChunks path entries ++ elementChunks path rest

end

/-- The text of a document. -/
def Document.render (d : Document) : String :=
  let tables := (entryChunks [] d.entries).mergeSort fun a b => a.position ≤ b.position
  memberLines (ownMembers [] d.entries) ++ String.join (tables.map Chunk.text) ++ d.trailing

end SessionHost.Toml
