import SessionHost.Toml.Statement

/-!
# Documents

A document is a tree of tables that remembers how it was written, so that it can be changed at
one place and written again with all comments and spaces in place.

A table is made in one of three ways: by a header of its own, by standing above another header,
or by keys with dots.  Which of them may meet at one name is what keeps a table from being
defined twice.

Main definitions:

- `Document`: the tree, and the text behind it.
- `placeTable?`: what a header does to the tree.
- `Document.ofText?`: the document of a text.
- `Document.members`: what a document says, without how it says it.
-/

namespace SessionHost.Toml

/-- A document: the tree, and the text behind the last statement. -/
structure Document where
  entries : Entries
  trailing : String

/-- Puts the table of a header at its path.  `body` adds the keys below the header to the entries
that are already there. -/
def placeTable? (doubled : Bool) (path : List Key) (key : Key) (info : TableInfo)
    (body : Entries → Option Entries) (entries : Entries) : Option Entries :=
  match path with
  | [] =>
    match doubled, find? key.name entries with
    | false, none => (body []).map fun inner => entries ++ [(key, .table info inner)]
    | false, some (.table old inner) =>
      if old.kind = .aboveHeader then
        (body inner).map fun changed => remove key.name entries ++ [(key, .table info changed)]
      else none
    | true, none => (body []).map fun inner => entries ++ [(key, .tables [(info, inner)])]
    | true, some (.tables elements) =>
      (body []).map fun inner =>
        replace key.name (.tables (elements ++ [(info, inner)])) entries
    | _, _ => none
  | k :: rest =>
    match find? k.name entries with
    | none =>
      (placeTable? doubled rest key info body []).map fun inner =>
        entries ++ [(k, .table (.unnamed .aboveHeader) inner)]
    | some (.value _ _) => none
    | some (.tables elements) =>
      match elements.getLast? with
      | some last =>
        (placeTable? doubled rest key info body last.2).map fun inner =>
          replace k.name (.tables (replaceLast elements inner)) entries
      | none => none
    | some (.table old inner) =>
      (placeTable? doubled rest key info body inner).map fun changed =>
        replace k.name (.table old changed) entries

/-! ## From statements -/

/-- A header with the statements below it, or the statements above the first header. -/
structure Section where
  doubled : Bool
  before : List Char
  path : List KeyPart
  after : List Char
  /-- Blank text in front of each key with its value. -/
  body : List (List Char × List KeyPart × List Char × Value)

/-- A document cut at its headers: the statements above the first one, the sections, and the
blank text at the end. -/
structure Outline where
  head : List (List Char × List KeyPart × List Char × Value)
  sections : List Section
  trailing : List Char

/-- The outline of statements, read from the last one to the first; `trailing` is the blank text
that belongs to the statement behind. -/
def Outline.ofStatements : List Statement → Outline
  | [] => ⟨[], [], []⟩
  | .blank text :: rest =>
    let o := Outline.ofStatements rest
    match o.head, o.sections with
    | (blank, path, value, v) :: more, _ =>
      { o with head := (text ++ blank, path, value, v) :: more }
    | [], s :: more => { o with sections := { s with before := text ++ s.before } :: more }
    | [], [] => { o with trailing := text ++ o.trailing }
  | .member path text v :: rest =>
    let o := Outline.ofStatements rest
    { o with head := ([], path, text, v) :: o.head }
  | .header doubled before path after :: rest =>
    let o := Outline.ofStatements rest
    ⟨[], ⟨doubled, before, path, after, o.head⟩ :: o.sections, o.trailing⟩

/-- Adds keys with their values to a table. -/
def addMembers? (body : List (List Char × List KeyPart × List Char × Value))
    (entries : Entries) : Option Entries :=
  body.foldlM (fun entries m => do
    let (path, key) ← Key.ofPath? (plainText m.1) m.2.1 ""
    addMember? path key (.value (String.ofList m.2.2.1) m.2.2.2) entries) entries

/-- Adds a section to the tree as the header of a given number. -/
def addSection? (s : Section) (position : Nat) (entries : Entries) :
    Option Entries := do
  let (path, key) ← Key.ofPath? "" s.path ""
  let info : TableInfo := ⟨.header, position, plainText s.before, plainText s.after⟩
  placeTable? s.doubled path key info (addMembers? s.body) entries

/-- Adds sections to the tree, the first one as the header of a given number. -/
def addSections? (position : Nat) (entries : Entries) : List Section → Option Entries
  | [] => some entries
  | s :: rest =>
    match addSection? s position entries with
    | some entries => addSections? (position + 1) entries rest
    | none => none

/-- The document of an outline. -/
def Document.ofOutline? (o : Outline) : Option Document :=
  ((addMembers? o.head []).bind fun entries => addSections? 1 entries o.sections).map
    fun entries => ⟨entries, plainText o.trailing⟩

/-- The document of a text. -/
def Document.ofText? (text : String) : Option Document :=
  (statements? text).bind fun ss => Document.ofOutline? (Outline.ofStatements ss)

/-! ## Meaning -/

/-- What a document says. -/
def Document.members (d : Document) : List (String × Value) := entriesMeaning d.entries

end SessionHost.Toml
