import SessionHost.Text.Split
import SessionHost.Toml.Scalar
import SessionHost.Toml.Tree

/-!
# Written values

A value in front of a text, read together with what is written for it again: strings and scalars
as they stand, and what surrounds them inside brackets with plain line ends.  The keys of an
inline table that share a beginning are written side by side.

Main definitions:

- `Written`: a value with its text.
- `readValue?`: a value in front of a text, nested at most eighty levels deep.
-/

namespace SessionHost.Toml

/-- A value, and the text that is written for it. -/
structure Written where
  value : Value
  text : List Char

/-- The items of an array behind its bracket, read by `item?`, and the text up to the other
bracket. -/
def readItems? (item? : List Char → Reading Written) (cs : List Char) :
    Nat → Reading (List Value × List Char)
  | 0 => none
  | fuel + 1 =>
    match readGap? cs (fuel + 1) with
    | none => none
    | some (gap, ']' :: rest) => some (([], gap ++ [']']), rest)
    | some (gap, start) =>
      match item? start with
      | none => none
      | some (item, behind) =>
        match readGap? behind (fuel + 1) with
        | some (after, ',' :: rest) =>
          (readItems? item? rest fuel).map fun p =>
            ((item.value :: p.1.1, gap ++ item.text ++ after ++ ',' :: p.1.2), p.2)
        | some (after, ']' :: rest) =>
          some (([item.value], gap ++ item.text ++ after ++ [']']), rest)
        | _ => none

/-- An inline table up to its other brace: its keys, and the text behind the last one. -/
structure OpenTable where
  entries : Entries
  tail : List Char

/-- The text of an inline table. -/
def OpenTable.text (t : OpenTable) : List Char :=
  let members := (ownMembers [] t.entries).map memberText
  '\x7b' :: (Text.joinWith "," members).toList ++ t.tail ++ ['\x7d']

/-- A key of an inline table, its value behind the `=`, and what follows. -/
def readInlineMember? (item? : List Char → Reading Written) (gap start : List Char)
    (entries : Entries) (fuel : Nat) : Reading Entries :=
  match readKeyPath? start with
  | none => none
  | some (path, behind) =>
    match readGap? behind fuel with
    | some (afterKey, '=' :: rest) =>
      match readGap? rest fuel with
      | none => none
      | some (before, start) =>
        match item? start with
        | none => none
        | some (item, behind) =>
          match readGap? behind fuel with
          | none => none
          | some (after, rest) =>
            let text := String.ofList (before ++ item.text ++ after)
            ((Key.ofPath? (String.ofList gap) path (String.ofList afterKey)).bind fun keys =>
              addMember? keys.1 keys.2 (.value text item.value) entries).map
                fun entries => (entries, rest)
    | _ => none

/-- The keys of an inline table behind its brace, added to `entries`; values are read by
`item?`. -/
def readMembers? (item? : List Char → Reading Written) (entries : Entries) (cs : List Char) :
    Nat → Reading OpenTable
  | 0 => none
  | fuel + 1 =>
    match readGap? cs (fuel + 1) with
    | none => none
    | some (gap, '\x7d' :: rest) =>
      some (⟨entries, if entries.isEmpty then gap else ',' :: gap⟩, rest)
    | some (gap, start) =>
      match readInlineMember? item? gap start entries (fuel + 1) with
      | some (entries, ',' :: rest) => readMembers? item? entries rest fuel
      | some (entries, '\x7d' :: rest) => some (⟨entries, []⟩, rest)
      | _ => none

/-- A value whose arrays and inline tables nest at most `depth` levels deep. -/
def readValueWithin? : Nat → List Char → Reading Written
  | depth, cs =>
    match cs with
    | [] => none
    | '[' :: rest =>
      match depth with
      | 0 => none
      | depth + 1 =>
        (readItems? (readValueWithin? depth) rest (rest.length + 1)).map fun p =>
          (⟨.array p.1.1, '[' :: p.1.2⟩, p.2)
    | '\x7b' :: rest =>
      match depth with
      | 0 => none
      | depth + 1 =>
        (readMembers? (readValueWithin? depth) [] rest (rest.length + 1)).map fun p =>
          (⟨.table (entriesMeaning p.1.entries), p.1.text⟩, p.2)
    | c :: _ =>
      if c = '"' ∨ c = '\'' then
        (readString? cs).map fun p =>
          (⟨.string p.1, cs.take (cs.length - p.2.length)⟩, p.2)
      else
        (readScalar? cs).map fun p => (⟨.scalar p.1.1, p.1.2⟩, p.2)

/-- The number of levels that arrays and inline tables may nest. -/
def maxNesting : Nat := 80

/-- A value in front of a text. -/
def readValue? (cs : List Char) : Reading Written := readValueWithin? maxNesting cs

end SessionHost.Toml
