import SessionHost.Json.Node
import SessionHost.Proofs.Json.Tokens

/-!
# The grammar of documents

Which characters spell a document is said here as RFC 8259 says it, without the machine that reads
them: white space stands between any two tokens, and items and members stand in the order of the
document.  Everything that the grammar spells is read, at any depth.

Main definitions:

- `Spells`: characters spell a document, with nothing around them.
- `Node.Spelled`: a text spells a document.

Main results:

- Theorem `Spells.reads`: the tokens of what is spelled are built up to the document.
- Theorem `Node.Spelled.ofText?`: a text that spells a document is read as this document.
-/

namespace SessionHost.Json

/-! ## What characters spell -/

/-- A document inside of another one, with the characters around it. -/
structure Item where
  before : List Char
  node : Node
  core : List Char
  after : List Char

/-- The characters of an item. -/
def Item.chars (i : Item) : List Char := i.before ++ (i.core ++ i.after)

/-- There is nothing but white space around the item. -/
structure Item.Spaced (i : Item) : Prop where
  before : Gap i.before
  after : Gap i.after

/-- A member of an object: its name, with the characters around it, and its value. -/
structure Member where
  before : List Char
  key : Option String
  name : List Char
  after : List Char
  value : Item

/-- The characters of a member. -/
def Member.chars (m : Member) : List Char :=
  m.before ++ (m.name ++ (m.after ++ ':' :: m.value.chars))

/-- The name is a string, and there is nothing but white space around it and the value. -/
structure Member.Spaced (m : Member) : Prop where
  before : Gap m.before
  name : StringSpelled m.key m.name
  after : Gap m.after
  value : m.value.Spaced

/-- The member as the document keeps it. -/
def Member.entry (m : Member) : Option String × Node := (m.key, m.value.node)

/-- Characters with commas between them. -/
def commaSeparated : List (List Char) → List Char
  | [] => []
  | [cs] => cs
  | cs :: ds :: rest => cs ++ ',' :: commaSeparated (ds :: rest)

/-- Characters spell a document. -/
inductive Spells : Node → List Char → Prop where
  | null : Spells .null "null".toList
  | bool {b : Bool} : Spells (.bool b) (if b then "true".toList else "false".toList)
  | number {n : Numeral} {cs : List Char} (h : n.Spelled cs) : Spells (.number n) cs
  | string {text : Option String} {cs : List Char} (h : StringSpelled text cs) :
      Spells (.string text) cs
  | emptyArray {gap : List Char} (hgap : Gap gap) : Spells (.array []) ('[' :: (gap ++ [']']))
  | array {first : Item} {more : List Item} (hspaced : ∀ i ∈ first :: more, i.Spaced)
      (h : ∀ i ∈ first :: more, Spells i.node i.core) :
      Spells (.array ((first :: more).map Item.node))
        ('[' :: (commaSeparated ((first :: more).map Item.chars) ++ [']']))
  | emptyObject {gap : List Char} (hgap : Gap gap) : Spells (.object []) ('{' :: (gap ++ ['}']))
  | object {first : Member} {more : List Member} (hspaced : ∀ m ∈ first :: more, m.Spaced)
      (h : ∀ m ∈ first :: more, Spells m.value.node m.value.core) :
      Spells (.object ((first :: more).map Member.entry))
        ('{' :: (commaSeparated ((first :: more).map Member.chars) ++ ['}']))

/-- A text spells a document, with white space around it. -/
def Node.Spelled (node : Node) (text : String) : Prop :=
  ∃ i : Item, i.node = node ∧ i.Spaced ∧ Spells i.node i.core ∧ text.toList = i.chars

/-! ## Reading -/

/-- Characters are cut into tokens, and the tokens are built up to a document.  An array's first
item is not taken for its end. -/
structure Reads (node : Node) (cs : List Char) (tokens : List Token) : Prop where
  lexes : ∀ out rest, Stops rest →
    Lexer.run out .between (cs ++ rest) = Lexer.run (tokens.reverse ++ out) .between rest
  first : ∀ stack rest, Builder.run (.reading stack .firstItem) (tokens ++ rest) =
    Builder.run (.reading stack .value) (tokens ++ rest)
  builds : ∀ stack rest, Builder.run (.reading stack .value) (tokens ++ rest) =
    (Builder.attach node stack).bind fun next => next.run rest

/-- An item is read with the white space around it. -/
theorem Reads.item {i : Item} {tokens : List Token} (h : Reads i.node i.core tokens)
    (hspaced : i.Spaced) (out : List Token) {rest : List Char} (hrest : Stops rest) :
    Lexer.run out .between (i.chars ++ rest) = Lexer.run (tokens.reverse ++ out) .between rest := by
  rw [Item.chars, List.append_assoc, Lexer.run_gap hspaced.before, List.append_assoc,
    h.lexes out _ (hspaced.after.stops hrest), Lexer.run_gap hspaced.after]

/-- Items are read one after the other, up to the end of the array. -/
theorem reads_items {first : Item} {more : List Item}
    (h : ∀ i ∈ first :: more, i.Spaced ∧ ∃ tokens, Reads i.node i.core tokens) :
    ∃ tokens,
      (∀ out rest, Stops rest → Lexer.run out .between
          (commaSeparated ((first :: more).map Item.chars) ++ rest) =
        Lexer.run (tokens.reverse ++ out) .between rest) ∧
      (∀ stack rest, Builder.run (.reading stack .firstItem) (tokens ++ rest) =
        Builder.run (.reading stack .value) (tokens ++ rest)) ∧
      ∀ items stack rest,
        Builder.run (.reading (.array items :: stack) .value) (tokens ++ .closeArray :: rest) =
          (Builder.attach (.array (items.reverse ++ (first :: more).map Item.node)) stack).bind
            fun next => next.run rest := by
  induction more generalizing first with
  | nil =>
    obtain ⟨hspaced, tokens, hfirst⟩ := h first List.mem_cons_self
    refine ⟨tokens, fun out rest => hfirst.item hspaced out, hfirst.first, ?_⟩
    intro items stack rest
    rw [hfirst.builds, List.map_singleton, ← List.reverse_cons]
    rfl
  | cons second tail ih =>
    obtain ⟨hspaced, tokens, hfirst⟩ := h first List.mem_cons_self
    obtain ⟨others, hlexes, -, hbuilds⟩ := ih fun i hi => h i (List.mem_cons_of_mem _ hi)
    refine ⟨tokens ++ .comma :: others, ?_, ?_, ?_⟩
    · intro out rest hrest
      rw [List.map_cons, List.map_cons, commaSeparated, List.append_assoc, List.cons_append,
        hfirst.item hspaced out (stops_of_punctuation rfl _), run_punctuation rfl, ← List.map_cons,
        hlexes _ rest hrest]
      simp
    · intro stack rest
      rw [List.append_assoc]
      exact hfirst.first stack _
    · intro items stack rest
      have hbehind := hbuilds (first.node :: items) stack rest
      rw [List.reverse_cons, List.append_assoc, List.singleton_append, ← List.map_cons] at hbehind
      rw [List.append_assoc, hfirst.builds, ← hbehind]
      rfl

/-- A member is read as its name, a colon and its value. -/
theorem Reads.member {m : Member} {tokens : List Token}
    (h : Reads m.value.node m.value.core tokens) (hspaced : m.Spaced) (out : List Token)
    {rest : List Char} (hrest : Stops rest) :
    Lexer.run out .between (m.chars ++ rest) =
      Lexer.run (tokens.reverse ++ .colon :: .string m.key :: out) .between rest := by
  rw [Member.chars, List.append_assoc, Lexer.run_gap hspaced.before, List.append_assoc,
    hspaced.name.run, List.append_assoc, Lexer.run_gap hspaced.after, List.cons_append,
    run_punctuation rfl, h.item hspaced.value _ hrest]

/-- Members are read one after the other, up to the end of the object. -/
theorem reads_members {first : Member} {more : List Member}
    (h : ∀ m ∈ first :: more, m.Spaced ∧ ∃ tokens, Reads m.value.node m.value.core tokens) :
    ∃ tokens,
      (∀ out rest, Stops rest → Lexer.run out .between
          (commaSeparated ((first :: more).map Member.chars) ++ rest) =
        Lexer.run (tokens.reverse ++ out) .between rest) ∧
      (∀ stack rest, Builder.run (.reading stack .firstKey) (tokens ++ rest) =
        Builder.run (.reading stack .key) (tokens ++ rest)) ∧
      ∀ members stack rest,
        Builder.run (.reading (.object members :: stack) .key) (tokens ++ .closeObject :: rest) =
          (Builder.attach (.object (members.reverse ++ (first :: more).map Member.entry))
            stack).bind fun next => next.run rest := by
  induction more generalizing first with
  | nil =>
    obtain ⟨hspaced, tokens, hfirst⟩ := h first List.mem_cons_self
    refine ⟨.string first.key :: .colon :: tokens, ?_, fun stack rest => rfl, ?_⟩
    · intro out rest hrest
      rw [List.map_singleton, commaSeparated, hfirst.member hspaced out hrest]
      simp
    · intro members stack rest
      rw [List.map_singleton, ← List.reverse_cons]
      exact hfirst.builds _ _
  | cons second tail ih =>
    obtain ⟨hspaced, tokens, hfirst⟩ := h first List.mem_cons_self
    obtain ⟨others, hlexes, -, hbuilds⟩ := ih fun m hm => h m (List.mem_cons_of_mem _ hm)
    refine ⟨.string first.key :: .colon :: (tokens ++ .comma :: others), ?_, fun stack rest => rfl,
      ?_⟩
    · intro out rest hrest
      rw [List.map_cons, List.map_cons, commaSeparated, List.append_assoc, List.cons_append,
        hfirst.member hspaced out (stops_of_punctuation rfl _), run_punctuation rfl,
        ← List.map_cons, hlexes _ rest hrest]
      simp
    · intro members stack rest
      have hbehind := hbuilds (first.entry :: members) stack rest
      rw [List.reverse_cons, List.append_assoc, List.singleton_append, ← List.map_cons] at hbehind
      have hvalue := hfirst.builds (.member members first.key :: stack)
        (.comma :: others ++ .closeObject :: rest)
      rw [← hbehind, List.cons_append, List.cons_append, List.append_assoc]
      exact hvalue

/-- What the grammar spells is read. -/
theorem Spells.reads {node : Node} {cs : List Char} (h : Spells node cs) :
    ∃ tokens, Reads node cs tokens := by
  induction h with
  | null =>
    exact ⟨[.null], fun out rest hrest => Lexer.run_inWord "null".toList.reverse rfl hrest,
      fun stack rest => rfl, fun stack rest => rfl⟩
  | @bool b =>
    refine ⟨[.bool b], fun out rest hrest => ?_, fun stack rest => rfl, fun stack rest => rfl⟩
    cases b with
    | true => exact Lexer.run_inWord "true".toList.reverse rfl hrest
    | false => exact Lexer.run_inWord "false".toList.reverse rfl hrest
  | @number n cs h =>
    exact ⟨[.number n], fun out rest hrest => h.run out hrest, fun stack rest => rfl,
      fun stack rest => rfl⟩
  | @string text cs h =>
    exact ⟨[.string text], fun out rest hrest => h.run out rest, fun stack rest => rfl,
      fun stack rest => rfl⟩
  | @emptyArray gap hgap =>
    refine ⟨[.openArray, .closeArray], fun out rest hrest => ?_, fun stack rest => rfl,
      fun stack rest => rfl⟩
    rw [List.cons_append, run_punctuation rfl, List.append_assoc, Lexer.run_gap hgap]
    exact run_punctuation rfl _ rest
  | @array first more hspaced h ih =>
    obtain ⟨tokens, hlexes, hfirst, hbuilds⟩ := reads_items fun i hi => ⟨hspaced i hi, ih i hi⟩
    refine ⟨.openArray :: (tokens ++ [.closeArray]), fun out rest hrest => ?_,
      fun stack rest => rfl, fun stack rest => ?_⟩
    · rw [List.cons_append, run_punctuation rfl, List.append_assoc, List.singleton_append,
        hlexes _ _ (stops_of_punctuation rfl _), run_punctuation rfl]
      simp
    · rw [List.cons_append, List.append_assoc]
      exact (hfirst _ _).trans (hbuilds [] stack rest)
  | @emptyObject gap hgap =>
    refine ⟨[.openObject, .closeObject], fun out rest hrest => ?_, fun stack rest => rfl,
      fun stack rest => rfl⟩
    rw [List.cons_append, run_punctuation rfl, List.append_assoc, Lexer.run_gap hgap]
    exact run_punctuation rfl _ rest
  | @object first more hspaced h ih =>
    obtain ⟨tokens, hlexes, hfirst, hbuilds⟩ := reads_members fun m hm => ⟨hspaced m hm, ih m hm⟩
    refine ⟨.openObject :: (tokens ++ [.closeObject]), fun out rest hrest => ?_,
      fun stack rest => rfl, fun stack rest => ?_⟩
    · rw [List.cons_append, run_punctuation rfl, List.append_assoc, List.singleton_append,
        hlexes _ _ (stops_of_punctuation rfl _), run_punctuation rfl]
      simp
    · rw [List.cons_append, List.append_assoc]
      exact (hfirst _ _).trans (hbuilds [] stack rest)

/-- **Reading is complete.**  A text that spells a document is read as this document, whatever
white space and escapes it is written with and however deep it nests. -/
theorem Node.Spelled.ofText? {node : Node} {text : String} (h : node.Spelled text) :
    Node.ofText? text = some node := by
  obtain ⟨i, rfl, hspaced, hspells, htext⟩ := h
  obtain ⟨tokens, hreads⟩ := hspells.reads
  have hlexed : Token.ofChars? text.toList = some tokens := by
    have hrun := hreads.item hspaced [] stops_nil
    rw [List.append_nil, List.append_nil] at hrun
    rw [Token.ofChars?, htext, hrun]
    simp [Lexer.run, Lexer.finish]
  have hbuilt := hreads.builds [] []
  rw [List.append_nil] at hbuilt
  rw [Node.ofText?, hlexed, Option.bind_some, Node.ofTokens?, hbuilt]
  rfl

end SessionHost.Json
