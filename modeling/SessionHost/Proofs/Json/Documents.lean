import SessionHost.Json.Value
import SessionHost.Proofs.Json.Grammar
import SessionHost.Proofs.Text.Spelling

/-!
# Written values are read back

The compact text of a value spells its document, and the document's value is the one that was
written.

Main definitions:

- `Value.Fits`: a value that can be written and read back.
- `Value.node`: the document of a value.

Main results:

- Theorem `stringSpelled_quote`: the quoted form of a text spells a string with this text.
- Theorem `Value.Fits.spells`: the text of a value spells its document.
- Theorem `Value.Fits.ofBytes?`: a value is read back from the bytes of its text.
-/

namespace SessionHost.Json

/-! ## Values that can be written -/

/-- A value that is read back as it was written: it nests at most `depth` levels deep, its numbers
are whole ones of 64 bits, and the keys of its objects ascend. -/
inductive Value.Fits : Nat → Value → Prop where
  | null {depth : Nat} : Fits depth .null
  | bool {depth : Nat} {b : Bool} : Fits depth (.bool b)
  | int {depth : Nat} {i : Int} (hlow : -9223372036854775808 ≤ i)
      (hhigh : i ≤ 18446744073709551615) : Fits depth (.number (.int i))
  | string {depth : Nat} {s : String} : Fits depth (.string s)
  | array {depth : Nat} {items : List Value} (h : ∀ v ∈ items, Fits depth v) :
      Fits (depth + 1) (.array items)
  | object {depth : Nat} {members : List (String × Value)}
      (hkeys : members.Pairwise fun m n => m.1 < n.1) (h : ∀ m ∈ members, Fits depth m.2) :
      Fits (depth + 1) (.object members)

/-- The numeral of a number; none is written for a double. -/
def Number.numeral : Number → Numeral
  | .int i => numeralOf i
  | .real _ => ⟨false, [], [], none⟩

mutual

/-- The document of a value. -/
def Value.node : Value → Node
  | .null => .null
  | .bool b => .bool b
  | .number n => .number n.numeral
  | .string s => .string (some s)
  | .array items => .array (Value.itemNodes items)
  | .object members => .object (Value.memberNodes members)

/-- The documents of an array's items. -/
def Value.itemNodes : List Value → List Node
  | [] => []
  | v :: rest => v.node :: Value.itemNodes rest

/-- The documents of an object's members, under their keys. -/
def Value.memberNodes : List (String × Value) → List (Option String × Node)
  | [] => []
  | (k, v) :: rest => (some k, v.node) :: Value.memberNodes rest

end

/-! ## Strings -/

/-- How a character of a string is read back: as a UTF-16 unit when it is written as one. -/
def partOf (c : Char) : Part :=
  if c.toNat < 0x20 ∧ c ∉ ['\x08', '\x0c', '\n', '\r', '\t'] then .unit c.toNat else .char c

/-- A small number is written as a UTF-16 unit. -/
theorem spelled_hexDigits {n : Nat} (h : n < 0x20) :
    (Part.unit n).Spelled ('\\' :: 'u' :: Text.hexDigits 4 n) := by
  have hdigits : Text.hexDigits 4 n =
      [Nat.digitChar 0, Nat.digitChar 0, Nat.digitChar (n / 16), Nat.digitChar (n % 16)] := by
    have hzero : n / 16 / 16 = 0 := by omega
    have hsmall : n / 16 % 16 = n / 16 := by omega
    simp [Text.hexDigits, hzero, hsmall]
  have hdigit {d : Nat} (hd : d < 16) : HexDigit (Nat.digitChar d) d := ⟨hd, .inl rfl⟩
  have hvalue : ((0 * 16 + 0) * 16 + n / 16) * 16 + n % 16 = n := by omega
  have hspelled := Part.Spelled.unit (hdigit (d := 0) (by omega)) (hdigit (d := 0) (by omega))
    (hdigit (d := n / 16) (by omega)) (hdigit (d := n % 16) (by omega))
  rwa [hvalue, ← hdigits] at hspelled

/-- A character is written as one part. -/
theorem spelled_escapeChar (c : Char) : (partOf c).Spelled (escapeChar c) := by
  by_cases hshort : c ∈ ['"', '\\', '\x08', '\x0c', '\n', '\r', '\t']
  · simp only [List.mem_cons, List.not_mem_nil, or_false] at hshort
    obtain rfl | rfl | rfl | rfl | rfl | rfl | rfl := hshort <;> exact .short (by decide)
  simp only [List.mem_cons, List.not_mem_nil, or_false, not_or] at hshort
  obtain ⟨hquote, hslash, hb, hf, hn, hr, ht⟩ := hshort
  rw [escapeChar, if_neg hquote, if_neg hslash, if_neg hb, if_neg hf, if_neg hn, if_neg hr,
    if_neg ht]
  by_cases hsmall : c.toNat < 0x20
  · have hpart : partOf c = .unit c.toNat := if_pos ⟨hsmall, by simp [hb, hf, hn, hr, ht]⟩
    rw [if_pos hsmall, hpart]
    exact spelled_hexDigits hsmall
  · have hpart : partOf c = .char c := if_neg fun h => hsmall h.1
    rw [if_neg hsmall, hpart]
    exact .plain (Nat.le_of_not_lt hsmall) hquote hslash

/-- A written character gives its own units. -/
theorem units_partOf (c : Char) : (partOf c).units = Text.utf16Units c := by
  rw [partOf]
  split
  · rename_i h
    have hsmall : c.toNat < 0x10000 := by omega
    rw [Part.units, Text.utf16Units]
    exact (if_pos hsmall).symm
  · rfl

/-- The escaped characters of a text spell its parts. -/
theorem partsSpelled_escapeChar (cs : List Char) :
    PartsSpelled (cs.map partOf) (cs.flatMap escapeChar) := by
  induction cs with
  | nil => exact .nil
  | cons c rest ih => exact .cons (spelled_escapeChar c) ih

/-- The quoted form of a text spells a string with this text. -/
theorem stringSpelled_quote (s : String) : StringSpelled (some s) (quote s) := by
  refine ⟨s.toList.map partOf, s.toList.flatMap escapeChar, rfl, partsSpelled_escapeChar _, ?_⟩
  intro t
  have hunits : (s.toList.map partOf).flatMap Part.units = s.toList.flatMap Text.utf16Units := by
    rw [List.flatMap_map]
    exact congrArg (fun f => s.toList.flatMap f) (funext units_partOf)
  rw [hunits, Text.flatMap_utf16Units_inj, String.toList_inj, Option.some.injEq]

/-! ## From values to texts -/

/-- A value as an item, with no white space. -/
def Value.item (v : Value) : Item := ⟨[], v.node, v.chars, []⟩

/-- A member, with no white space. -/
def Value.member (m : String × Value) : Member := ⟨[], some m.1, quote m.1, [], m.2.item⟩

/-- A written value has no gaps around it. -/
theorem Value.item_spaced (v : Value) : v.item.Spaced :=
  ⟨gap_nil, gap_nil⟩

theorem Value.item_chars (v : Value) : v.item.chars = v.chars := List.append_nil _

/-- A written member has no gaps around its name and its value. -/
theorem Value.member_spaced (m : String × Value) : (Value.member m).Spaced where
  before := gap_nil
  name := stringSpelled_quote m.1
  after := gap_nil
  value := m.2.item_spaced

/-- The items of a written array, as items of the grammar. -/
theorem Value.itemNodes_eq (items : List Value) :
    Value.itemNodes items = (items.map Value.item).map Item.node := by
  induction items with
  | nil => rfl
  | cons v rest ih =>
    rw [Value.itemNodes, ih]
    rfl

/-- The members of a written object, as members of the grammar. -/
theorem Value.memberNodes_eq (members : List (String × Value)) :
    Value.memberNodes members = (members.map Value.member).map Member.entry := by
  induction members with
  | nil => rfl
  | cons m rest ih =>
    rw [Value.memberNodes, ih]
    rfl

/-- Items are written with commas between them. -/
theorem Value.itemChars_eq (items : List Value) :
    Value.itemChars items = commaSeparated ((items.map Value.item).map Item.chars) := by
  induction items with
  | nil => rfl
  | cons v rest ih =>
    cases rest with
    | nil => exact v.item_chars.symm
    | cons w more =>
      rw [Value.itemChars, ih]
      simp only [List.map_cons, commaSeparated, Value.item_chars]

/-- Members are written with commas between them. -/
theorem Value.memberChars_eq (members : List (String × Value)) :
    Value.memberChars members = commaSeparated ((members.map Value.member).map Member.chars) := by
  induction members with
  | nil => rfl
  | cons m rest ih =>
    have hm : (Value.member m).chars = quote m.1 ++ ':' :: m.2.chars := by
      rw [Member.chars, Value.member, Value.item_chars]
      rfl
    cases rest with
    | nil => exact hm.symm
    | cons n more =>
      rw [Value.memberChars, ih]
      simp only [List.map_cons, commaSeparated, hm, List.append_assoc, List.cons_append]

/-- The text of a value that fits spells its document. -/
theorem Value.Fits.spells {v : Value} {depth : Nat} (h : v.Fits depth) : Spells v.node v.chars := by
  induction h with
  | null => exact .null
  | @bool depth b => cases b <;> exact .bool
  | int hlow hhigh => exact .number (spelled_signedDecimal _)
  | string => exact .string (stringSpelled_quote _)
  | @array depth items h ih =>
    rw [node, chars, Value.itemNodes_eq, Value.itemChars_eq]
    cases items with
    | nil => exact .emptyArray gap_nil
    | cons v more =>
      have hspaced : ∀ i ∈ (v :: more).map Value.item, i.Spaced :=
        List.forall_mem_map.2 fun w _ => w.item_spaced
      have hspells : ∀ i ∈ (v :: more).map Value.item, Spells i.node i.core :=
        List.forall_mem_map.2 ih
      exact .array hspaced hspells
  | @object depth members hkeys h ih =>
    rw [node, chars, Value.memberNodes_eq, Value.memberChars_eq]
    cases members with
    | nil => exact .emptyObject gap_nil
    | cons m more =>
      have hspaced : ∀ n ∈ (m :: more).map Value.member, n.Spaced :=
        List.forall_mem_map.2 fun n _ => Value.member_spaced n
      have hspells : ∀ n ∈ (m :: more).map Value.member, Spells n.value.node n.value.core :=
        List.forall_mem_map.2 ih
      exact .object hspaced hspells

/-! ## From documents to values -/

/-- A key beyond all others comes last. -/
theorem insertMember_eq_append {key : String} {v : Value} {members : List (String × Value)}
    (h : ∀ m ∈ members, m.1 < key) : insertMember key v members = members ++ [(key, v)] := by
  induction members with
  | nil => rfl
  | cons m rest ih =>
    have hm := h m List.mem_cons_self
    rw [insertMember, if_neg (String.lt_asymm hm), if_neg (String.ne_of_lt hm).symm,
      ih fun n hn => h n (List.mem_cons_of_mem _ hn), List.cons_append]

/-- Members whose keys ascend are an object as they stand. -/
theorem Value.ofMembers_of_ascending {members : List (String × Value)}
    (h : members.Pairwise fun m n => m.1 < n.1) : Value.ofMembers members = .object members := by
  rw [Value.ofMembers]
  congr 1
  induction members using List.reverseRecOn with
  | nil => rfl
  | append_singleton front m ih =>
    obtain ⟨hfront, -, hlast⟩ := List.pairwise_append.1 h
    rw [List.foldl_append, ih hfront]
    exact insertMember_eq_append fun n hn => hlast n hn m (List.mem_singleton_self m)

/-- Items are kept if each of them is. -/
theorem itemsWithin?_itemNodes {depth : Nat} {items : List Value}
    (h : ∀ v ∈ items, v.node.valueWithin? depth = some v) :
    Node.itemsWithin? depth (Value.itemNodes items) = some items := by
  induction items with
  | nil => rfl
  | cons v rest ih =>
    rw [Value.itemNodes, Node.itemsWithin?, h v List.mem_cons_self,
      ih fun w hw => h w (List.mem_cons_of_mem _ hw)]
    rfl

/-- Members are kept if each of their values is. -/
theorem membersWithin?_memberNodes {depth : Nat} {members : List (String × Value)}
    (h : ∀ m ∈ members, m.2.node.valueWithin? depth = some m.2) :
    Node.membersWithin? depth (Value.memberNodes members) = some members := by
  induction members with
  | nil => rfl
  | cons m rest ih =>
    obtain ⟨key, v⟩ := m
    have hv : v.node.valueWithin? depth = some v := h (key, v) List.mem_cons_self
    have hrest := ih fun n hn => h n (List.mem_cons_of_mem _ hn)
    simp only [Value.memberNodes, Node.membersWithin?, hv, hrest, Option.map_some]

/-- The document of a value that fits has this value. -/
theorem Value.Fits.valueWithin? {v : Value} {depth : Nat} (h : v.Fits depth) :
    v.node.valueWithin? depth = some v := by
  induction h with
  | null => rfl
  | bool => rfl
  | int hlow hhigh =>
    rw [node, Number.numeral, Node.valueWithin?, value?_numeralOf hlow hhigh]
    rfl
  | string => rfl
  | @array depth items h ih =>
    rw [node, Node.valueWithin?, if_neg (Nat.succ_ne_zero depth), Nat.add_sub_cancel,
      itemsWithin?_itemNodes ih, Option.map_some]
  | @object depth members hkeys h ih =>
    rw [node, Node.valueWithin?, if_neg (Nat.succ_ne_zero depth), Nat.add_sub_cancel,
      membersWithin?_memberNodes ih, Option.map_some, ofMembers_of_ascending hkeys]

/-- A value that fits is read back from its text. -/
theorem Value.Fits.ofText? {v : Value} (h : v.Fits maxDepth) : Value.ofText? v.text = some v := by
  have hspelled : v.node.Spelled v.text := by
    refine ⟨v.item, rfl, v.item_spaced, h.spells, ?_⟩
    rw [Value.text, String.toList_ofList, v.item_chars]
  rw [Value.ofText?, hspelled.ofText?, Option.bind_some, Node.value?, h.valueWithin?]

/-- A value that fits is read back from the bytes of its text. -/
theorem Value.Fits.ofBytes? {v : Value} (h : v.Fits maxDepth) :
    Value.ofBytes? (Text.utf8Bytes v.text) = some v := by
  rw [Value.ofBytes?, Text.ofUtf8?_utf8Bytes, Option.bind_some, h.ofText?]

end SessionHost.Json
