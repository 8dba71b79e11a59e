import SessionHost.Proofs.Toml.Paths
import SessionHost.Toml.Inline

/-!
# Written values are read back

What is kept of a value when it is read is a text that is read as the same value, and kept as the
same text, in front of anything in which a value cannot run on.  This holds of strings and scalars,
of arrays, where space is kept with plain line ends, and of inline tables, whose keys are written
again in the order of their tree.

Main definitions:

- `Rereads`: a text that is read as a value and kept as it is.
- `IsItemReader`: a reader that keeps such texts.
- `IsInlineText`: the text of a value in an inline table, with the space around it.

Main results:

- Theorem `readItems?_reread`: the items of an array.
- Theorem `readMembers?_reread`: the keys of an inline table.
- Theorem `isItemReader_readValue?`: every value.
-/

namespace SessionHost.Toml

variable {cs rest : List Char}

/-- A character that a value may begin with. -/
def isValueStart (c : Char) : Bool :=
  c = '"' || c = '\'' || c = '[' || c = '\x7b' || isScalarChar c

/-- A character behind which an item of an array, or a value of an inline table, has ended. -/
def isCloser (c : Char) : Bool := c = ',' || c = ']' || c = '\x7d'

/-- A text that is read as a value, and kept as it is. -/
structure Rereads (item? : List Char → Reading Written) (text : List Char) (v : Value) : Prop where
  start : ∃ c more, text = c :: more ∧ isValueStart c = true
  read : ∀ rest, IsValueEnd rest → item? (text ++ rest) = some (⟨v, text⟩, rest)

/-- A reader that keeps texts which it reads again. -/
structure IsItemReader (item? : List Char → Reading Written) : Prop where
  start : ∀ {cs : List Char} {p}, item? cs = some p →
    ∃ c more, cs = c :: more ∧ isValueStart c = true
  reread : ∀ {cs : List Char} {w : Written} {rest : List Char}, item? cs = some (w, rest) →
    Rereads item? w.text w.value

/-- A character of a scalar ends no gap, begins no comment and closes nothing. -/
theorem isSpaceChar_of_isScalarChar {c : Char} (h : isScalarChar c = true) :
    isSpaceChar c = false ∧ c ≠ '#' ∧ isCloser c = false := by
  refine ⟨?_, ?_, ?_⟩
  · cases hspace : isSpaceChar c with
    | false => rfl
    | true =>
      simp only [isSpaceChar, isBlankChar, Bool.or_eq_true, decide_eq_true_eq] at hspace
      rcases hspace with ((rfl | rfl) | rfl) | rfl <;> exact absurd h (by decide)
  · rintro rfl
    exact absurd h (by decide)
  · cases hclose : isCloser c with
    | false => rfl
    | true =>
      simp only [isCloser, Bool.or_eq_true, decide_eq_true_eq] at hclose
      rcases hclose with (rfl | rfl) | rfl <;> exact absurd h (by decide)

/-- What begins a value ends no gap, begins no comment and closes nothing. -/
theorem isSpaceChar_of_isValueStart {c : Char} (h : isValueStart c = true) :
    isSpaceChar c = false ∧ c ≠ '#' ∧ isCloser c = false := by
  simp only [isValueStart, Bool.or_eq_true, decide_eq_true_eq] at h
  rcases h with (((rfl | rfl) | rfl) | rfl) | hscalar
  · decide
  · decide
  · decide
  · decide
  · exact isSpaceChar_of_isScalarChar hscalar

/-- A gap ends where a value begins. -/
theorem isGapEnd_of_isValueStart {c : Char} (h : isValueStart c = true) : IsGapEnd (c :: cs) := by
  rintro d ⟨⟩
  exact ⟨(isSpaceChar_of_isValueStart h).1, (isSpaceChar_of_isValueStart h).2.1⟩

/-- A gap ends at a comma or a closing bracket. -/
theorem isGapEnd_of_isCloser {c : Char} (h : isCloser c = true) : IsGapEnd (c :: cs) := by
  rintro d ⟨⟩
  simp only [isCloser, Bool.or_eq_true, decide_eq_true_eq] at h
  rcases h with (rfl | rfl) | rfl <;> decide

/-- What begins a gap neither goes on with a scalar nor begins a string. -/
theorem isSpaceChar_or_hash {c : Char} (h : isSpaceChar c = true ∨ c = '#') :
    isScalarChar c = false ∧ c ≠ '"' ∧ c ≠ '\'' ∧ c.isDigit = false := by
  rcases h with h | rfl
  · simp only [isSpaceChar, isBlankChar, Bool.or_eq_true, decide_eq_true_eq] at h
    rcases h with ((rfl | rfl) | rfl) | rfl <;> decide
  · decide

/-- Space, a comment, or the end of an item: nothing in which a value could run on. -/
theorem isValueEnd_of_head (hne : cs ≠ [])
    (h : ∀ c ∈ cs.head?, isSpaceChar c = true ∨ c = '#' ∨ isCloser c = true)
    (hnext : cs.head? = some ' ' →
      ∀ c ∈ cs.tail.head?, isSpaceChar c = true ∨ c = '#' ∨ isCloser c = true) :
    IsValueEnd cs := by
  obtain ⟨c, more, rfl⟩ := List.exists_cons_of_ne_nil hne
  have hplain {d : Char} (hd : isSpaceChar d = true ∨ d = '#' ∨ isCloser d = true) :
      isScalarChar d = false ∧ d ≠ '"' ∧ d ≠ '\'' ∧ d.isDigit = false := by
    rcases hd with hd | hd | hd
    · exact isSpaceChar_or_hash (.inl hd)
    · exact isSpaceChar_or_hash (.inr hd)
    · simp only [isCloser, Bool.or_eq_true, decide_eq_true_eq] at hd
      rcases hd with (rfl | rfl) | rfl <;> decide
  have hc := hplain (h c rfl)
  refine ⟨?_, ⟨?_, ?_⟩, ?_⟩
  · rintro d ⟨⟩
    exact hc.1
  · simpa using hc.2.1
  · simpa using hc.2.2.1
  · rintro d last heq
    cases heq
    exact (hplain (hnext rfl d rfl)).2.2.2

/-- A gap begins with white space or a comment. -/
theorem Gap.head {gap : List Char} (h : Gap gap) :
    ∀ c ∈ gap.head?, isSpaceChar c = true ∨ c = '#' := by
  cases h with
  | nil => simp
  | space hc _ =>
    rintro c ⟨⟩
    rcases hc with hc | rfl
    · exact .inl (by simp [isSpaceChar, hc])
    · exact .inl (by decide)
  | comment _ _ =>
    rintro c ⟨⟩
    exact .inr rfl

/-- A value ends before a gap with a closing character behind it. -/
theorem Gap.isValueEnd {gap : List Char} (h : Gap gap) {c : Char} (hc : isCloser c = true)
    (rest : List Char) : IsValueEnd (gap ++ c :: rest) := by
  have hstart {g : List Char} (hg : Gap g) :
      ∀ d ∈ (g ++ c :: rest).head?, isSpaceChar d = true ∨ d = '#' ∨ isCloser d = true := by
    intro d hd
    cases hcons : g with
    | nil =>
      rw [hcons] at hd
      cases hd
      exact .inr (.inr hc)
    | cons e more =>
      rw [hcons] at hd
      rcases hg.head d (by rw [hcons]; exact hd) with hspace | hhash
      · exact .inl hspace
      · exact .inr (.inl hhash)
  refine isValueEnd_of_head (by simp) (hstart h) fun hspace => ?_
  cases h with
  | nil =>
    obtain rfl : c = ' ' := by simpa using hspace
    exact absurd hc (by decide)
  | space _ hg => exact hstart hg
  | comment _ _ => simp at hspace

/-- Two gaps make one. -/
theorem Gap.append {g₁ g₂ : List Char} (h₁ : Gap g₁) (h₂ : Gap g₂) : Gap (g₁ ++ g₂) := by
  induction h₁ with
  | nil => exact h₂
  | space hc _ ih => exact .space hc ih
  | comment hbody _ ih =>
    rw [List.append_assoc]
    exact .comment hbody ih

/-- White space on a line is a gap. -/
theorem gap_of_blank {blank : List Char} (h : ∀ c ∈ blank, isBlankChar c = true) : Gap blank := by
  induction blank with
  | nil => exact .nil
  | cons c more ih =>
    exact .space (.inl (h c List.mem_cons_self)) (ih fun d hd => h d (List.mem_cons_of_mem _ hd))

/-! ## Arrays -/

section Arrays

variable {item? : List Char → Reading Written} {n : Nat} {gap after start behind more : List Char}
  {item : Written}

/-- An array ends at its bracket. -/
theorem readItems?_close (hgap : readGap? cs (n + 1) = some (gap, ']' :: rest)) :
    readItems? item? cs (n + 1) = some (([], gap ++ [']']), rest) := by
  rw [readItems?, hgap]
  rfl

/-- An item with a comma behind it comes before the other items. -/
theorem readItems?_comma (hgap : readGap? cs (n + 1) = some (gap, start))
    (hstart : start.head? ≠ some ']') (hitem : item? start = some (item, behind))
    (hafter : readGap? behind (n + 1) = some (after, ',' :: more)) :
    readItems? item? cs (n + 1) = (readItems? item? more n).map fun p =>
      ((item.value :: p.1.1, gap ++ item.text ++ after ++ ',' :: p.1.2), p.2) := by
  rw [readItems?, hgap]
  split
  · next heq => cases heq
  · next heq =>
    cases heq
    exact absurd rfl hstart
  · next heq =>
    cases heq
    rw [hitem]
    simp only
    rw [hafter]
    rfl

/-- The last item of an array needs no comma. -/
theorem readItems?_last (hgap : readGap? cs (n + 1) = some (gap, start))
    (hstart : start.head? ≠ some ']') (hitem : item? start = some (item, behind))
    (hafter : readGap? behind (n + 1) = some (after, ']' :: more)) :
    readItems? item? cs (n + 1) =
      some (([item.value], gap ++ item.text ++ after ++ [']']), more) := by
  rw [readItems?, hgap]
  split
  · next heq => cases heq
  · next heq =>
    cases heq
    exact absurd rfl hstart
  · next heq =>
    cases heq
    rw [hitem]
    simp only
    rw [hafter]
    rfl

/-- The items of an array are read again from the text that is kept of them. -/
theorem readItems?_reread (hread : IsItemReader item?) {vs : List Value} {text : List Char}
    (h : readItems? item? cs n = some ((vs, text), rest)) :
    ∀ other m, text.length ≤ m → readItems? item? (text ++ other) m = some ((vs, text), other) := by
  induction n generalizing cs vs text with
  | zero => cases h
  | succ n ih =>
    intro other m hm
    rw [readItems?] at h
    split at h
    · cases h
    · next gap more hgap =>
      cases h
      have hkept := readGap?_sound hgap (List.cons_ne_nil _ _) (by rintro c ⟨⟩; decide)
      obtain ⟨k, rfl⟩ : ∃ k, m = k + 1 := ⟨m - 1, by simp at hm; omega⟩
      rw [List.append_assoc, List.singleton_append]
      refine readItems?_close (readGap?_gap hkept (isGapEnd_of_isCloser rfl) ?_)
      simp at hm
      omega
    · next gap start hnoclose hgap =>
      split at h
      · cases h
      · next item behind hitem =>
        obtain ⟨c, last, rfl, hc⟩ := hread.start hitem
        have hspace := isSpaceChar_of_isValueStart hc
        have hkept := readGap?_sound hgap (List.cons_ne_nil _ _) (by
          rintro d ⟨⟩
          have := hspace.1
          simp only [isSpaceChar, Bool.or_eq_false_iff, decide_eq_false_iff_not] at this
          exact ⟨this.1.2, this.2⟩)
        have hagain := hread.reread hitem
        obtain ⟨c', last', htext, hc'⟩ := hagain.start
        have hopen : ∀ other : List Char, (item.text ++ other).head? ≠ some ']' := by
          intro other heq
          rw [htext] at heq
          cases heq
          exact absurd hc' (by decide)
        have hgapEnd : ∀ other : List Char, IsGapEnd (item.text ++ other) := by
          intro other
          rw [htext]
          exact isGapEnd_of_isValueStart hc'
        split at h
        · next after more hafter =>
          obtain ⟨⟨⟨vs', text'⟩, last''⟩, hmore, hpair⟩ := Option.map_eq_some_iff.1 h
          cases hpair
          have hafterKept := readGap?_sound hafter (List.cons_ne_nil _ _) (by rintro c ⟨⟩; decide)
          obtain ⟨k, rfl⟩ : ∃ k, m = k + 1 := ⟨m - 1, by simp at hm; omega⟩
          simp only [List.append_assoc, List.cons_append]
          simp only [List.length_append, List.length_cons] at hm
          rw [readItems?_comma (readGap?_gap hkept (hgapEnd _) (by omega)) (hopen _)
            (hagain.read _ (hafterKept.isValueEnd rfl _))
            (readGap?_gap hafterKept (isGapEnd_of_isCloser rfl) (by omega)),
            ih hmore other k (by omega)]
          simp
        · next after more hafter =>
          cases h
          have hafterKept := readGap?_sound hafter (List.cons_ne_nil _ _) (by rintro c ⟨⟩; decide)
          obtain ⟨k, rfl⟩ : ∃ k, m = k + 1 := ⟨m - 1, by simp at hm; omega⟩
          simp only [List.append_assoc, List.cons_append, List.nil_append]
          simp only [List.length_append, List.length_cons, List.length_nil] at hm
          rw [readItems?_last (readGap?_gap hkept (hgapEnd _) (by omega)) (hopen _)
            (hagain.read _ (hafterKept.isValueEnd rfl _))
            (readGap?_gap hafterKept (isGapEnd_of_isCloser rfl) (by omega))]
          simp
        · cases h

end Arrays

/-! ## Inline tables -/

/-- The text of a value in an inline table, with the space around it. -/
def IsInlineText (item? : List Char → Reading Written) (text : String) (v : Value) : Prop :=
  ∃ before value after, text.toList = before ++ (value ++ after) ∧ Gap before ∧ Gap after ∧
    Rereads item? value v

/-- A leaf of an inline table. -/
abbrev InlineLeaf (item? : List Char → Reading Written) (l : Leaf) : Prop :=
  l.Sound IsInnerKey (IsLeafKey Gap Gap) (IsInlineText item?) maxKeyParts ∧
    ∀ k ∈ (l.path ++ [l.key]).head?, k.behindDot = ""

/-- The keys of an inline table. -/
structure InlineForest (item? : List Char → Reading Written) (entries : Entries) : Prop where
  forest : Forest IsInnerKey (IsLeafKey Gap Gap) (IsInlineText item?) maxKeyParts entries
  root : RootKeys entries

/-- What is written for a leaf. -/
def leafText (l : Leaf) : List Char := (memberText l.member).toList

/-- The text of a leaf: its path with what stands around it, then its value. -/
theorem leafText_eq {l : Leaf} {lead trail : String} (h : l.key.around = some (lead, trail)) :
    leafText l = lead.toList ++ (partsText (partsOf "" "" (l.path ++ [l.key])) ++
      (trail.toList ++ '=' :: l.text.toList)) := by
  rw [leafText, memberText, String.toList_append, String.toList_append, Leaf.member,
    toList_pathText, h]
  simp

/-- The text of a path begins with a key. -/
theorem partsText_start {path : List Key} (hne : path ≠ []) (h : ∀ k ∈ path, k.Sound) :
    ∃ c more, partsText (partsOf "" "" path) = c :: more ∧ isKeyStart c = true := by
  obtain ⟨k, rest, rfl⟩ := List.exists_cons_of_ne_nil hne
  obtain ⟨c, more, hraw, hc⟩ := (h k List.mem_cons_self).text.start
  rw [partsText_partsOf "" "" hne]
  cases rest with
  | nil => exact ⟨c, more, by simp [pathText.inner, hraw], hc⟩
  | cons k' last =>
    rw [inner_cons]
    exact ⟨c, _, by simp [hraw]; rfl, hc⟩

/-- What begins a key ends a gap and closes nothing. -/
theorem isSpaceChar_of_isKeyStart {c : Char} (h : isKeyStart c = true) :
    isSpaceChar c = false ∧ c ≠ '#' ∧ c ≠ '[' ∧ c ≠ '\x7d' := by
  have hspace : isSpaceChar c = false := by
    cases hc : isSpaceChar c with
    | false => rfl
    | true =>
      simp only [isSpaceChar, isBlankChar, Bool.or_eq_true, decide_eq_true_eq] at hc
      rcases hc with ((rfl | rfl) | rfl) | rfl <;> exact absurd h (by decide)
  refine ⟨hspace, ?_, ?_, ?_⟩ <;> (rintro rfl; exact absurd h (by decide))

/-- A gap begins with white space on its line. -/
theorem Gap.dropBlank {gap : List Char} (h : Gap gap) :
    ∃ blank more, gap = blank ++ more ∧ (∀ c ∈ blank, isBlankChar c = true) ∧ Gap more ∧
      ∀ c ∈ more.head?, isBlankChar c = false := by
  induction h with
  | nil => exact ⟨[], [], rfl, by simp, .nil, by simp⟩
  | @space c g hc hg ih =>
    by_cases hblank : isBlankChar c = true
    · obtain ⟨blank, more, rfl, hall, hmore, hstop⟩ := ih
      exact ⟨c :: blank, more, rfl, by simpa [hblank] using hall, hmore, hstop⟩
    · refine ⟨[], c :: g, rfl, by simp, .space hc hg, ?_⟩
      rintro d ⟨⟩
      simpa using hblank
  | comment hbody hg ih =>
    refine ⟨[], _, rfl, by simp, .comment hbody hg, ?_⟩
    rintro d ⟨⟩
    decide

/-- Keys and the space behind them, up to what follows. -/
theorem readKeyPath?_partsOf {path : List Key} (hne : path ≠ []) (hlen : path.length ≤ maxKeyParts)
    (h : ∀ k ∈ path, k.Sound) {blank : List Char} (hblank : ∀ c ∈ blank, isBlankChar c = true)
    (hrest : IsPathEnd rest) :
    readKeyPath? (partsText (partsOf "" "" path) ++ (blank ++ rest)) =
      some (partsOf "" (String.ofList blank) path, rest) := by
  have htext : partsText (partsOf "" "" path) ++ (blank ++ rest) =
      partsText (partsOf "" (String.ofList blank) path) ++ rest := by
    rw [partsText_partsOf_blank "" (String.ofList blank) hne]
    simp
  rw [htext]
  exact readKeyParts?_partsText (partsOf_ne_nil hne _ _) (by simpa using hlen)
    (partsOf_sound h (by simp) (by simpa using hblank)) hrest

/-- A path ends before a gap with an equals sign behind it. -/
theorem isPathEnd_of_gap {gap : List Char} (h : Gap gap)
    (hstop : ∀ c ∈ gap.head?, isBlankChar c = false) (rest : List Char) :
    IsPathEnd (gap ++ '=' :: rest) := by
  intro c hc
  cases gap with
  | nil =>
    cases hc
    decide
  | cons d more =>
    cases hc
    have hblank := hstop c rfl
    rcases h.head c rfl with hspace | rfl
    · simp only [isSpaceChar, hblank, Bool.false_or, Bool.or_eq_true, decide_eq_true_eq] at hspace
      rcases hspace with rfl | rfl <;> decide
    · decide

section Inline

variable {item? : List Char → Reading Written} {n : Nat} {E E' X X' : Entries}

/-- A leaf more keeps the tree of an inline table one that can be written again. -/
theorem InlineForest.addLeaf? {l : Leaf} (hE : InlineForest item? E) (hl : InlineLeaf item? l)
    (h : Toml.addLeaf? l E = some E') : InlineForest item? E' :=
  ⟨hE.forest.addMember? hl.1.path hl.1.key hl.1.text hl.1.height h, hE.root.addMember? hl.2 h⟩

/-- A path begins on the line where it is looked for. -/
theorem readKeyPath?_start {parts : List KeyPart} (h : readKeyPath? cs = some (parts, rest)) :
    cs ≠ [] ∧ ∀ c ∈ cs.head?, c ≠ '\n' ∧ c ≠ '\r' := by
  obtain ⟨hne, -, hparts, rfl⟩ := readKeyParts?_sound h
  obtain ⟨p, ps, rfl⟩ := List.exists_cons_of_ne_nil hne
  have hp := hparts p List.mem_cons_self
  obtain ⟨c, more, hraw, hc⟩ := hp.text.start
  have hfirst : ∃ d last, partText p = d :: last ∧ d ≠ '\n' ∧ d ≠ '\r' := by
    rw [partText, hraw]
    cases hbefore : p.before.toList with
    | nil =>
      have hspace := (isSpaceChar_of_isKeyStart hc).1
      simp only [isSpaceChar, Bool.or_eq_false_iff, decide_eq_false_iff_not] at hspace
      exact ⟨c, _, rfl, hspace.1.2, hspace.2⟩
    | cons d last =>
      have hblank := hp.before d (hbefore ▸ List.mem_cons_self)
      refine ⟨d, _, rfl, ?_, ?_⟩ <;> (rintro rfl; exact absurd hblank (by decide))
  obtain ⟨d, last, htext, hd⟩ := hfirst
  have hcons : ∃ others, partsText (p :: ps) ++ rest = d :: others := by
    cases ps with
    | nil => exact ⟨last ++ rest, by rw [partsText, htext]; rfl⟩
    | cons q qs => exact ⟨last ++ '.' :: partsText (q :: qs) ++ rest, by rw [partsText, htext]; rfl⟩
  obtain ⟨others, hothers⟩ := hcons
  rw [hothers]
  refine ⟨List.cons_ne_nil _ _, ?_⟩
  rintro c' ⟨⟩
  exact hd

/-- A key with its value is kept as a leaf. -/
theorem readInlineMember?_sound (hread : IsItemReader item?) {gap start : List Char} {c : Char}
    (hc : isCloser c = true)
    (h : readInlineMember? item? gap start E n = some (E', c :: rest)) :
    (start ≠ [] ∧ ∀ d ∈ start.head?, d ≠ '\n' ∧ d ≠ '\r') ∧
      (Gap gap → ∃ l, InlineLeaf item? l ∧ addLeaf? l E = some E') := by
  rw [readInlineMember?] at h
  split at h
  · cases h
  · next parts behind hpath =>
    refine ⟨readKeyPath?_start hpath, fun hgap => ?_⟩
    obtain ⟨-, hlen, hparts, -⟩ := readKeyParts?_sound hpath
    split at h
    · next afterKey more hafterKey =>
      split at h
      · cases h
      · next before start' hbefore =>
        split at h
        · cases h
        · next item behind' hitem =>
          split at h
          · cases h
          · next after last hafter =>
            obtain ⟨E₁, hE₁, hpair⟩ := Option.map_eq_some_iff.1 h
            cases hpair
            obtain ⟨⟨path, key⟩, hkeys, hadd⟩ := Option.bind_eq_some_iff.1 hE₁
            obtain ⟨hinner, hkey, hdot, hcount, hroot, lead, trail, haround, hlead, htrail⟩ :=
              ofPath?_sound hparts hkeys
            have hafterKeyGap := readGap?_sound hafterKey (List.cons_ne_nil _ _)
              (by rintro d ⟨⟩; decide)
            obtain ⟨d, ds, rfl, hd⟩ := hread.start hitem
            have hspace := (isSpaceChar_of_isValueStart hd).1
            simp only [isSpaceChar, Bool.or_eq_false_iff, decide_eq_false_iff_not] at hspace
            have hbeforeGap := readGap?_sound hbefore (List.cons_ne_nil _ _)
              (by rintro e ⟨⟩; exact ⟨hspace.1.2, hspace.2⟩)
            have hafterGap := readGap?_sound hafter (List.cons_ne_nil _ _) (by
              rintro e ⟨⟩
              refine ⟨?_, ?_⟩ <;> (rintro rfl; exact absurd hc (by decide)))
            refine ⟨⟨path, key, String.ofList (before ++ item.text ++ after), item.value⟩,
              ⟨⟨hinner, ⟨hkey, hdot, _, _, haround, ?_, ?_⟩, ?_, ?_⟩, hroot⟩, hadd⟩
            · rw [String.toList_append, String.toList_ofList]
              exact hgap.append (gap_of_blank hlead)
            · rw [String.toList_append, String.toList_ofList]
              exact (gap_of_blank htrail).append hafterKeyGap
            · exact ⟨before, item.text, after, by simp, hbeforeGap, hafterGap,
                hread.reread hitem⟩
            · show path.length < maxKeyParts
              omega
    · cases h

/-- A leaf is read again from what is written for it. -/
theorem readInlineMember?_leaf {l : Leaf} (hl : InlineLeaf item? l) {lead trail : String}
    (haround : l.key.around = some (lead, trail)) {c : Char}
    (hc : isCloser c = true) (hadd : addLeaf? l E = some E')
    (hn : (leafText l).length ≤ n) :
    readInlineMember? item? lead.toList (partsText (partsOf "" "" (l.path ++ [l.key])) ++
      (trail.toList ++ '=' :: l.text.toList) ++ c :: rest) E n = some (E', c :: rest) := by
  obtain ⟨⟨hpath, hkey, ⟨before, value, after, htext, hbefore, hafter, hagain⟩, hheight⟩,
    hroot⟩ := hl
  obtain ⟨lead', trail', haround', hlead, htrail⟩ := hkey.around
  rw [haround] at haround'
  cases haround'
  obtain ⟨blank, behind, hsplit, hblank, hbehind, hstop⟩ := htrail.dropBlank
  obtain ⟨d, more, hvalue, hd⟩ := hagain.start
  rw [leafText_eq haround, htext, hsplit, hvalue] at hn
  simp only [List.length_append, List.length_cons] at hn
  have hsound := hkey.path_sound hpath
  have hinner : l.path.map Key.asInner = l.path :=
    (List.map_congr_left fun k hk => (hpath k hk).asInner).trans (List.map_id' _)
  have hlast : l.key.asLeaf (lead ++ "", String.ofList blank ++ String.ofList behind) = l.key := by
    refine hkey.asLeaf ?_
    rw [haround, ← String.ofList_append, ← hsplit]
    simp
  have hkeys : Key.ofPath? (String.ofList lead.toList)
      (partsOf "" (String.ofList blank) (l.path ++ [l.key])) (String.ofList behind) =
        some (l.path, l.key) := by
    rw [String.ofList_toList, ofPath?_partsOf _ _ _ _ _ _ hroot, hinner, hlast]
  rw [readInlineMember?, hsplit, htext]
  simp only [List.append_assoc, List.cons_append]
  rw [readKeyPath?_partsOf (by simp) (by simpa using Nat.succ_le_of_lt hheight) hsound hblank
    (isPathEnd_of_gap hbehind hstop _)]
  simp only
  rw [readGap?_gap hbehind (by rintro e ⟨⟩; decide) (by omega)]
  simp only
  rw [readGap?_gap hbefore (by rw [hvalue]; exact isGapEnd_of_isValueStart hd) (by omega)]
  simp only
  rw [hagain.read _ (hafter.isValueEnd hc _)]
  simp only
  rw [readGap?_gap hafter (isGapEnd_of_isCloser hc) (by omega), hkeys]
  simp only [Option.bind_some]
  rw [show String.ofList (before ++ (value ++ after)) = l.text by rw [← htext]; simp]
  rw [show Toml.addMember? l.path l.key (.value l.text l.value) E = some E' from hadd]
  rfl

/-- What may stand behind the last key of an inline table that has keys. -/
def IsTail (tail : List Char) : Prop := tail = [] ∨ ∃ gap, tail = ',' :: gap ∧ Gap gap

/-- The keys of an inline table are kept as a tree. -/
theorem readMembers?_sound (hread : IsItemReader item?) {t : OpenTable}
    (hE : InlineForest item? E) (h : readMembers? item? E cs n = some (t, rest)) :
    InlineForest item? t.entries ∧
      ((t.entries = [] ∧ Gap t.tail) ∨ (t.entries ≠ [] ∧ IsTail t.tail)) := by
  induction n generalizing cs E with
  | zero => cases h
  | succ n ih =>
    rw [readMembers?] at h
    split at h
    · cases h
    · next gap more hgap =>
      cases h
      have hkept := readGap?_sound hgap (List.cons_ne_nil _ _) (by rintro c ⟨⟩; decide)
      refine ⟨hE, ?_⟩
      cases E with
      | nil => exact .inl ⟨rfl, hkept⟩
      | cons e es => exact .inr ⟨List.cons_ne_nil _ _, .inr ⟨gap, rfl, hkept⟩⟩
    · next gap start hnoclose hgap =>
      split at h
      · next E₁ more hmember =>
        obtain ⟨⟨hne, hstart⟩, hleaf⟩ := readInlineMember?_sound hread rfl hmember
        obtain ⟨l, hl, hadd⟩ := hleaf (readGap?_sound hgap hne hstart)
        exact ih (hE.addLeaf? hl hadd) h
      · next E₁ more hmember =>
        cases h
        obtain ⟨⟨hne, hstart⟩, hleaf⟩ := readInlineMember?_sound hread rfl hmember
        obtain ⟨l, hl, hadd⟩ := hleaf (readGap?_sound hgap hne hstart)
        exact ⟨hE.addLeaf? hl hadd, .inr ⟨addLeaf?_ne_nil hadd, .inl rfl⟩⟩
      · cases h

/-- An inline table ends at its brace. -/
theorem readMembers?_close {gap : List Char}
    (hgap : readGap? cs (n + 1) = some (gap, '\x7d' :: rest)) :
    readMembers? item? X cs (n + 1) =
      some (⟨X, if X.isEmpty then gap else ',' :: gap⟩, rest) := by
  rw [readMembers?, hgap]
  rfl

/-- A member with a comma behind it is added before the others are read. -/
theorem readMembers?_comma {gap start more : List Char}
    (hgap : readGap? cs (n + 1) = some (gap, start)) (hstart : start.head? ≠ some '\x7d')
    (h : readInlineMember? item? gap start X (n + 1) = some (X', ',' :: more)) :
    readMembers? item? X cs (n + 1) = readMembers? item? X' more n := by
  rw [readMembers?, hgap]
  split
  · next heq => cases heq
  · next heq =>
    cases heq
    exact absurd rfl hstart
  · next heq =>
    cases heq
    rw [h]
    rfl

/-- The last member of an inline table needs no comma. -/
theorem readMembers?_last {gap start more : List Char}
    (hgap : readGap? cs (n + 1) = some (gap, start)) (hstart : start.head? ≠ some '\x7d')
    (h : readInlineMember? item? gap start X (n + 1) = some (X', '\x7d' :: more)) :
    readMembers? item? X cs (n + 1) = some (⟨X', []⟩, more) := by
  rw [readMembers?, hgap]
  split
  · next heq => cases heq
  · next heq =>
    cases heq
    exact absurd rfl hstart
  · next heq =>
    cases heq
    rw [h]
    rfl

/-- Members are written with a comma between them. -/
theorem toList_joinWith (l l' : Leaf) (ls : List Leaf) :
    (Text.joinWith "," ((l :: l' :: ls).map fun l => memberText l.member)).toList =
      leafText l ++
        ',' :: (Text.joinWith "," ((l' :: ls).map fun l => memberText l.member)).toList := by
  simp [Text.joinWith, leafText]

/-- A leaf in front of a character that closes it: the space in front of its key, and the member. -/
theorem readGap?_leaf {l : Leaf} (hl : InlineLeaf item? l) (hadd : addLeaf? l X = some X')
    {c : Char} (hc : isCloser c = true) (other : List Char) (hn : (leafText l).length ≤ n) :
    ∃ gap start, readGap? (leafText l ++ c :: other) n = some (gap, start) ∧
      start.head? ≠ some '\x7d' ∧
      readInlineMember? item? gap start X n = some (X', c :: other) := by
  obtain ⟨lead, trail, haround, hlead, htrail⟩ := hl.1.key.around
  obtain ⟨d, ds, hstart, hd⟩ := partsText_start (by simp) (hl.1.key.path_sound hl.1.path)
  have hspace := isSpaceChar_of_isKeyStart hd
  refine ⟨lead.toList, partsText (partsOf "" "" (l.path ++ [l.key])) ++
    (trail.toList ++ '=' :: l.text.toList) ++ c :: other, ?_, ?_,
    readInlineMember?_leaf hl haround hc hadd hn⟩
  · have hend : IsGapEnd (partsText (partsOf "" "" (l.path ++ [l.key])) ++
        ((trail.toList ++ '=' :: l.text.toList) ++ c :: other)) := by
      rw [hstart]
      rintro e ⟨⟩
      exact ⟨hspace.1, hspace.2.1⟩
    rw [leafText_eq haround] at hn ⊢
    rw [List.length_append] at hn
    rw [List.append_assoc, List.append_assoc]
    exact readGap?_gap hlead hend (by omega)
  · rw [hstart]
    intro heq
    cases heq
    exact hspace.2.2.2 rfl

/-- Leaves are read again from what is written for them. -/
theorem readMembers?_leaves {ls : List Leaf} (hne : ls ≠ [])
    (hls : ∀ l ∈ ls, InlineLeaf item? l) (hadd : addLeaves? ls X = some X')
    {tail : List Char} (htail : IsTail tail)
    (hn :
      (Text.joinWith "," (ls.map fun l => memberText l.member)).toList.length + tail.length < n) :
    readMembers? item? X ((Text.joinWith "," (ls.map fun l => memberText l.member)).toList ++
      (tail ++ '\x7d' :: rest)) n = some (⟨X', tail⟩, rest) := by
  induction ls generalizing X n with
  | nil => exact absurd rfl hne
  | cons l more ih =>
    obtain ⟨m, rfl⟩ : ∃ m, n = m + 1 := ⟨n - 1, by omega⟩
    have hl := hls l List.mem_cons_self
    obtain ⟨X₁, hX₁, hmore⟩ := Option.bind_eq_some_iff.1 hadd
    cases more with
    | nil =>
      cases hmore
      have hjoin : (Text.joinWith "," ([l].map fun l => memberText l.member)).toList =
          leafText l := rfl
      rw [hjoin] at hn ⊢
      rcases htail with rfl | ⟨gap, rfl, hgap⟩
      · obtain ⟨lead, start, hlead, hopen, hmember⟩ :=
          readGap?_leaf (n := m + 1) (c := '\x7d') hl hX₁ rfl rest (by omega)
        rw [List.nil_append, readMembers?_last hlead hopen hmember]
      · simp only [List.length_cons] at hn
        obtain ⟨k, rfl⟩ : ∃ k, m = k + 1 := ⟨m - 1, by omega⟩
        obtain ⟨lead, start, hlead, hopen, hmember⟩ :=
          readGap?_leaf (n := k + 1 + 1) (c := ',') hl hX₁ rfl (gap ++ '\x7d' :: rest) (by omega)
        have hfull : X'.isEmpty = false := by
          have := addLeaf?_ne_nil hX₁
          simpa using this
        rw [List.cons_append, readMembers?_comma hlead hopen hmember,
          readMembers?_close (readGap?_gap hgap (isGapEnd_of_isCloser rfl) (by omega)), hfull]
        rfl
    | cons l' others =>
      rw [toList_joinWith] at hn ⊢
      simp only [List.length_append, List.length_cons] at hn
      obtain ⟨lead, start, hlead, hopen, hmember⟩ :=
        readGap?_leaf (n := m + 1) (c := ',') hl hX₁ rfl
          ((Text.joinWith "," ((l' :: others).map fun l => memberText l.member)).toList ++
            (tail ++ '\x7d' :: rest)) (by omega)
      rw [List.append_assoc, List.cons_append, readMembers?_comma hlead hopen hmember]
      exact ih (List.cons_ne_nil _ _) (fun l hl => hls l (List.mem_cons_of_mem _ hl)) hmore
        (by omega)

/-- The text of an inline table is read again, as the same tree. -/
theorem readMembers?_reread (hread : IsItemReader item?) {t : OpenTable}
    (h : readMembers? item? [] cs n = some (t, rest)) (other : List Char) :
    ∃ inside, t.text = '\x7b' :: (inside ++ ['\x7d']) ∧
      ∀ m, inside.length < m →
        readMembers? item? [] (inside ++ '\x7d' :: other) m = some (t, other) := by
  obtain ⟨hforest, htail⟩ := readMembers?_sound hread ⟨forest_nil, by intro e he; cases he⟩ h
  have hmembers : (ownMembers [] t.entries).map memberText =
      (leaves [] t.entries).map fun l => memberText l.member := by
    rw [ownMembers_eq, List.map_map]
    rfl
  refine ⟨(Text.joinWith "," ((ownMembers [] t.entries).map memberText)).toList ++ t.tail, by
    simp [OpenTable.text], fun m hm => ?_⟩
  obtain ⟨k, rfl⟩ : ∃ k, m = k + 1 := ⟨m - 1, by omega⟩
  rw [hmembers] at hm ⊢
  rw [List.length_append] at hm
  obtain ⟨entries, tail⟩ := t
  rcases htail with ⟨hnil, hgap⟩ | ⟨hne, htail⟩
  · simp only at hnil hgap hm ⊢
    subst hnil
    have hgapRead : readGap? (tail ++ '\x7d' :: other) (k + 1) = some (tail, '\x7d' :: other) :=
      readGap?_gap hgap (isGapEnd_of_isCloser rfl) (by omega)
    have hclose := @readMembers?_close _ _ item? k [] tail hgapRead
    rw [if_pos (show ([] : Entries).isEmpty = true from rfl)] at hclose
    simpa [leaves, Text.joinWith] using hclose
  · rw [List.append_assoc]
    refine readMembers?_leaves (fun hnil => ?_) (hforest.forest.sound hforest.root)
      (by simpa using hforest.forest.addLeaves? (X := []) (by simp)) htail hm
    obtain ⟨e, es, rfl⟩ := List.exists_cons_of_ne_nil hne
    rw [leaves] at hnil
    exact itemLeaves_ne_nil (hforest.forest.branches e List.mem_cons_self) []
      (List.append_eq_nil_iff.1 hnil).1

end Inline

/-! ## Values -/

/-- A scalar begins with a character of scalars. -/
theorem readScalar?_start {c : Char} {p : (Scalar × List Char) × List Char}
    (h : readScalar? (c :: cs) = some p) : isScalarChar c = true := by
  obtain ⟨s, hs, -⟩ := Option.map_eq_some_iff.1 h
  cases hc : isScalarChar c with
  | true => rfl
  | false =>
    have hnil : (c :: cs).takeWhile isScalarChar = [] := by simp [hc]
    rcases takeScalar_cases (c :: cs) with hrun | ⟨d, time, -, -, hdate⟩
    · rw [hrun, hnil, show Scalar.ofChars? [] = none from rfl] at hs
      cases hs
    · rw [hnil] at hdate
      exact absurd (Bool.and_eq_true_iff.1 hdate).2 (by decide)

/-- Behind an opening bracket the items of an array are read. -/
theorem readValueWithin?_array (depth : Nat) (cs : List Char) :
    readValueWithin? (depth + 1) ('[' :: cs) =
      (readItems? (readValueWithin? depth) cs (cs.length + 1)).map fun p =>
        (⟨.array p.1.1, '[' :: p.1.2⟩, p.2) := by
  rw [readValueWithin?]

/-- Behind an opening brace the members of an inline table are read. -/
theorem readValueWithin?_table (depth : Nat) (cs : List Char) :
    readValueWithin? (depth + 1) ('\x7b' :: cs) =
      (readMembers? (readValueWithin? depth) [] cs (cs.length + 1)).map fun p =>
        (⟨.table (entriesMeaning p.1.entries), p.1.text⟩, p.2) := by
  rw [readValueWithin?]

/-- A quote begins a string. -/
theorem readValueWithin?_string (depth : Nat) {quote : Char} (hquote : quote = '"' ∨ quote = '\'')
    (cs : List Char) :
    readValueWithin? depth (quote :: cs) = (readString? (quote :: cs)).map fun p =>
      (⟨.string p.1, (quote :: cs).take ((quote :: cs).length - p.2.length)⟩, p.2) := by
  unfold readValueWithin?
  rcases hquote with rfl | rfl <;> rfl

/-- Any other beginning is that of a scalar. -/
theorem readValueWithin?_scalar (depth : Nat) {c : Char} (hc : isScalarChar c = true)
    (cs : List Char) :
    readValueWithin? depth (c :: cs) = (readScalar? (c :: cs)).map fun p =>
      (⟨.scalar p.1.1, p.1.2⟩, p.2) := by
  have hne (d : Char) (hd : isScalarChar d = false) : c ≠ d := by
    rintro rfl
    rw [hc] at hd
    cases hd
  have hquotes : ¬ (c = '"' ∨ c = '\'') := fun h => h.elim (hne _ (by decide)) (hne _ (by decide))
  unfold readValueWithin?
  split
  · next heq => cases heq
  · next heq => exact absurd (List.cons.inj heq).1 (hne _ (by decide))
  · next heq => exact absurd (List.cons.inj heq).1 (hne _ (by decide))
  · next heq =>
    cases heq
    rw [if_neg hquotes]

/-- Whatever is read as a value begins as one. -/
theorem readValueWithin?_start {depth : Nat} {p : Written × List Char}
    (h : readValueWithin? depth cs = some p) :
    ∃ c more, cs = c :: more ∧ isValueStart c = true := by
  cases cs with
  | nil =>
    unfold readValueWithin? at h
    cases h
  | cons c more =>
    refine ⟨c, more, rfl, ?_⟩
    unfold readValueWithin? at h
    split at h
    · next heq => cases heq
    · next heq => exact (List.cons.inj heq).1 ▸ rfl
    · next heq => exact (List.cons.inj heq).1 ▸ rfl
    · next heq =>
      cases heq
      split at h
      · next hquote => rcases hquote with rfl | rfl <;> rfl
      · obtain ⟨q, hq, -⟩ := Option.map_eq_some_iff.1 h
        simp [isValueStart, readScalar?_start hq]

/-- A string is read again from its own text. -/
theorem readValueWithin?_string_reread {depth : Nat} {quote : Char} {w : Written}
    (hquote : quote = '"' ∨ quote = '\'')
    (h : readValueWithin? depth (quote :: cs) = some (w, rest)) :
    Rereads (readValueWithin? depth) w.text w.value := by
  rw [readValueWithin?_string depth hquote] at h
  obtain ⟨⟨s, more⟩, hs, hpair⟩ := Option.map_eq_some_iff.1 h
  cases hpair
  obtain ⟨quote', taken, -, hcs, htaken⟩ := readString?_local hs
  obtain ⟨rfl, rfl⟩ : quote = quote' ∧ cs = taken ++ more := by simpa using hcs
  have htext : (quote :: (taken ++ more)).take
      ((quote :: (taken ++ more)).length - more.length) = quote :: taken := by
    rw [← List.cons_append, List.length_append, Nat.add_sub_cancel, List.take_left' rfl]
  simp only [htext]
  refine ⟨⟨quote, taken, rfl, by rcases hquote with rfl | rfl <;> rfl⟩, fun other hother => ?_⟩
  have hread := htaken other hother.quoteFree
  rw [List.cons_append] at hread ⊢
  rw [readValueWithin?_string depth hquote, hread]
  simp only [Option.map_some, ← List.cons_append]
  rw [List.length_append, Nat.add_sub_cancel, List.take_left' rfl]

/-- A scalar is read again from its own text. -/
theorem readValueWithin?_scalar_reread {depth : Nat} {c : Char} {w : Written}
    (hc : isScalarChar c = true) (h : readValueWithin? depth (c :: cs) = some (w, rest)) :
    Rereads (readValueWithin? depth) w.text w.value := by
  rw [readValueWithin?_scalar depth hc] at h
  obtain ⟨⟨⟨s, run⟩, more⟩, hs, hpair⟩ := Option.map_eq_some_iff.1 h
  cases hpair
  obtain ⟨⟨d, last, rfl, hd⟩, hagain⟩ := readScalar?_local hs
  refine ⟨⟨d, last, rfl, by simp [isValueStart, hd]⟩, fun other hother => ?_⟩
  have hread := hagain other hother
  simp only [List.cons_append] at hread ⊢
  rw [readValueWithin?_scalar depth hd, hread]
  rfl

/-- **A value is read again from the text that is kept of it.** -/
theorem isItemReader_readValueWithin? (depth : Nat) : IsItemReader (readValueWithin? depth) := by
  refine ⟨readValueWithin?_start, ?_⟩
  intro cs w rest h
  obtain ⟨c, more, rfl, hc⟩ := readValueWithin?_start h
  simp only [isValueStart, Bool.or_eq_true, decide_eq_true_eq, or_assoc] at hc
  induction depth generalizing more w c rest with
  | zero =>
    rcases hc with hquote | hquote | rfl | rfl | hscalar
    · exact readValueWithin?_string_reread (.inl hquote) h
    · exact readValueWithin?_string_reread (.inr hquote) h
    · cases h
    · cases h
    · exact readValueWithin?_scalar_reread hscalar h
  | succ depth ih =>
    have hread : IsItemReader (readValueWithin? depth) := by
      refine ⟨readValueWithin?_start, ?_⟩
      intro cs w rest h
      obtain ⟨c, more, rfl, hc⟩ := readValueWithin?_start h
      exact ih c more h (by simpa [isValueStart, or_assoc] using hc)
    rcases hc with hquote | hquote | rfl | rfl | hscalar
    · exact readValueWithin?_string_reread (.inl hquote) h
    · exact readValueWithin?_string_reread (.inr hquote) h
    · rw [readValueWithin?_array] at h
      obtain ⟨⟨⟨vs, text⟩, last⟩, hitems, hpair⟩ := Option.map_eq_some_iff.1 h
      cases hpair
      refine ⟨⟨'[', text, rfl, rfl⟩, fun other _ => ?_⟩
      rw [List.cons_append, readValueWithin?_array,
        readItems?_reread hread hitems other _ (by simp; omega)]
      rfl
    · rw [readValueWithin?_table] at h
      obtain ⟨⟨t, last⟩, hmembers, hpair⟩ := Option.map_eq_some_iff.1 h
      cases hpair
      refine ⟨?_, fun other _ => ?_⟩
      · obtain ⟨inside, htext, -⟩ := readMembers?_reread hread hmembers []
        exact ⟨'\x7b', _, htext, rfl⟩
      · obtain ⟨inside, htext, hagain⟩ := readMembers?_reread hread hmembers other
        simp only [htext, List.cons_append, List.append_assoc, List.nil_append]
        rw [readValueWithin?_table, hagain _ (by rw [List.length_append]; omega)]
        simp [htext]
    · exact readValueWithin?_scalar_reread hscalar h

/-- Every value is read again from the text that is kept of it. -/
theorem isItemReader_readValue? : IsItemReader readValue? :=
  isItemReader_readValueWithin? maxNesting

end SessionHost.Toml
