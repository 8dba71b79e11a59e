import SessionHost.Proofs.Toml.Pieces
import SessionHost.Toml.Inline

/-!
# Keys, space and scalars are read without looking behind them

What stands between the strings of a document: keys with dots between them, space and comments
inside and at the end of a line, and values without quotes.  Each of them is read again from the
text that is kept of it, in front of whatever may follow.

Main definitions:

- `KeyText`, `KeyPart.Sound`, `partsText`: the text of a key, and of keys with dots.
- `LineTail`, `Gap`: what may stand at the end of a line, and inside brackets.
- `IsValueEnd`: what may follow a value.

Main results:

- Theorems `readKeyParts?_sound`, `readKeyParts?_partsText`.
- Theorems `readLineEnd?_sound`, `readLineEnd?_tail`, `readGap?_sound`, `readGap?_gap`.
- Theorem `readScalar?_local`.
-/

namespace SessionHost.Toml

variable {cs rest : List Char}

/-! ## Keys -/

/-- A character that a key may begin with. -/
def isKeyStart (c : Char) : Bool := c = '"' || c = '\'' || isBareChar c

/-- What may follow a key without quotes. -/
def IsKeyEnd (cs : List Char) : Prop := ∀ c ∈ cs.head?, isBareChar c = false

/-- The text of a key. -/
structure KeyText (raw : List Char) (name : String) : Prop where
  start : ∃ c more, raw = c :: more ∧ isKeyStart c = true
  read : ∀ rest, IsKeyEnd rest → readKeyName? (raw ++ rest) = some (name, rest)

theorem takeWhile_append_drop (p : Char → Bool) (cs : List Char) :
    cs.takeWhile p ++ cs.drop (cs.takeWhile p).length = cs := by
  induction cs with
  | nil => rfl
  | cons c more ih => cases hc : p c <;> simp [hc, ih]

/-- What is taken ends where the rest no longer belongs to it. -/
theorem takeWhile_append_of_stop {p : Char → Bool} (hall : ∀ c ∈ cs, p c = true)
    (h : ∀ c ∈ rest.head?, p c = false) : (cs ++ rest).takeWhile p = cs := by
  rw [List.takeWhile_append_of_pos hall]
  cases rest with
  | nil => simp
  | cons d last => simp [h d rfl]

/-- A bare key is read up to its end. -/
theorem readKeyName?_bare {name : List Char} (hne : name ≠ [])
    (hname : ∀ c ∈ name, isBareChar c = true) (h : IsKeyEnd rest) :
    readKeyName? (name ++ rest) = some (String.ofList name, rest) := by
  obtain ⟨c, more, rfl⟩ := List.exists_cons_of_ne_nil hne
  have htake := takeWhile_append_of_stop hname h
  have hc := hname c List.mem_cons_self
  have hdouble : c ≠ '"' := by
    rintro rfl
    exact absurd hc (by decide)
  have hsingle : c ≠ '\'' := by
    rintro rfl
    exact absurd hc (by decide)
  rw [List.cons_append] at htake ⊢
  rw [readKeyName?]
  · rw [htake]
    simp
  · exact fun _ heq => hdouble (List.cons.inj heq).1
  · exact fun _ heq => hsingle (List.cons.inj heq).1

/-- What is read as a name is the text of a key with that name. -/
theorem readKeyName?_local {name : String} (h : readKeyName? cs = some (name, rest)) :
    ∃ raw, cs = raw ++ rest ∧ KeyText raw name := by
  unfold readKeyName? at h
  split at h
  · obtain ⟨⟨x, more⟩, hread, hpair⟩ := Option.map_eq_some_iff.1 h
    cases hpair
    obtain ⟨taken, rfl, -, htaken⟩ := readBasic?_local hread
    refine ⟨'"' :: taken, rfl, ⟨'"', taken, rfl, by decide⟩, fun other _ => ?_⟩
    rw [List.cons_append, readKeyName?, htaken other _ (by simp; omega)]
    rfl
  · obtain ⟨⟨x, more⟩, hread, hpair⟩ := Option.map_eq_some_iff.1 h
    cases hpair
    obtain ⟨taken, rfl, -, htaken⟩ := readLiteral?_local hread
    refine ⟨'\'' :: taken, rfl, ⟨'\'', taken, rfl, by decide⟩, fun other _ => ?_⟩
    rw [List.cons_append, readKeyName?, htaken other]
    rfl
  · split at h
    · cases h
    · next name hne =>
      cases h
      have hbare : ∀ c ∈ cs.takeWhile isBareChar, isBareChar c = true :=
        fun c hc => List.mem_takeWhile_imp hc
      refine ⟨_, (takeWhile_append_drop isBareChar cs).symm, ?_,
        fun other hother => readKeyName?_bare hne hbare hother⟩
      obtain ⟨c, more, hcons⟩ := List.exists_cons_of_ne_nil hne
      refine ⟨c, more, hcons, ?_⟩
      have := hbare c (hcons ▸ List.mem_cons_self)
      simp [isKeyStart, this]

/-- A key whose text is read as its name, with blank space around it. -/
structure KeyPart.Sound (p : KeyPart) : Prop where
  text : KeyText p.raw.toList p.name
  before : ∀ c ∈ p.before.toList, isBlankChar c = true
  after : ∀ c ∈ p.after.toList, isBlankChar c = true

/-- A key with the space around it. -/
def partText (p : KeyPart) : List Char := p.before.toList ++ p.raw.toList ++ p.after.toList

/-- Keys with dots between them. -/
def partsText : List KeyPart → List Char
  | [] => []
  | [p] => partText p
  | p :: q :: more => partText p ++ '.' :: partsText (q :: more)

/-- What may follow keys with dots. -/
def IsPathEnd (cs : List Char) : Prop :=
  ∀ c ∈ cs.head?, isBlankChar c = false ∧ isBareChar c = false ∧ c ≠ '.'

/-- White space is in no bare key. -/
theorem isBareChar_of_isBlankChar {c : Char} (h : isBlankChar c = true) : isBareChar c = false := by
  simp only [isBlankChar, Bool.or_eq_true, decide_eq_true_eq] at h
  rcases h with rfl | rfl <;> decide

/-- No key begins with white space. -/
theorem isBlankChar_of_isKeyStart {c : Char} (h : isKeyStart c = true) : isBlankChar c = false := by
  cases hblank : isBlankChar c with
  | false => rfl
  | true =>
    simp only [isBlankChar, Bool.or_eq_true, decide_eq_true_eq] at hblank
    rcases hblank with rfl | rfl <;> exact absurd h (by decide)

/-- A part of a path is read with the white space around it. -/
theorem readKeyPart?_sound {p : KeyPart} (h : readKeyPart? cs = some (p, rest)) :
    p.Sound ∧ cs = partText p ++ rest ∧ ∀ c ∈ rest.head?, isBlankChar c = false := by
  obtain ⟨hcs, hblank, -⟩ := takeBlank_spec cs
  rw [readKeyPart?] at h
  split at h
  · cases h
  · next name behind hname =>
    cases h
    obtain ⟨raw, hraw, htext⟩ := readKeyName?_local hname
    obtain ⟨hbehind, hafter, hstop⟩ := takeBlank_spec behind
    have htake : (takeBlank cs).2.take ((takeBlank cs).2.length - behind.length) = raw := by
      rw [hraw, List.length_append, Nat.add_sub_cancel, List.take_left' rfl]
    refine ⟨⟨?_, ?_, ?_⟩, ?_, hstop⟩
    · simpa [htake] using htext
    · simpa using hblank
    · simpa using hafter
    · simp only [partText, String.toList_ofList, htake, List.append_assoc]
      rw [← hbehind, ← hraw, ← hcs]

/-- The text of a part is read as that part. -/
theorem readKeyPart?_partText {p : KeyPart} (h : p.Sound)
    (hrest : ∀ c ∈ rest.head?, isBlankChar c = false ∧ isBareChar c = false) :
    readKeyPart? (partText p ++ rest) = some (p, rest) := by
  obtain ⟨c, more, hraw, hc⟩ := h.text.start
  have hfirst : takeBlank (partText p ++ rest) =
      (p.before.toList, p.raw.toList ++ (p.after.toList ++ rest)) := by
    rw [partText, List.append_assoc, List.append_assoc]
    refine takeBlank_append h.before fun d hd => ?_
    rw [hraw] at hd
    cases hd
    exact isBlankChar_of_isKeyStart hc
  have hend : IsKeyEnd (p.after.toList ++ rest) := by
    intro d hd
    cases hafter : p.after.toList with
    | nil =>
      rw [hafter] at hd
      exact (hrest d hd).2
    | cons e last =>
      rw [hafter] at hd
      cases hd
      exact isBareChar_of_isBlankChar (h.after _ (hafter ▸ List.mem_cons_self))
  rw [readKeyPart?, hfirst]
  simp only
  rw [h.text.read _ hend]
  simp only
  rw [takeBlank_append h.after fun d hd => (hrest d hd).1, List.length_append,
    Nat.add_sub_cancel, List.take_left' rfl]
  simp

/-- The parts that are read spell what was taken. -/
theorem readKeyParts?_sound {n : Nat} {parts : List KeyPart}
    (h : readKeyParts? cs n = some (parts, rest)) :
    parts ≠ [] ∧ parts.length ≤ n ∧ (∀ p ∈ parts, p.Sound) ∧ cs = partsText parts ++ rest := by
  induction n generalizing cs parts with
  | zero => cases h
  | succ n ih =>
    rw [readKeyParts?] at h
    split at h
    · cases h
    · next p more hpart =>
      obtain ⟨hp, hcs, -⟩ := readKeyPart?_sound hpart
      obtain ⟨⟨ps, last⟩, hread, hpair⟩ := Option.map_eq_some_iff.1 h
      cases hpair
      obtain ⟨hne, hlen, hps, hmore⟩ := ih hread
      obtain ⟨q, qs, rfl⟩ := List.exists_cons_of_ne_nil hne
      refine ⟨List.cons_ne_nil _ _, by simpa using hlen, ?_, ?_⟩
      · simpa using ⟨hp, by simpa using hps⟩
      · rw [hcs, hmore, partsText, List.append_assoc, List.cons_append]
    · next p hdot hpart =>
      cases h
      obtain ⟨hp, hcs, -⟩ := readKeyPart?_sound hpart
      exact ⟨List.cons_ne_nil _ _, by simp, by simpa using hp, hcs⟩

/-- Keys with dots are read from their text. -/
theorem readKeyParts?_partsText {n : Nat} {parts : List KeyPart} (hne : parts ≠ [])
    (hlen : parts.length ≤ n) (h : ∀ p ∈ parts, p.Sound) (hrest : IsPathEnd rest) :
    readKeyParts? (partsText parts ++ rest) n = some (parts, rest) := by
  induction parts generalizing n with
  | nil => exact absurd rfl hne
  | cons p more ih =>
    obtain ⟨m, rfl⟩ : ∃ m, n = m + 1 := ⟨n - 1, by simp at hlen; omega⟩
    have hp := h p List.mem_cons_self
    cases more with
    | nil =>
      have hread := readKeyPart?_partText hp fun c hc => ⟨(hrest c hc).1, (hrest c hc).2.1⟩
      rw [partsText, readKeyParts?, hread]
      split
      · next heq => cases heq
      · next heq =>
        cases heq
        exact absurd rfl (hrest '.' rfl).2.2
      · next heq =>
        cases heq
        rfl
    | cons q qs =>
      have hdot : ∀ c ∈ ('.' :: (partsText (q :: qs) ++ rest)).head?,
          isBlankChar c = false ∧ isBareChar c = false := by
        rintro c ⟨⟩
        exact ⟨by decide, by decide⟩
      rw [partsText, List.append_assoc, List.cons_append, readKeyParts?,
        readKeyPart?_partText hp hdot]
      simp only
      rw [ih (List.cons_ne_nil _ _) (by simpa using hlen)
        fun r hr => h r (List.mem_cons_of_mem _ hr)]
      rfl

/-! ## Ends of lines -/

/-- What may stand at the end of a line: space, and then perhaps a comment. -/
def LineTail (cs : List Char) : Prop :=
  ∃ blank comment, cs = blank ++ comment ∧ (∀ c ∈ blank, isBlankChar c = true) ∧
    (∀ c ∈ comment, isControl c = false) ∧ ∀ c ∈ comment.head?, c = '#'

/-- A comment reaches to the end of its line and has no control characters. -/
theorem readComment?_sound {comment : List Char} (h : readComment? cs = some (comment, rest)) :
    (∀ c ∈ comment, isControl c = false) ∧ cs = comment ++ rest ∧
      ∀ c ∈ rest.head?, c = '\n' ∨ c = '\r' := by
  rw [readComment?] at h
  split at h
  · cases h
  · next hcontrol =>
    cases h
    refine ⟨by simpa using hcontrol, (takeWhile_append_drop _ cs).symm, fun c hc => ?_⟩
    have hsame := takeWhile_append_drop (fun c : Char => decide (c ≠ '\n') && decide (c ≠ '\r')) cs
    have hdrop : cs.dropWhile (fun c : Char => decide (c ≠ '\n') && decide (c ≠ '\r')) =
        cs.drop (cs.takeWhile fun c : Char => decide (c ≠ '\n') && decide (c ≠ '\r')).length := by
      refine List.append_cancel_left (Eq.trans ?_ hsame.symm)
      exact List.takeWhile_append_dropWhile
    have := List.head?_dropWhile_not
      (fun c : Char => decide (c ≠ '\n') && decide (c ≠ '\r')) cs
    rw [hdrop, show (cs.drop _).head? = some c from hc] at this
    by_cases hline : c = '\n'
    · exact .inl hline
    · exact .inr (by simpa [hline] using this)

/-- A text without control characters is read to the end of the line. -/
theorem readComment?_comment {comment : List Char} (h : ∀ c ∈ comment, isControl c = false)
    (hrest : ∀ c ∈ rest.head?, c = '\n' ∨ c = '\r') :
    readComment? (comment ++ rest) = some (comment, rest) := by
  have htake : (comment ++ rest).takeWhile
      (fun c : Char => decide (c ≠ '\n') && decide (c ≠ '\r')) = comment := by
    refine takeWhile_append_of_stop (fun c hc => ?_) fun c hc => ?_
    · have := h c hc
      simp only [ne_eq, Bool.and_eq_true, decide_eq_true_eq]
      refine ⟨?_, ?_⟩ <;> rintro rfl <;> exact absurd this (by decide)
    · rcases hrest c hc with rfl | rfl <;> decide
  rw [readComment?]
  simp only [htake]
  rw [if_neg (by simpa using h), List.drop_left' rfl]

/-- The end of a line is space and perhaps a comment, and then a line end or nothing. -/
theorem readLineEnd?_sound {tail : List Char} (h : readLineEnd? cs = some (tail, rest)) :
    LineTail tail ∧
      ((∃ lineBreak, LineBreak lineBreak ∧ cs = tail ++ lineBreak ++ rest) ∨
        cs = tail ∧ rest = []) := by
  obtain ⟨hcs, hblank, -⟩ := takeBlank_spec cs
  have hcomment : ∃ comment more, (takeBlank cs).2 = comment ++ more ∧
      (∀ c ∈ comment, isControl c = false) ∧ (∀ c ∈ comment.head?, c = '#') ∧
      ((more = [] ∧ tail = (takeBlank cs).1 ++ comment ∧ rest = []) ∨
        (tail = (takeBlank cs).1 ++ comment ∧ dropLineEnd? more = some rest)) := by
    rw [readLineEnd?] at h
    split at h
    · cases h
    · next comment htail =>
      cases h
      split at htail
      · next more hhash =>
        obtain ⟨hplain, hsplit, -⟩ := readComment?_sound htail
        refine ⟨comment, [], hsplit, hplain, fun c hc => ?_, .inl ⟨rfl, rfl, rfl⟩⟩
        rw [hhash, List.append_nil] at hsplit
        rw [← hsplit] at hc
        cases hc
        rfl
      · simp only [Option.some.injEq, Prod.mk.injEq] at htail
        obtain ⟨rfl, hnil⟩ := htail
        exact ⟨[], [], hnil, by simp, by simp, .inl ⟨rfl, rfl, rfl⟩⟩
    · next comment more hmore htail =>
      obtain ⟨next, hnext, hpair⟩ := Option.map_eq_some_iff.1 h
      cases hpair
      split at htail
      · next last hhash =>
        obtain ⟨hplain, hsplit, -⟩ := readComment?_sound htail
        refine ⟨comment, more, hsplit, hplain, fun c hc => ?_, .inr ⟨rfl, hnext⟩⟩
        cases comment with
        | nil => cases hc
        | cons d ds =>
          rw [hhash, List.cons_append] at hsplit
          cases hc
          exact (List.cons.inj hsplit).1.symm
      · cases htail
        exact ⟨[], _, rfl, by simp, by simp, .inr ⟨rfl, hnext⟩⟩
  obtain ⟨comment, more, hsplit, hplain, hhash, ⟨rfl, rfl, rfl⟩ | ⟨rfl, hnext⟩⟩ := hcomment
  · refine ⟨⟨_, comment, rfl, hblank, hplain, hhash⟩, .inr ⟨?_, rfl⟩⟩
    rw [List.append_nil] at hsplit
    rw [← hsplit, ← hcs]
  · obtain ⟨lineBreak, hbreak, rfl⟩ := dropLineEnd?_eq_some hnext
    refine ⟨⟨_, comment, rfl, hblank, hplain, hhash⟩, .inl ⟨lineBreak, hbreak, ?_⟩⟩
    rw [List.append_assoc, List.append_assoc, ← hsplit, ← hcs]

/-- The end of a line is read again in front of a line end. -/
theorem readLineEnd?_tail {tail lineBreak : List Char} (h : LineTail tail)
    (hbreak : LineBreak lineBreak) :
    readLineEnd? (tail ++ (lineBreak ++ rest)) = some (tail, rest) := by
  obtain ⟨blank, comment, rfl, hblank, hplain, hhash⟩ := h
  have hhead := hbreak.head rest
  have hbreaks : ∀ c ∈ (lineBreak ++ rest).head?, c = '\n' ∨ c = '\r' := by
    cases hbreak <;> simp
  have htake : takeBlank (blank ++ (comment ++ (lineBreak ++ rest))) =
      (blank, comment ++ (lineBreak ++ rest)) := by
    refine takeBlank_append hblank fun c hc => ?_
    cases comment with
    | nil => exact (hhead c hc).1
    | cons first ds =>
      rw [hhash c hc]
      decide
  have hdrop := hbreak.drop rest
  rw [List.append_assoc, readLineEnd?, htake]
  simp only
  cases comment with
  | nil =>
    cases hbreak <;> simp [dropLineEnd?]
  | cons first ds =>
    obtain rfl := hhash first rfl
    have hread := readComment?_comment hplain hbreaks
    rw [List.cons_append] at hread ⊢
    simp only
    rw [hread]
    cases hbreak <;> simp [dropLineEnd?]

/-- The last line may end with the text. -/
theorem readLineEnd?_last {tail : List Char} (h : LineTail tail) :
    readLineEnd? tail = some (tail, []) := by
  obtain ⟨blank, comment, rfl, hblank, hplain, hhash⟩ := h
  have htake : takeBlank (blank ++ comment) = (blank, comment) := by
    refine takeBlank_append hblank fun c hc => ?_
    rw [hhash c hc]
    decide
  rw [readLineEnd?, htake]
  simp only
  cases comment with
  | nil => simp
  | cons first ds =>
    obtain rfl := hhash first rfl
    have hread : readComment? ('#' :: ds ++ []) = some ('#' :: ds, []) :=
      readComment?_comment hplain (by simp)
    rw [List.append_nil] at hread
    simp only
    rw [hread]

/-- What ends a line has no carriage return. -/
theorem LineTail.noReturn {tail : List Char} (h : LineTail tail) : '\r' ∉ tail := by
  obtain ⟨blank, comment, rfl, hblank, hplain, -⟩ := h
  rw [List.mem_append]
  rintro (hmem | hmem)
  · exact absurd (hblank _ hmem) (by decide)
  · exact absurd (hplain _ hmem) (by decide)

/-! ## Space inside brackets -/

/-- Space, line ends and comments inside brackets, as they are kept. -/
inductive Gap : List Char → Prop where
  | nil : Gap []
  | space {c : Char} {gap : List Char} (hc : isBlankChar c = true ∨ c = '\n') (h : Gap gap) :
      Gap (c :: gap)
  | comment {body gap : List Char} (hbody : ∀ c ∈ '#' :: body, isControl c = false) (h : Gap gap) :
      Gap ('#' :: body ++ '\n' :: gap)

/-- What may follow such space. -/
def IsGapEnd (cs : List Char) : Prop := ∀ c ∈ cs.head?, isSpaceChar c = false ∧ c ≠ '#'

/-- No gap is read where none begins. -/
theorem readGap?_end (h : IsGapEnd rest) (n : Nat) : readGap? rest n = some ([], rest) := by
  cases n with
  | zero => rfl
  | succ n =>
    cases rest with
    | nil => rfl
    | cons c more =>
      obtain ⟨hspace, hhash⟩ := h c rfl
      simp only [isSpaceChar, Bool.or_eq_false_iff, decide_eq_false_iff_not] at hspace
      rw [readGap?]
      · simp [hspace.1.1, hspace.1.2]
      · exact hhash
      · exact fun _ heq _ => hspace.2 heq

/-- A space character is one more of a gap. -/
theorem readGap?_space {c : Char} (hc : isBlankChar c = true ∨ c = '\n') (n : Nat) :
    readGap? (c :: cs) (n + 1) = (readGap? cs n).cons c := by
  have hhash : c ≠ '#' := by
    rintro rfl
    exact absurd hc (by decide)
  have hreturn : c ≠ '\r' := by
    rintro rfl
    exact absurd hc (by decide)
  rw [readGap?]
  · simp [hc]
  · exact hhash
  · exact fun _ heq _ => hreturn heq

/-- Space inside brackets is read again. -/
theorem readGap?_gap {gap : List Char} (h : Gap gap) (hrest : IsGapEnd rest) {n : Nat}
    (hn : gap.length ≤ n) : readGap? (gap ++ rest) n = some (gap, rest) := by
  induction h generalizing n with
  | nil => exact readGap?_end hrest n
  | space hc _ ih =>
    obtain ⟨m, rfl⟩ : ∃ m, n = m + 1 := ⟨n - 1, by simp at hn; omega⟩
    rw [List.cons_append, readGap?_space hc, ih (by simpa using hn)]
    rfl
  | @comment body gap hbody _ ih =>
    obtain ⟨m, rfl⟩ : ∃ m, n = m + 2 := ⟨n - 2, by simp at hn; omega⟩
    have hread : readComment? ('#' :: body ++ '\n' :: (gap ++ rest)) =
        some ('#' :: body, '\n' :: (gap ++ rest)) := readComment?_comment hbody (by simp)
    rw [List.append_assoc, List.cons_append, List.cons_append, readGap?]
    rw [List.cons_append] at hread
    rw [hread]
    simp only
    rw [readGap?_space (.inr rfl), ih (by simp at hn; omega)]
    simp [Reading.cons]

/-- Space inside brackets that ends where a line goes on is kept as such space. -/
theorem readGap?_sound {n : Nat} {gap : List Char} (h : readGap? cs n = some (gap, rest))
    (hne : rest ≠ []) (hrest : ∀ c ∈ rest.head?, c ≠ '\n' ∧ c ≠ '\r') : Gap gap := by
  have hstrong :
      Gap gap ∧ (gap = [] → cs = rest) ∧ ∀ c ∈ gap.head?, c = '\n' ∨ cs.head? = some c := by
    induction n generalizing cs gap with
    | zero =>
      cases h
      exact ⟨.nil, fun _ => rfl, by simp⟩
    | succ n ih =>
      unfold readGap? at h
      split at h
      · split at h
        · next more comment behind hcomment =>
          obtain ⟨⟨inner, last⟩, hinner, hpair⟩ := Option.map_eq_some_iff.1 h
          cases hpair
          obtain ⟨hplain, hsplit, hstop⟩ := readComment?_sound hcomment
          obtain ⟨hgap, hnil, hhead⟩ := ih hinner
          obtain ⟨body, rfl⟩ : ∃ body, comment = '#' :: body := by
            cases comment with
            | nil =>
              rw [List.nil_append] at hsplit
              have := hstop '#' (by rw [← hsplit]; rfl)
              exact absurd this (by decide)
            | cons d ds => exact ⟨ds, by rw [(List.cons.inj hsplit).1]⟩
          -- Behind the comment its line ends, for else the text would go on in the comment.
          cases inner with
          | nil =>
            obtain rfl := hnil rfl
            obtain ⟨c, ds, rfl⟩ := List.exists_cons_of_ne_nil hne
            rcases hstop c rfl with hline | hreturn
            · exact absurd hline (hrest c rfl).1
            · exact absurd hreturn (hrest c rfl).2
          | cons c ds =>
            have hc : c = '\n' := by
              rcases hhead c rfl with hline | hsame
              · exact hline
              · rcases hstop c hsame with hline | rfl
                · exact hline
                · cases hgap with
                  | space hspace _ => exact absurd hspace (by decide)
            subst hc
            cases hgap with
            | space _ hgap => exact ⟨.comment hplain hgap, by simp, by simp⟩
        · cases h
      · obtain ⟨inner, rfl, hinner⟩ := Reading.cons_eq_some h
        obtain ⟨hgap, -, -⟩ := ih hinner
        exact ⟨.space (.inr rfl) hgap, by simp, by simp⟩
      · next c more _ _ =>
        split at h
        · next hspace =>
          obtain ⟨inner, rfl, hinner⟩ := Reading.cons_eq_some h
          obtain ⟨hgap, -, -⟩ := ih hinner
          exact ⟨.space (by simpa using hspace) hgap, by simp, by simp⟩
        · cases h
          exact ⟨.nil, fun _ => rfl, by simp⟩
      · cases h
        exact ⟨.nil, fun _ => rfl, by simp⟩
  exact hstrong.1

/-! ## Scalars -/

/-- What may follow a value: nothing in which a value could run on. -/
structure IsValueEnd (cs : List Char) : Prop where
  head : ∀ c ∈ cs.head?, isScalarChar c = false
  quoteFree : IsQuoteFree cs
  noTime : ∀ d more, cs = ' ' :: d :: more → d.isDigit = false

/-- A run of scalar characters before the end of a value is taken whole. -/
theorem takeScalar_run {run other : List Char} (hrun : ∀ c ∈ run, isScalarChar c = true)
    (h : IsValueEnd other) : takeScalar (run ++ other) = (run, other) := by
  have htake := takeWhile_append_of_stop hrun h.head
  rw [takeScalar, htake, List.drop_left' rfl]
  split
  · next _ d more =>
    rw [h.noTime d more rfl, Bool.false_and, if_neg (by decide)]
  · rfl

/-- A date goes on behind a space with a time, which begins with a digit. -/
theorem takeScalar_time {run time other : List Char} {d : Char}
    (hrun : ∀ c ∈ run, isScalarChar c = true) (htime : ∀ c ∈ d :: time, isScalarChar c = true)
    (hdate : (d.isDigit && (readDate? run).any fun p => p.2.isEmpty) = true)
    (h : ∀ c ∈ other.head?, isScalarChar c = false) :
    takeScalar (run ++ ' ' :: d :: (time ++ other)) = (run ++ ' ' :: d :: time, other) := by
  have hspace : ∀ c ∈ (' ' :: d :: (time ++ other)).head?, isScalarChar c = false := by
    rintro c ⟨⟩
    decide
  have htake : (d :: (time ++ other)).takeWhile isScalarChar = d :: time :=
    takeWhile_append_of_stop htime h
  rw [takeScalar, takeWhile_append_of_stop hrun hspace, List.drop_left' rfl]
  simp only
  rw [if_pos hdate, htake, ← List.cons_append, List.drop_left' rfl]

/-- A run is taken, and, where it is a date, also a time behind a blank. -/
theorem takeScalar_cases (cs : List Char) :
    (takeScalar cs).1 = cs.takeWhile isScalarChar ∨
      ∃ d time, (takeScalar cs).1 = cs.takeWhile isScalarChar ++ ' ' :: d :: time ∧
        (∀ c ∈ d :: time, isScalarChar c = true) ∧
        (d.isDigit && (readDate? (cs.takeWhile isScalarChar)).any fun p => p.2.isEmpty) = true := by
  rw [takeScalar]
  split
  · next d more hrest =>
    split
    · next hdate =>
      have hdigit : d.isDigit = true := (Bool.and_eq_true_iff.1 hdate).1
      have hd : isScalarChar d = true := by simp [isScalarChar, Char.isAlphanum, hdigit]
      have hcons : (d :: more).takeWhile isScalarChar = d :: more.takeWhile isScalarChar := by
        simp [hd]
      refine .inr ⟨d, more.takeWhile isScalarChar, by simp only [hcons], ?_, hdate⟩
      rw [← hcons]
      exact fun c hc => List.mem_takeWhile_imp hc
    · exact .inl rfl
  · exact .inl rfl

/-- A scalar is taken alike before every end of a value. -/
theorem takeScalar_local (cs : List Char) (hne : (takeScalar cs).1 ≠ []) :
    (∃ c more, (takeScalar cs).1 = c :: more ∧ isScalarChar c = true) ∧
      ∀ other, IsValueEnd other →
        takeScalar ((takeScalar cs).1 ++ other) = ((takeScalar cs).1, other) := by
  have hrun : ∀ c ∈ cs.takeWhile isScalarChar, isScalarChar c = true :=
    fun c hc => List.mem_takeWhile_imp hc
  have hhead {more : List Char} (hne : cs.takeWhile isScalarChar ≠ []) :
      ∃ c last, cs.takeWhile isScalarChar ++ more = c :: last ∧ isScalarChar c = true := by
    obtain ⟨c, last, hcons⟩ := List.exists_cons_of_ne_nil hne
    exact ⟨c, last ++ more, by rw [hcons]; rfl, hrun c (hcons ▸ List.mem_cons_self)⟩
  rcases takeScalar_cases cs with hplain | ⟨d, time, htake, htime, hdate⟩
  · rw [hplain] at hne ⊢
    refine ⟨?_, fun other hother => takeScalar_run hrun hother⟩
    have := @hhead [] hne
    rwa [List.append_nil] at this
  · rw [htake]
    refine ⟨hhead fun hnil => ?_, fun other hother => ?_⟩
    · rw [hnil] at hdate
      exact absurd (Bool.and_eq_true_iff.1 hdate).2 (by decide)
    · rw [List.append_assoc]
      exact takeScalar_time hrun htime hdate hother.head

/-- A scalar is read without looking behind it. -/
theorem readScalar?_local {s : Scalar} {run : List Char}
    (h : readScalar? cs = some ((s, run), rest)) :
    (∃ c more, run = c :: more ∧ isScalarChar c = true) ∧
      ∀ other, IsValueEnd other → readScalar? (run ++ other) = some ((s, run), other) := by
  rw [readScalar?] at h
  obtain ⟨scalar, hscalar, hpair⟩ := Option.map_eq_some_iff.1 h
  cases hpair
  have hne : (takeScalar cs).1 ≠ [] := by
    intro hnil
    rw [hnil, show Scalar.ofChars? [] = none from rfl] at hscalar
    cases hscalar
  obtain ⟨hhead, htake⟩ := takeScalar_local cs hne
  exact ⟨hhead, fun other hother => by rw [readScalar?, htake other hother, hscalar]; rfl⟩

end SessionHost.Toml
