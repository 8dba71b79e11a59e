import Mathlib.Data.List.DropRight
import SessionHost.Text.Blank
import SessionHost.Text.Decimal
import SessionHost.Text.Split
import SessionHost.Text.Utf8

/-!
# How texts are spelled

What the functions on texts find, said without them: bytes spell a text when they are its UTF-8
form, a trimmed text is what stands between two runs of blanks, a text is cut at its first
separator, and digits spell a number.

Main definitions:

- `Padded`, `Tight`: blanks around characters, and characters that neither begin nor end with one.
- `SpellsUnsigned`: characters spell a number within a bound.

Main results:

- Theorem `ofUtf8?_eq_some_iff`: strict reading inverts `utf8Bytes`.
- Theorems `trimChars_eq_iff`, `cutAt?_eq_some_iff`, `readUnsigned?_eq_some_iff`: what trimming,
  cutting and reading a number find.
- Theorem `spellsUnsigned_toDigits`: a number is spelled by its digits.
-/

namespace SessionHost.Text

/-! ## Bytes -/

theorem toList_eq_data (b : ByteArray) : b.toList = b.data.toList := by
  have hloop (i : Nat) (r : List UInt8) :
      ByteArray.toList.loop b i r = r.reverse ++ b.data.toList.drop i := by
    fun_induction ByteArray.toList.loop b i r with
    | case1 i r hlt ih =>
      have hlength : i < b.data.toList.length := by simpa using hlt
      have hget : b.get! i = b.data.toList[i] := by
        simp [ByteArray.get!, getElem!_pos, hlt]
      rw [ih, List.drop_eq_getElem_cons hlength, hget]
      simp
    | case2 i r hge =>
      rw [List.drop_eq_nil_of_le (by simpa using hge), List.append_nil]
  simpa [ByteArray.toList] using hloop 0 []

theorem toByteArray_utf8Bytes (s : String) : (utf8Bytes s).toByteArray = s.toByteArray := by
  refine ByteArray.ext (Array.ext' ?_)
  rw [List.toList_data_toByteArray, utf8Bytes, toList_eq_data]
  rfl

/-- Two texts are encoded one by one. -/
@[simp]
theorem utf8Bytes_append (s t : String) : utf8Bytes (s ++ t) = utf8Bytes s ++ utf8Bytes t := by
  simp [utf8Bytes, toList_eq_data, String.toByteArray_append]

/-- A text is encoded character by character. -/
theorem utf8Bytes_eq_flatMap (s : String) :
    utf8Bytes s = s.toList.flatMap String.utf8EncodeChar := by
  rw [utf8Bytes, toList_eq_data, String.toUTF8, ← String.utf8Encode_toList, List.utf8Encode,
    List.data_toByteArray]

/-- Strict reading inverts `utf8Bytes`. -/
theorem ofUtf8?_eq_some_iff {bytes : List UInt8} {s : String} :
    ofUtf8? bytes = some s ↔ utf8Bytes s = bytes := by
  have hread : ofUtf8? bytes = some s ↔ s.toByteArray = bytes.toByteArray := by
    unfold ofUtf8? String.fromUTF8?
    split
    · rename_i hvalid
      rw [Option.some.injEq, ← String.toByteArray_inj, String.fromUTF8]
      exact eq_comm
    · rename_i hinvalid
      refine ⟨fun h => (by cases h), fun h => absurd ?_ hinvalid⟩
      exact h ▸ s.isValidUTF8
  rw [hread, ← toByteArray_utf8Bytes, List.toByteArray_inj]

/-- An encoded text is decoded. -/
@[simp]
theorem ofUtf8?_utf8Bytes (s : String) : ofUtf8? (utf8Bytes s) = some s :=
  ofUtf8?_eq_some_iff.2 rfl

/-- Bytes that spell no text are refused. -/
theorem ofUtf8?_eq_none_iff {bytes : List UInt8} :
    ofUtf8? bytes = none ↔ ∀ s, utf8Bytes s ≠ bytes := by
  simp only [Option.eq_none_iff_forall_not_mem, Option.mem_def, ofUtf8?_eq_some_iff, ne_eq]

/-! ## Blanks -/

/-- Characters with nothing but blanks around them. -/
def Padded (core cs : List Char) : Prop :=
  ∃ before after, cs = before ++ core ++ after ∧ (∀ c ∈ before, isBlank c = true) ∧
    ∀ c ∈ after, isBlank c = true

/-- Neither the first nor the last character is a blank. -/
structure Tight (cs : List Char) : Prop where
  head : ∀ c ∈ cs.head?, isBlank c = false
  last : ∀ c ∈ cs.getLast?, isBlank c = false

/-- Whether a text is tight is seen at its ends. -/
theorem tight_of_all {cs : List Char} (hhead : (cs.head?.all fun c => !isBlank c) = true)
    (hlast : (cs.getLast?.all fun c => !isBlank c) = true) : Tight cs where
  head c hc := by
    rw [Option.mem_def.1 hc] at hhead
    simpa using hhead
  last c hc := by
    rw [Option.mem_def.1 hc] at hlast
    simpa using hlast

/-- Texts without blanks around them make one without blanks around it. -/
theorem Tight.append {cs ds : List Char} (hcs : Tight cs) (hds : Tight ds) : Tight (cs ++ ds) where
  head c hc := by
    rw [Option.mem_def, List.head?_append, Option.or_eq_some_iff] at hc
    exact hc.elim (hcs.head c) fun h => hds.head c h.2
  last c hc := by
    rw [Option.mem_def, List.getLast?_append, Option.or_eq_some_iff] at hc
    exact hc.elim (hds.last c) fun h => hcs.last c h.2

theorem padded_self (cs : List Char) : Padded cs cs :=
  ⟨[], [], by rw [List.nil_append, List.append_nil], fun _ hc => absurd hc List.not_mem_nil,
    fun _ hc => absurd hc List.not_mem_nil⟩

/-- Dropping from the end is the library's own function. -/
theorem dropEndWhile_eq (p : Char → Bool) (cs : List Char) :
    dropEndWhile p cs = cs.rdropWhile p := rfl

/-- A run of blanks at an end plays no part. -/
theorem trimChars_append {before cs after : List Char} (hbefore : ∀ c ∈ before, isBlank c = true)
    (hafter : ∀ c ∈ after, isBlank c = true) :
    trimChars (before ++ cs ++ after) = trimChars cs := by
  have hend : (after.reverse.dropWhile isBlank) = [] :=
    List.dropWhile_eq_nil_iff.2 fun c hc => hafter c (List.mem_reverse.1 hc)
  rw [trimChars, List.append_assoc, List.dropWhile_append, List.dropWhile_eq_nil_iff.2 hbefore]
  simp only [List.isEmpty_nil, if_true]
  rw [List.dropWhile_append]
  split
  · rename_i hnil
    rw [List.isEmpty_iff] at hnil
    rw [trimChars, hnil, dropEndWhile_eq, dropEndWhile_eq, List.rdropWhile_nil,
      List.rdropWhile_eq_nil_iff]
    exact fun c hc => hafter c ((List.dropWhile_sublist _).mem hc)
  · rw [trimChars, dropEndWhile, dropEndWhile, List.reverse_append, List.dropWhile_append, hend]
    rfl

/-- A text without blanks around it is not trimmed. -/
theorem trimChars_of_tight {cs : List Char} (h : Tight cs) : trimChars cs = cs := by
  have hhead : cs.dropWhile isBlank = cs := by
    rw [List.dropWhile_eq_self_iff]
    intro hl hblank
    have := h.head (cs[0]) (by simp [List.head?_eq_getElem?, hl])
    simp_all
  rw [trimChars, hhead, dropEndWhile_eq, List.rdropWhile_eq_self_iff]
  intro hne hblank
  have := h.last (cs.getLast hne) (by simp [List.getLast?_eq_some_getLast hne])
  simp_all

/-- What is trimmed has no blanks around it. -/
theorem tight_trimChars (cs : List Char) : Tight (trimChars cs) where
  head c hc := by
    -- What begins the trimmed text began it before its end was trimmed.
    obtain ⟨after, hafter⟩ := List.rdropWhile_prefix (p := isBlank) (l := cs.dropWhile isBlank)
    have hfirst : c ∈ (cs.dropWhile isBlank).head? := by
      rw [← hafter, Option.mem_def, List.head?_append, Option.or_eq_some_iff]
      exact .inl hc
    have hnot := List.head?_dropWhile_not isBlank cs
    rw [Option.mem_def.1 hfirst] at hnot
    exact hnot
  last c hc := by
    have hne : trimChars cs ≠ [] := fun h => by rw [h] at hc; cases hc
    have hlast := List.rdropWhile_last_not isBlank (cs.dropWhile isBlank) hne
    obtain rfl : (trimChars cs).getLast hne = c :=
      Option.some.inj ((List.getLast?_eq_some_getLast hne).symm.trans hc)
    exact Bool.eq_false_iff.2 hlast

/-- Trimming takes only blanks away. -/
theorem padded_trimChars (cs : List Char) : Padded (trimChars cs) cs := by
  refine ⟨cs.takeWhile isBlank, (cs.dropWhile isBlank).rtakeWhile isBlank, ?_,
    fun c hc => List.mem_takeWhile_imp hc, fun c hc => List.mem_rtakeWhile_imp hc⟩
  rw [trimChars, dropEndWhile_eq, List.append_assoc, List.rdropWhile_append_rtakeWhile,
    List.takeWhile_append_dropWhile]

/-- What trimming finds. -/
theorem trimChars_eq_iff {cs core : List Char} :
    trimChars cs = core ↔ Padded core cs ∧ Tight core := by
  constructor
  · rintro rfl
    exact ⟨padded_trimChars cs, tight_trimChars cs⟩
  · rintro ⟨⟨before, after, rfl, hbefore, hafter⟩, htight⟩
    rw [trimChars_append hbefore hafter, trimChars_of_tight htight]

/-- Trimming finds nothing when there are only blanks. -/
theorem trimChars_eq_nil_iff {cs : List Char} :
    trimChars cs = [] ↔ ∀ c ∈ cs, isBlank c = true := by
  rw [trimChars, dropEndWhile_eq, List.rdropWhile_eq_nil_iff]
  constructor
  · intro h c hc
    rw [← List.takeWhile_append_dropWhile (p := isBlank) (l := cs), List.mem_append] at hc
    exact hc.elim List.mem_takeWhile_imp (h c)
  · exact fun h c hc => h c ((List.dropWhile_sublist _).mem hc)

/-- Trimming at the front first plays no part. -/
theorem trimChars_dropWhile (cs : List Char) :
    trimChars (cs.dropWhile isBlank) = trimChars cs := by
  have h : trimChars (cs.takeWhile isBlank ++ cs.dropWhile isBlank ++ []) =
      trimChars (cs.dropWhile isBlank) :=
    trimChars_append (fun c hc => List.mem_takeWhile_imp hc) fun c hc => absurd hc List.not_mem_nil
  rw [List.append_nil, List.takeWhile_append_dropWhile] at h
  exact h.symm

/-- Trimming at the end first plays no part. -/
theorem trimChars_dropEndWhile (cs : List Char) :
    trimChars (dropEndWhile isBlank cs) = trimChars cs := by
  have h : trimChars ([] ++ cs.rdropWhile isBlank ++ cs.rtakeWhile isBlank) =
      trimChars (cs.rdropWhile isBlank) :=
    trimChars_append (fun c hc => absurd hc List.not_mem_nil) fun c hc => List.mem_rtakeWhile_imp hc
  rw [List.nil_append, List.rdropWhile_append_rtakeWhile] at h
  exact h.symm

/-- Where a separator stands that is no blank, a text is trimmed on both sides of it. -/
theorem trimChars_cut {sep : Char} (hsep : isBlank sep = false) (front back : List Char) :
    trimChars (front ++ sep :: back) =
      front.dropWhile isBlank ++ sep :: dropEndWhile isBlank back := by
  have hfront : (front ++ sep :: back).dropWhile isBlank =
      front.dropWhile isBlank ++ sep :: back := by
    rw [List.dropWhile_append]
    split
    · rename_i hnil
      rw [List.isEmpty_iff.1 hnil, List.dropWhile_cons_of_neg (by simp [hsep]), List.nil_append]
    · rfl
  have hback : ((front.dropWhile isBlank ++ sep :: back).reverse).dropWhile isBlank =
      back.reverse.dropWhile isBlank ++ (front.dropWhile isBlank ++ [sep]).reverse := by
    rw [List.append_cons, List.reverse_append, List.dropWhile_append]
    split
    · rename_i hnil
      rw [List.isEmpty_iff.1 hnil, List.reverse_append, List.reverse_singleton,
        List.singleton_append, List.dropWhile_cons_of_neg (by simp [hsep]), List.nil_append]
    · rfl
  rw [trimChars, hfront, dropEndWhile, hback, List.reverse_append, List.reverse_reverse,
    List.append_assoc, List.singleton_append, dropEndWhile]

/-! ## Cuts -/

section Cuts

variable {sep : Char} {cs front back : List Char}

/-- A text is cut at its first separator. -/
theorem cutAt?_eq_some_iff :
    cutAt? sep cs = some (front, back) ↔ cs = front ++ sep :: back ∧ sep ∉ front := by
  induction cs generalizing front back with
  | nil => simp [cutAt?]
  | cons c rest ih =>
    by_cases hc : c = sep
    · subst hc
      cases front with
      | nil => simp [cutAt?]
      | cons d more =>
        simp only [cutAt?, if_true, Option.some.injEq, Prod.mk.injEq, List.cons_append,
          List.cons.injEq, List.mem_cons, not_or]
        exact ⟨fun h => (by cases h.1), fun h => absurd h.1.1 h.2.1⟩
    · have hsep : sep ≠ c := fun h => hc h.symm
      cases front with
      | nil => simp [cutAt?, hc]
      | cons d more =>
        simp only [cutAt?, if_neg hc, Option.map_eq_some_iff, Prod.exists, ih, Prod.mk.injEq,
          List.cons.injEq, List.cons_append, List.mem_cons, not_or]
        constructor
        · rintro ⟨x, y, ⟨rfl, hx⟩, ⟨rfl, rfl⟩, rfl⟩
          exact ⟨⟨rfl, rfl⟩, hsep, hx⟩
        · rintro ⟨⟨rfl, rfl⟩, -, hmore⟩
          exact ⟨more, back, ⟨rfl, hmore⟩, ⟨rfl, rfl⟩, rfl⟩

/-- A text is not cut exactly where the separator is missing. -/
theorem cutAt?_eq_none_iff : cutAt? sep cs = none ↔ sep ∉ cs := by
  induction cs with
  | nil => simp [cutAt?]
  | cons c rest ih =>
    by_cases hc : c = sep
    · simp [cutAt?, hc]
    · simp [cutAt?, hc, ih, Ne.symm hc]

end Cuts

/-! ## Parts -/

section Parts

variable {sep : Char} {cs part : List Char}

theorem splitAt_ne_nil (sep : Char) (cs : List Char) : splitAt sep cs ≠ [] := by
  cases cs with
  | nil => exact List.cons_ne_nil _ _
  | cons c rest =>
    rw [splitAt]
    split
    · exact List.cons_ne_nil _ _
    · split <;> exact List.cons_ne_nil _ _

/-- Another character in front belongs to the first part. -/
theorem splitAt_cons_of_ne {c : Char} (h : c ≠ sep) {parts : List (List Char)}
    (hrest : splitAt sep cs = part :: parts) : splitAt sep (c :: cs) = (c :: part) :: parts := by
  rw [splitAt, if_neg h, hrest]

/-- Without a separator there is one part. -/
theorem splitAt_of_not_mem (h : sep ∉ cs) : splitAt sep cs = [cs] := by
  induction cs with
  | nil => rfl
  | cons c rest ih =>
    rw [List.mem_cons, not_or] at h
    exact splitAt_cons_of_ne (Ne.symm h.1) (ih h.2)

/-- The parts before a separator, and those behind it. -/
theorem splitAt_append (front back : List Char) :
    splitAt sep (front ++ sep :: back) = splitAt sep front ++ splitAt sep back := by
  induction front with
  | nil => simp [splitAt]
  | cons c rest ih =>
    by_cases hc : c = sep
    · simp only [List.cons_append, splitAt, if_pos hc, ih]
    · obtain ⟨part, parts, hrest⟩ := List.exists_cons_of_ne_nil (splitAt_ne_nil sep rest)
      rw [hrest] at ih
      rw [List.cons_append, splitAt_cons_of_ne hc ih, splitAt_cons_of_ne hc hrest]
      rfl

/-- No part has the separator in it. -/
theorem not_mem_of_mem_splitAt (h : part ∈ splitAt sep cs) : sep ∉ part := by
  induction cs generalizing part with
  | nil =>
    obtain rfl := List.mem_singleton.1 h
    exact List.not_mem_nil
  | cons c rest ih =>
    by_cases hc : c = sep
    · rw [splitAt, if_pos hc] at h
      rcases List.mem_cons.1 h with rfl | h
      · exact List.not_mem_nil
      · exact ih h
    · obtain ⟨first, parts, hrest⟩ := List.exists_cons_of_ne_nil (splitAt_ne_nil sep rest)
      rw [splitAt_cons_of_ne hc hrest] at h
      rw [hrest] at ih
      rcases List.mem_cons.1 h with rfl | h
      · rw [List.mem_cons, not_or]
        exact ⟨Ne.symm hc, ih List.mem_cons_self⟩
      · exact ih (List.mem_cons_of_mem _ h)

/-- The first part stands before the first separator. -/
theorem splitAt_eq_cons_iff {parts : List (List Char)} :
    splitAt sep cs = part :: parts ↔
      sep ∉ part ∧ ((cs = part ∧ parts = []) ∨
        ∃ back, cs = part ++ sep :: back ∧ splitAt sep back = parts) := by
  constructor
  · intro h
    have hpart : sep ∉ part := not_mem_of_mem_splitAt (h ▸ List.mem_cons_self)
    refine ⟨hpart, ?_⟩
    cases hcut : cutAt? sep cs with
    | none =>
      rw [splitAt_of_not_mem (cutAt?_eq_none_iff.1 hcut)] at h
      obtain ⟨rfl, rfl⟩ := List.cons.inj h
      exact .inl ⟨rfl, rfl⟩
    | some cut =>
      obtain ⟨hcs, hfront⟩ := cutAt?_eq_some_iff.1 hcut
      rw [hcs, splitAt_append, splitAt_of_not_mem hfront, List.singleton_append] at h
      obtain ⟨rfl, hback⟩ := List.cons.inj h
      exact .inr ⟨cut.2, hcs, hback⟩
  · rintro ⟨hpart, ⟨rfl, rfl⟩ | ⟨back, rfl, rfl⟩⟩
    · exact splitAt_of_not_mem hpart
    · rw [splitAt_append, splitAt_of_not_mem hpart, List.singleton_append]

end Parts

/-! ## Numbers -/

/-- Characters spell a number within a bound: digits, with a plus sign in front or without. -/
def SpellsUnsigned (bound : Nat) (cs : List Char) (n : Nat) : Prop :=
  ∃ sign digits, cs = sign ++ digits ∧ (sign = [] ∨ sign = ['+']) ∧ digits ≠ [] ∧
    (∀ c ∈ digits, c.isDigit = true) ∧ Nat.ofDigitChars 10 digits 0 = n ∧ n ≤ bound

/-- Digits behind a number go on with it; nothing else is read. -/
theorem digitsAfter?_eq_some_iff {acc n : Nat} {cs : List Char} :
    digitsAfter? acc cs = some n ↔
      (∀ c ∈ cs, c.isDigit = true) ∧ Nat.ofDigitChars 10 cs acc = n := by
  induction cs generalizing acc with
  | nil => simp [digitsAfter?]
  | cons c rest ih =>
    by_cases hc : c.isDigit = true
    · simp [digitsAfter?, digitValue?, hc, ih, Nat.ofDigitChars_cons, Nat.mul_comm]
    · simp [digitsAfter?, digitValue?, hc]

/-- A number is read from digits only, and from at least one. -/
theorem digitsValue?_eq_some_iff {n : Nat} {cs : List Char} :
    digitsValue? cs = some n ↔
      cs ≠ [] ∧ (∀ c ∈ cs, c.isDigit = true) ∧ Nat.ofDigitChars 10 cs 0 = n := by
  cases cs with
  | nil => simp [digitsValue?]
  | cons c rest => simp [digitsValue?, digitsAfter?_eq_some_iff]

theorem dropPlus_of_ne {c : Char} (h : c ≠ '+') (rest : List Char) :
    dropPlus (c :: rest) = c :: rest := by
  unfold dropPlus
  split
  · rename_i heq
    exact absurd (List.cons.inj heq).1 h
  · rfl

/-- What is read as a number. -/
theorem readUnsigned?_eq_some_iff {bound n : Nat} {cs : List Char} :
    readUnsigned? bound cs = some n ↔ SpellsUnsigned bound cs n := by
  simp only [readUnsigned?, Option.filter_eq_some_iff, digitsValue?_eq_some_iff, decide_eq_true_eq]
  constructor
  · rintro ⟨⟨hne, hdigits, hvalue⟩, hle⟩
    cases cs with
    | nil => exact absurd rfl hne
    | cons c rest =>
      by_cases hc : c = '+'
      · subst hc
        exact ⟨['+'], rest, rfl, .inr rfl, hne, hdigits, hvalue, hle⟩
      · rw [dropPlus_of_ne hc] at hne hdigits hvalue
        exact ⟨[], c :: rest, rfl, .inl rfl, hne, hdigits, hvalue, hle⟩
  · rintro ⟨sign, digits, rfl, rfl | rfl, hne, hdigits, hvalue, hle⟩
    · obtain ⟨c, rest, rfl⟩ := List.exists_cons_of_ne_nil hne
      have hc : c ≠ '+' := by
        rintro rfl
        exact absurd (hdigits '+' List.mem_cons_self) (by decide)
      rw [List.nil_append, dropPlus_of_ne hc]
      exact ⟨⟨hne, hdigits, hvalue⟩, hle⟩
    · exact ⟨⟨hne, hdigits, hvalue⟩, hle⟩

/-- A number is spelled by its digits. -/
theorem spellsUnsigned_toDigits {bound n : Nat} (h : n ≤ bound) :
    SpellsUnsigned bound (Nat.toDigits 10 n) n :=
  ⟨[], _, rfl, .inl rfl, Nat.toDigits_ne_nil,
    fun _ hc => Nat.isDigit_of_mem_toDigits (by decide) (by decide) hc,
    Nat.ofDigitChars_ten_toDigits, h⟩

/-- No digit is a blank. -/
theorem isBlank_of_isDigit {c : Char} (h : c.isDigit = true) : isBlank c = false := by
  simp only [Char.isDigit, Bool.and_eq_true, decide_eq_true_eq, ge_iff_le] at h
  have hlow : 48 ≤ c.toNat := h.1
  have hhigh : c.toNat ≤ 57 := h.2
  simp only [isBlank, Bool.or_eq_false_iff, Bool.and_eq_false_iff, decide_eq_false_iff_not,
    beq_eq_false_iff_ne]
  omega

/-- Nothing around a number belongs to it. -/
theorem tight_of_spellsUnsigned {bound n : Nat} {cs : List Char} (h : SpellsUnsigned bound cs n) :
    Tight cs := by
  obtain ⟨sign, digits, rfl, hsign, hne, hdigits, -, -⟩ := h
  have hclear : ∀ c ∈ sign ++ digits, isBlank c = false := by
    intro c hc
    obtain hc | hc := List.mem_append.1 hc
    · obtain rfl | rfl := hsign
      · cases hc
      · obtain rfl := List.mem_singleton.1 hc
        decide
    · exact isBlank_of_isDigit (hdigits c hc)
  exact ⟨fun c hc => hclear c (List.mem_of_head? hc),
    fun c hc => hclear c (List.mem_of_getLast? hc)⟩

end SessionHost.Text
