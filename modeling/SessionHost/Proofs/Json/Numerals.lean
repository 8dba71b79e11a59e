import Mathlib.Data.Nat.Basic
import SessionHost.Json.Number

/-!
# Numerals in JSON

Which characters spell a numeral, and what is read then.  The decimal text of a whole number is a
numeral, and as long as the number fits 64 bits the value of that numeral is the number.

Main definitions:

- `Numeral.Spelled`: characters spell a numeral.
- `numeralOf`: the numeral of a whole number.

Main results:

- Theorem `Numeral.Spelled.ofChars?`: a numeral is read with its parts.
- Theorem `spelled_signedDecimal`: the text of a whole number spells its numeral.
- Theorem `value?_numeralOf`: a numeral of 64 bits has the value that it was written for.
-/

namespace SessionHost.Json

/-! ## What characters spell -/

/-- Characters write decimal digits, at least one. -/
def Digits (ds : List Nat) (cs : List Char) : Prop :=
  cs = ds.map Nat.digitChar ∧ (∀ d ∈ ds, d < 10) ∧ ds ≠ []

instance (ds : List Nat) (cs : List Char) : Decidable (Digits ds cs) :=
  inferInstanceAs (Decidable (_ ∧ _ ∧ _))

/-- The part of a numeral behind its point. -/
inductive FractionSpelled : List Nat → List Char → Prop where
  | absent : FractionSpelled [] []
  | given {ds : List Nat} {cs : List Char} (h : Digits ds cs) : FractionSpelled ds ('.' :: cs)

/-- The exponent of a numeral. -/
inductive ExponentSpelled : Option ExponentPart → List Char → Prop where
  | absent : ExponentSpelled none []
  | given {mark : Char} {negative : Bool} {sign : List Char} {ds : List Nat} {cs : List Char}
      (hmark : mark = 'e' ∨ mark = 'E')
      (hsign : (negative, sign) ∈ [(true, ['-']), (false, ['+']), (false, [])])
      (h : Digits ds cs) : ExponentSpelled (some ⟨negative, ds⟩) (mark :: (sign ++ cs))

/-- The digits before the point do not begin with a zero, unless it is the only one. -/
inductive Numeral.Spelled : Numeral → List Char → Prop where
  | parts {negative : Bool} {whole fraction : List Nat} {exponent : Option ExponentPart}
      {wholeChars fractionChars exponentChars : List Char} (hwhole : Digits whole wholeChars)
      (hzero : whole = [0] ∨ whole.head? ≠ some 0)
      (hfraction : FractionSpelled fraction fractionChars)
      (hexponent : ExponentSpelled exponent exponentChars) :
      Numeral.Spelled ⟨negative, whole, fraction, exponent⟩
        ((if negative then ['-'] else []) ++ (wholeChars ++ (fractionChars ++ exponentChars)))

/-- Digits alone spell a numeral, with a sign in front or without. -/
theorem Digits.spelled {ds : List Nat} {cs : List Char} (h : Digits ds cs)
    (hzero : ds = [0] ∨ ds.head? ≠ some 0) (negative : Bool) :
    (⟨negative, ds, [], none⟩ : Numeral).Spelled ((if negative then ['-'] else []) ++ cs) := by
  have hspelled := @Numeral.Spelled.parts negative _ _ _ _ _ _ h hzero .absent .absent
  rwa [List.append_nil, List.append_nil] at hspelled

/-! ## Digits -/

/-- A digit is read back. -/
theorem digitValue?_digitChar {d : Nat} (h : d < 10) :
    Text.digitValue? (Nat.digitChar d) = some d := by
  revert d
  decide

theorem isDigit_digitChar {d : Nat} (h : d < 10) : (Nat.digitChar d).isDigit = true := by
  revert d
  decide

/-- Digits are taken up to the first character that is none. -/
theorem Digits.take {ds : List Nat} {cs rest : List Char} (h : Digits ds cs)
    (hrest : ∀ c ∈ rest.head?, Text.digitValue? c = none) :
    takeDigits (cs ++ rest) = (ds, rest) := by
  obtain ⟨rfl, hds, -⟩ := h
  induction ds with
  | nil =>
    cases rest with
    | nil => rfl
    | cons c more => simp [takeDigits, hrest c rfl]
  | cons d more ih =>
    have hd := digitValue?_digitChar (hds d List.mem_cons_self)
    simp [takeDigits, hd, ih fun e he => hds e (List.mem_cons_of_mem _ he)]

theorem Digits.isDigit {ds : List Nat} {cs : List Char} (h : Digits ds cs) {c : Char}
    (hc : c ∈ cs) : c.isDigit = true := by
  obtain ⟨rfl, hds, -⟩ := h
  obtain ⟨d, hd, rfl⟩ := List.mem_map.1 hc
  exact isDigit_digitChar (hds d hd)

/-- Digits begin with a digit. -/
theorem Digits.cons {ds : List Nat} {cs : List Char} (h : Digits ds cs) :
    ∃ c rest, cs = c :: rest ∧ c.isDigit = true := by
  have hne : cs ≠ [] := by
    obtain ⟨rfl, -, hne⟩ := h
    exact fun hnil => hne (List.map_eq_nil_iff.1 hnil)
  obtain ⟨c, rest, rfl⟩ := List.exists_cons_of_ne_nil hne
  exact ⟨c, rest, rfl, h.isDigit List.mem_cons_self⟩

/-- Digits are taken to their end. -/
theorem Digits.take_all {ds : List Nat} {cs : List Char} (h : Digits ds cs) :
    takeDigits cs = (ds, []) := by
  have htake : takeDigits (cs ++ []) = (ds, []) := h.take fun c hc => by cases hc
  rwa [List.append_nil] at htake

/-! ## Reading -/

/-- Behind the fraction an exponent, or nothing, is read. -/
theorem ExponentSpelled.readTail? {exponent : Option ExponentPart} {cs : List Char}
    (h : ExponentSpelled exponent cs) (negative : Bool) (whole fraction : List Nat) :
    readTail? negative whole fraction cs = some ⟨negative, whole, fraction, exponent⟩ := by
  cases h with
  | absent => rfl
  | @given mark sign' sign ds cs hmark hsign hds =>
    have hread : readExponent? (sign ++ cs) = some ⟨sign', ds⟩ := by
      obtain ⟨d, ds', rfl⟩ := List.exists_cons_of_ne_nil hds.2.2
      obtain ⟨c, cs', rfl, hc⟩ := hds.cons
      simp only [List.mem_cons, Prod.mk.injEq, List.not_mem_nil, or_false] at hsign
      obtain ⟨rfl, rfl⟩ | ⟨rfl, rfl⟩ | ⟨rfl, rfl⟩ := hsign
      · simp [readExponent?, hds.take_all]
      · simp [readExponent?, hds.take_all]
      · have hminus : c ≠ '-' := by
          rintro rfl
          cases hc
        have hplus : c ≠ '+' := by
          rintro rfl
          cases hc
        simp [readExponent?, hds.take_all, hminus, hplus]
    rw [Json.readTail?, if_pos hmark, hread]
    rfl

/-- An exponent begins with its mark. -/
theorem ExponentSpelled.head {exponent : Option ExponentPart} {cs : List Char}
    (h : ExponentSpelled exponent cs) {c : Char} (hc : c ∈ cs.head?) : c = 'e' ∨ c = 'E' := by
  cases h with
  | absent => cases hc
  | given hmark =>
    obtain rfl := Option.some.inj hc
    exact hmark

/-- An exponent does not begin with a digit. -/
theorem ExponentSpelled.no_digit {exponent : Option ExponentPart} {cs : List Char}
    (h : ExponentSpelled exponent cs) : ∀ c ∈ cs.head?, Text.digitValue? c = none := by
  intro c hc
  obtain rfl | rfl := h.head hc <;> decide

/-- The numeral whose sign has been read. -/
def Numeral.behindSign? (negative : Bool) (cs : List Char) : Option Numeral :=
  match takeDigits cs with
  | ([], _) => none
  | (0 :: _ :: _, _) => none
  | (whole, '.' :: rest) =>
    match takeDigits rest with
    | ([], _) => none
    | (fraction, rest) => readTail? negative whole fraction rest
  | (whole, rest) => readTail? negative whole [] rest

/-- A sign is read before the first digit. -/
theorem Numeral.ofChars?_sign {c : Char} (hc : c.isDigit = true) (negative : Bool)
    (cs : List Char) :
    Numeral.ofChars? ((if negative then ['-'] else []) ++ c :: cs) =
      Numeral.behindSign? negative (c :: cs) := by
  have hminus : c ≠ '-' := by
    rintro rfl
    cases hc
  cases negative with
  | true => rfl
  | false =>
    change Numeral.ofChars? (c :: cs) = _
    unfold Numeral.ofChars?
    split
    · rename_i h
      cases h
      exact absurd rfl hminus
    · rfl

/-- A numeral that is spelled is read. -/
theorem Numeral.Spelled.ofChars? {n : Numeral} {cs : List Char} (h : n.Spelled cs) :
    Numeral.ofChars? cs = some n := by
  obtain @⟨negative, whole, fraction, exponent, wholeChars, fractionChars, exponentChars, hwhole,
    hzero, hfraction, hexponent⟩ := h
  have hstop : ∀ c ∈ (fractionChars ++ exponentChars).head?, Text.digitValue? c = none := by
    cases hfraction with
    | absent => exact hexponent.no_digit
    | given =>
      rintro c ⟨⟩
      decide
  have htake := hwhole.take hstop
  obtain ⟨c, cs, rfl, hc⟩ := hwhole.cons
  rw [List.cons_append, Numeral.ofChars?_sign hc, ← List.cons_append, Numeral.behindSign?, htake]
  -- A leading zero is the only digit, so the second branch is not taken.
  have hleading : ∃ d more, whole = d :: more ∧ (d = 0 → more = []) := by
    obtain ⟨d, more, rfl⟩ := List.exists_cons_of_ne_nil hwhole.2.2
    refine ⟨d, more, rfl, ?_⟩
    rintro rfl
    simpa using hzero
  obtain ⟨d, more, rfl, hd⟩ := hleading
  have htail := fun fraction => hexponent.readTail? negative (d :: more) fraction
  cases hfraction with
  | absent =>
    have hbehind : exponentChars = [] ∨ ∃ mark rest, exponentChars = mark :: rest ∧ mark ≠ '.' := by
      cases exponentChars with
      | nil => exact .inl rfl
      | cons mark rest =>
        refine .inr ⟨mark, rest, rfl, ?_⟩
        rintro rfl
        obtain h | h := hexponent.head (c := '.') rfl <;> cases h
    obtain rfl | ⟨mark, rest, rfl, hpoint⟩ := hbehind
    · cases d with
      | zero =>
        obtain rfl := hd rfl
        exact htail []
      | succ d => exact htail []
    · cases d with
      | zero =>
        obtain rfl := hd rfl
        simp [hpoint, htail]
      | succ d => simp [hpoint, htail]
  | given hds =>
    have hrest := hds.take hexponent.no_digit
    obtain ⟨e, ds, rfl⟩ := List.exists_cons_of_ne_nil hds.2.2
    cases d with
    | zero =>
      obtain rfl := hd rfl
      simp [hrest, htail]
    | succ d => simp [hrest, htail]

/-! ## Whole numbers -/

/-- The digits of a natural number. -/
def digitsOf (n : Nat) : List Nat := (Nat.toDigits 10 n).map fun c => c.toNat - '0'.toNat

/-- The numeral of a whole number. -/
def numeralOf (i : Int) : Numeral := ⟨decide (i < 0), digitsOf i.natAbs, [], none⟩

theorem digitsOf_of_lt {n : Nat} (h : n < 10) : digitsOf n = [n] := by
  rw [digitsOf, Nat.toDigits_of_lt_base h, List.map_singleton]
  exact congrArg (fun d => [d]) (Nat.toNat_digitChar_sub_48_of_lt_ten h)

/-- The last digit of a number is what ten leaves of it. -/
theorem digitsOf_of_le {n : Nat} (h : 10 ≤ n) : digitsOf n = digitsOf (n / 10) ++ [n % 10] := by
  have hlast : n % 10 < 10 := Nat.mod_lt _ (by decide)
  rw [digitsOf, Nat.toDigits_of_base_le (by decide) h, List.map_append, ← digitsOf,
    List.map_singleton]
  exact congrArg (fun d => digitsOf (n / 10) ++ [d]) (Nat.toNat_digitChar_sub_48_of_lt_ten hlast)

/-- The value of digits behind a number. -/
def digitsBehind (acc : Nat) (ds : List Nat) : Nat := ds.foldl (fun a d => a * 10 + d) acc

/-- A digit more counts as one. -/
theorem digitsBehind_concat (acc : Nat) (ds : List Nat) (d : Nat) :
    digitsBehind acc (ds ++ [d]) = digitsBehind acc ds * 10 + d := by
  simp only [digitsBehind, List.foldl_append, List.foldl_cons, List.foldl_nil]

/-- The digits of a number make that number. -/
theorem digitsBehind_digitsOf (n : Nat) : digitsBehind 0 (digitsOf n) = n := by
  induction n using Nat.strong_induction_on with
  | _ n ih =>
    by_cases h : n < 10
    · rw [digitsOf_of_lt h]
      simp [digitsBehind]
    · have hle : 10 ≤ n := Nat.le_of_not_lt h
      rw [digitsOf_of_le hle, digitsBehind_concat, ih (n / 10) (by omega)]
      omega

/-- Only zero begins with a zero. -/
theorem digitsOf_cases (n : Nat) :
    digitsOf n = [0] ∨ ∃ k more, digitsOf n = (k + 1) :: more := by
  induction n using Nat.strong_induction_on with
  | _ n ih =>
    by_cases h : n < 10
    · rw [digitsOf_of_lt h]
      cases n with
      | zero => exact .inl rfl
      | succ k => exact .inr ⟨k, [], rfl⟩
    · have hle : 10 ≤ n := Nat.le_of_not_lt h
      rw [digitsOf_of_le hle]
      obtain hzero | ⟨k, more, hmore⟩ := ih (n / 10) (by omega)
      · have hvalue := digitsBehind_digitsOf (n / 10)
        rw [hzero] at hvalue
        have hnone : n / 10 = 0 := hvalue.symm
        omega
      · exact .inr ⟨k, more ++ [n % 10], by rw [hmore, List.cons_append]⟩

/-- More digits make no smaller number. -/
theorem le_digitsBehind (acc : Nat) (ds : List Nat) : acc ≤ digitsBehind acc ds := by
  induction ds generalizing acc with
  | nil => exact Nat.le_refl _
  | cons d rest ih =>
    have h := ih (acc * 10 + d)
    rw [digitsBehind, List.foldl_cons, ← digitsBehind]
    omega

/-- Digits fit a significand when their value does. -/
theorem fillSignificand_eq {acc : Nat} {ds : List Nat}
    (h : digitsBehind acc ds ≤ Text.maxUInt64) :
    fillSignificand acc ds = (digitsBehind acc ds, []) := by
  induction ds generalizing acc with
  | nil => rfl
  | cons d rest ih =>
    have hrest : digitsBehind (acc * 10 + d) rest ≤ Text.maxUInt64 := h
    have hnext := Nat.le_trans (le_digitsBehind (acc * 10 + d) rest) hrest
    rw [fillSignificand]
    simp only [if_pos hnext]
    exact ih hrest

/-- The library writes the same digits. -/
theorem toDigits_eq (n : Nat) : Nat.toDigits 10 n = (digitsOf n).map Nat.digitChar := by
  induction n using Nat.strong_induction_on with
  | _ n ih =>
    by_cases h : n < 10
    · rw [digitsOf_of_lt h, Nat.toDigits_of_lt_base h]
      rfl
    · have hle : 10 ≤ n := Nat.le_of_not_lt h
      rw [digitsOf_of_le hle, Nat.toDigits_of_base_le (by decide) hle, ih (n / 10) (by omega),
        List.map_append]
      rfl

theorem lt_of_mem_digitsOf {n d : Nat} (h : d ∈ digitsOf n) : d < 10 := by
  obtain ⟨c, hc, rfl⟩ := List.mem_map.1 h
  have hdigit : c.isDigit = true := Nat.isDigit_of_mem_toDigits (by decide) (by decide) hc
  simp only [Char.isDigit, Bool.and_eq_true, decide_eq_true_eq, ge_iff_le] at hdigit
  have hhigh : c.toNat ≤ 57 := hdigit.2
  have hnought : '0'.toNat = 48 := rfl
  omega

/-- A number is spelled by its digits. -/
theorem digits_digitsOf (n : Nat) : Digits (digitsOf n) (Nat.toDigits 10 n) := by
  refine ⟨toDigits_eq n, fun d hd => lt_of_mem_digitsOf hd, ?_⟩
  obtain h | ⟨k, more, h⟩ := digitsOf_cases n <;> (rw [h]; exact List.cons_ne_nil _ _)

/-- The text of a whole number spells its numeral. -/
theorem spelled_signedDecimal (i : Int) :
    (numeralOf i).Spelled (Text.signedDecimal i).toList := by
  have hzero : digitsOf i.natAbs = [0] ∨ (digitsOf i.natAbs).head? ≠ some 0 := by
    obtain h | ⟨k, more, h⟩ := digitsOf_cases i.natAbs
    · exact .inl h
    · refine .inr ?_
      rw [h]
      exact fun h => by cases h
  have hspelled := (digits_digitsOf i.natAbs).spelled hzero (decide (i < 0))
  have htext : (Text.signedDecimal i).toList =
      (if decide (i < 0) then ['-'] else []) ++ Nat.toDigits 10 i.natAbs := by
    by_cases hi : i < 0 <;> simp [Text.signedDecimal, Text.decimal, hi]
  rwa [htext]

/-! ## Values -/

/-- Digits without a sign have their value, as long as it fits. -/
theorem value?_whole {ds : List Nat} (h : digitsBehind 0 ds ≤ Text.maxUInt64) :
    (⟨false, ds, [], none⟩ : Numeral).value? = some (.int (digitsBehind 0 ds)) := by
  simp [Numeral.value?, fillSignificand_eq h]

/-- A numeral of 64 bits has the value that it was written for. -/
theorem value?_numeralOf {i : Int} (hlow : -9223372036854775808 ≤ i)
    (hhigh : i ≤ 18446744073709551615) : (numeralOf i).value? = some (.int i) := by
  have hfits : digitsBehind 0 (digitsOf i.natAbs) ≤ Text.maxUInt64 := by
    rw [digitsBehind_digitsOf, Text.maxUInt64]
    omega
  by_cases hi : i < 0
  · have hfill := fillSignificand_eq hfits
    rw [digitsBehind_digitsOf] at hfill
    have hpow : Nat.pow 2 63 = 9223372036854775808 := by decide
    have hzero : i.natAbs ≠ 0 := by omega
    have hbound : ¬(i.natAbs = 0 ∨ Nat.pow 2 63 < i.natAbs) := by omega
    have hneg : -(i.natAbs : Int) = i := by omega
    unfold Numeral.value? numeralOf
    simp only [hfill, List.isEmpty_nil, Option.isNone_none, and_self, if_true, hi, decide_true,
      Bool.not_true, Bool.false_eq_true, if_false, if_neg hbound, hneg]
  · have hpos : (i.natAbs : Int) = i := by omega
    rw [numeralOf, decide_eq_false hi, value?_whole hfits, digitsBehind_digitsOf, hpos]

end SessionHost.Json
