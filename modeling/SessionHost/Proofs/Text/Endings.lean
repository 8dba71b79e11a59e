import Mathlib.Data.List.Forall2
import Mathlib.Data.List.Infix
import SessionHost.Proofs.Text.Units
import SessionHost.Text.Lowercase
import SessionHost.Text.Split

/-!
# Endings in any letter case

Lower-casing maps characters from all of Unicode, and what it makes of a capital sigma depends on
the characters around it.  A small ASCII character comes from itself or from its ASCII capital,
though, and from nothing else, unless it is a `k`, which is also the small form of the Kelvin sign.
So whether a lower-cased text ends in such characters is seen at its ASCII letters alone.

Main definitions:

- `LowersTo`: the characters that one character is lowered to, whatever stands around it.
- `IsPlainSmall`: characters that nothing beyond ASCII is lowered to.
- `EndsIn`: a text ends in some characters, with ASCII capitals read as small letters.

Main results:

- Theorem `lowerChar_eq_iff`: what is lowered to a plain small character.
- Theorem `endsWith_lowercase_iff`: a lower-cased text ends in plain small characters exactly if the
  text ends in them in any letter case.
- Theorem `EndsIn.eq_of_equalIgnoringCase`: texts that end in different plain small characters
  differ in more than letter case.
-/

namespace SessionHost.Text

variable {c x y : Char} {cs before ending l : List Char} {blocks : List (List Char)} {n : Nat}

/-! ## Single characters -/

/-- What a character is lowered to, whatever stands around it. -/
inductive LowersTo : Char → List Char → Prop where
  | sigma {s : Char} (h : s = 'σ' ∨ s = 'ς') : LowersTo 'Σ' [s]
  | dottedI : LowersTo 'İ' ['i', '\u0307']
  | plain (c : Char) : LowersTo c [lowerChar c]

/-- Nothing beyond ASCII is lowered to the character. -/
def IsPlainSmall (x : Char) : Prop := 0 < x.toNat ∧ x.toNat < 0x80 ∧ x ≠ 'k'

instance (x : Char) : Decidable (IsPlainSmall x) :=
  inferInstanceAs (Decidable (_ ∧ _ ∧ _))

/-- Runs beyond ASCII lead beyond ASCII, but for that of the Kelvin sign. -/
theorem lowerRuns_beyond :
    ∀ run ∈ lowerRuns, run.last < 0x80 ∨ 0x80 ≤ run.target ∨
      (run.first = run.last ∧ run.target = 'k'.toNat) := by
  decide +kernel

theorem lower?_beyond {run : CaseRun} {m : Nat} (hrun : run ∈ lowerRuns) (hn : 0x80 ≤ n)
    (h : run.lower? n = some m) : 0x80 ≤ m ∨ m = 'k'.toNat := by
  obtain ⟨⟨hfirst, hlast, -⟩, rfl⟩ : (run.first ≤ n ∧ n ≤ run.last ∧ _) ∧ _ := by
    simpa [CaseRun.lower?] using h
  rcases lowerRuns_beyond run hrun with hlow | htarget | ⟨hsingle, htarget⟩
  · omega
  · omega
  · exact .inr (by omega)

/-- The character of a number beyond ASCII is not a plain small one. -/
theorem ofNat_ne_of_beyond (hx : IsPlainSmall x) (hn : 0x80 ≤ n) : Char.ofNat n ≠ x := by
  rintro rfl
  obtain ⟨hpos, hlow, -⟩ := hx
  by_cases hvalid : n.isValidChar
  · rw [toNat_ofNat (by unfold Nat.isValidChar at hvalid; omega)] at hlow
    omega
  · -- A number of no character stands for the character zero.
    have hzero : (Char.ofNat n).toNat = 0 := by
      rw [Char.ofNat, dif_neg hvalid]
      rfl
    omega

/-- A character beyond ASCII has no ASCII small form. -/
theorem toLower_ne_of_beyond (hx : IsPlainSmall x) (hc : 0x80 ≤ c.toNat) : c.toLower ≠ x := by
  have hcapital : ¬(c.val ≥ 'A'.val ∧ c.val ≤ 'Z'.val) := by
    rintro ⟨-, hz⟩
    have hle : c.toNat ≤ 'Z'.toNat := hz
    have hz' : 'Z'.toNat = 90 := rfl
    omega
  have hsame : c.toLower = c := dif_neg hcapital
  rw [hsame]
  rintro rfl
  exact absurd hx.2.1 (Nat.not_lt.2 hc)

/-- A plain small character comes from the ASCII letters that it is the small form of. -/
theorem lowerChar_eq_iff (hx : IsPlainSmall x) : lowerChar c = x ↔ c.toLower = x := by
  unfold lowerChar
  split
  · exact Iff.rfl
  · next hc =>
    have hbeyond : 0x80 ≤ c.toNat := Nat.le_of_not_lt hc
    refine iff_of_false ?_ (toLower_ne_of_beyond hx hbeyond)
    split
    · next m hm =>
      obtain ⟨run, hrun, hlower⟩ := List.exists_of_findSome?_eq_some hm
      rcases lower?_beyond hrun hbeyond hlower with hm | rfl
      · exact ofNat_ne_of_beyond hx hm
      · exact fun heq => hx.2.2 heq.symm
    · rintro rfl
      exact absurd hx.2.1 hc

/-! ## Texts -/

/-- Lower-casing goes character by character. -/
theorem lowerAfter_blocks (before cs : List Char) :
    ∃ blocks, List.Forall₂ LowersTo cs blocks ∧ lowerAfter before cs = blocks.flatten := by
  induction cs generalizing before with
  | nil => exact ⟨[], .nil, rfl⟩
  | cons c rest ih =>
    obtain ⟨blocks, hblocks, hrest⟩ := ih (c :: before)
    have hblock : ∃ block, LowersTo c block ∧
        lowerAfter before (c :: rest) = block ++ lowerAfter (c :: before) rest := by
      rw [lowerAfter]
      split
      · next hsigma =>
        subst hsigma
        refine ⟨_, .sigma ?_, rfl⟩
        unfold lowerSigma
        split
        · exact .inr rfl
        · exact .inl rfl
      · split
        · next hdotted => exact ⟨_, hdotted ▸ .dottedI, rfl⟩
        · exact ⟨_, .plain c, rfl⟩
    obtain ⟨block, hblock, hlower⟩ := hblock
    exact ⟨block :: blocks, .cons hblock hblocks, by rw [hlower, hrest, List.flatten_cons]⟩

/-- The text ends in the characters, with ASCII capitals read as small letters. -/
def EndsIn (ending : List Char) (s : String) : Prop := ending <:+ s.toList.map Char.toLower

instance (ending : List Char) (s : String) : Decidable (EndsIn ending s) :=
  inferInstanceAs (Decidable (_ <:+ _))

theorem concat_suffix_concat : ending ++ [x] <:+ l ++ [y] ↔ x = y ∧ ending <:+ l := by
  rw [← List.reverse_prefix, List.reverse_concat, List.reverse_concat, List.cons_prefix_cons,
    List.reverse_prefix]

/-- The last character of an ending that consists of plain small characters. -/
theorem suffix_block_iff {block : List Char} (hx : IsPlainSmall x) (h : LowersTo c block) :
    ending ++ [x] <:+ l ++ block ↔ c.toLower = x ∧ ending <:+ l := by
  cases h with
  | sigma hs =>
    refine iff_of_false (fun hsuffix => ?_) fun hlower => ?_
    · obtain ⟨rfl, -⟩ := concat_suffix_concat.1 hsuffix
      rcases hs with rfl | rfl <;> exact absurd hx (by decide)
    · exact toLower_ne_of_beyond hx (by decide) hlower.1
  | dottedI =>
    refine iff_of_false (fun hsuffix => ?_) fun hlower => ?_
    · rw [show l ++ ['i', '\u0307'] = (l ++ ['i']) ++ ['\u0307'] by simp] at hsuffix
      obtain ⟨rfl, -⟩ := concat_suffix_concat.1 hsuffix
      exact absurd hx (by decide)
    · exact toLower_ne_of_beyond hx (by decide) hlower.1
  | plain =>
    rw [concat_suffix_concat, eq_comm, lowerChar_eq_iff hx]

theorem suffix_flatten_iff (hx : ∀ x ∈ ending, IsPlainSmall x)
    (h : List.Forall₂ LowersTo cs blocks) :
    ending <:+ blocks.flatten ↔ ending <:+ cs.map Char.toLower := by
  induction ending using List.reverseRecOn generalizing cs blocks with
  | nil => simp
  | append_singleton ending x ih =>
    cases blocks using List.reverseRecOn with
    | nil =>
      cases h
      simp
    | append_singleton blocks block =>
      -- The last character made the last block.
      have hfront := List.forall₂_take_append cs blocks [block] h
      have hback := List.forall₂_drop_append cs blocks [block] h
      obtain ⟨c, rest, hlast, hrest, hcs⟩ := List.forall₂_cons_right_iff.1 hback
      cases hrest
      rw [← List.take_append_drop blocks.length cs, hcs, List.map_append, List.flatten_append,
        List.flatten_singleton, suffix_block_iff (hx x (by simp)) hlast, List.map_singleton,
        concat_suffix_concat, ih (fun y hy => hx y (by simp [hy])) hfront, eq_comm]

/-- **Endings in any letter case.**  A lower-cased text ends in plain small characters exactly if
the text ends in them, with ASCII capitals read as small letters. -/
theorem endsWith_lowercase_iff {s ending : String} (h : ∀ x ∈ ending.toList, IsPlainSmall x) :
    endsWith (lowercase s) ending = true ↔ EndsIn ending.toList s := by
  obtain ⟨blocks, hblocks, hlower⟩ := lowerAfter_blocks [] s.toList
  rw [endsWith, List.isSuffixOf_iff_suffix, lowercase, String.toList_ofList, hlower]
  exact suffix_flatten_iff h hblocks

/-- Texts that are equal up to letter case end in the same plain small characters. -/
theorem EndsIn.eq_of_equalIgnoringCase {s t : String} {ending ending' : List Char}
    (hs : EndsIn ending s) (ht : EndsIn ending' t) (hsmall : ∀ x ∈ ending, IsPlainSmall x)
    (hsmall' : ∀ x ∈ ending', IsPlainSmall x) (hlen : ending.length = ending'.length)
    (h : equalIgnoringCase s t = true) : ending = ending' := by
  have hlower {e : List Char} {u : String} (he : EndsIn e u) (hes : ∀ x ∈ e, IsPlainSmall x) :
      e <:+ (lowercase u).toList := by
    have hends : endsWith (lowercase u) (String.ofList e) = true :=
      (endsWith_lowercase_iff (by rwa [String.toList_ofList])).2 (by rwa [String.toList_ofList])
    rw [endsWith, List.isSuffixOf_iff_suffix, String.toList_ofList] at hends
    exact hends
  have hsuffix := hlower ht hsmall'
  rw [← beq_iff_eq.1 h] at hsuffix
  exact (List.suffix_of_suffix_length_le (hlower hs hsmall) hsuffix hlen.le).eq_of_length hlen

end SessionHost.Text
