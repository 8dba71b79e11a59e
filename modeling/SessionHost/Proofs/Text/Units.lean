import SessionHost.Text.Utf8

/-!
# Texts and UTF-16 bytes

The bytes of UTF-16 are read back unit by unit and character by character: a unit is two bytes, the
lower one first, and a surrogate counts only as one half of a pair, the high one in front.

Main definitions:

- `unitsOfBytes?`: the units of bytes.
- `charsOfUnits?`: the characters of units.
- `ofUtf16?`: the text of bytes that are UTF-16.

Main results:

- Theorem `ofUtf16?_eq_some_iff`: bytes are read as a text exactly if they are the bytes of it.
-/

namespace SessionHost.Text

/-! ## Units -/

/-- The units of little-endian bytes. -/
def unitsOfBytes? : List UInt8 → Option (List Nat)
  | [] => some []
  | [_] => none
  | low :: high :: rest => (unitsOfBytes? rest).map fun us => (low.toNat + 256 * high.toNat) :: us

/-- The number fits into one unit. -/
def IsUnit (u : Nat) : Prop := u < 0x10000

/-- Two bytes make one unit. -/
theorem unitBytes_unit (low high : UInt8) :
    unitBytes (low.toNat + 256 * high.toNat) = [low, high] := by
  have hlow := low.toNat_lt
  have hmod : (low.toNat + 256 * high.toNat) % 256 = low.toNat := by omega
  have hdiv : (low.toNat + 256 * high.toNat) / 256 = high.toNat := by omega
  rw [unitBytes, hmod, hdiv, UInt8.ofNat_toNat, UInt8.ofNat_toNat]

/-- A unit's bytes are read as this unit. -/
theorem unitsOfBytes?_cons {u : Nat} (hu : IsUnit u) (bytes : List UInt8) :
    unitsOfBytes? (unitBytes u ++ bytes) = (unitsOfBytes? bytes).map fun us => u :: us := by
  have hlow : (UInt8.ofNat (u % 256)).toNat = u % 256 := by
    rw [UInt8.toNat_ofNat']
    omega
  have hhigh : (UInt8.ofNat (u / 256)).toNat = u / 256 := by
    rw [UInt8.toNat_ofNat']
    have : u < 65536 := hu
    omega
  have hunit : u % 256 + 256 * (u / 256) = u := by omega
  simp only [unitBytes, List.cons_append, List.nil_append, unitsOfBytes?, hlow, hhigh, hunit]

/-- Bytes are read as units exactly if they are the bytes of these units. -/
theorem unitsOfBytes?_eq_some_iff {bytes : List UInt8} {us : List Nat} :
    unitsOfBytes? bytes = some us ↔ bytes = us.flatMap unitBytes ∧ ∀ u ∈ us, IsUnit u := by
  constructor
  · intro h
    fun_induction unitsOfBytes? bytes generalizing us with
    | case1 =>
      cases h
      exact ⟨rfl, by simp⟩
    | case2 => cases h
    | case3 low high rest ih =>
      obtain ⟨vs, hvs, rfl⟩ := Option.map_eq_some_iff.1 h
      obtain ⟨hrest, hunits⟩ := ih hvs
      have hunit : IsUnit (low.toNat + 256 * high.toNat) := by
        have hlow := low.toNat_lt
        have hhigh := high.toNat_lt
        unfold IsUnit
        omega
      refine ⟨?_, List.forall_mem_cons.2 ⟨hunit, hunits⟩⟩
      rw [List.flatMap_cons, unitBytes_unit, ← hrest]
      rfl
  · rintro ⟨rfl, hunits⟩
    induction us with
    | nil => rfl
    | cons u us ih =>
      obtain ⟨hu, hus⟩ := List.forall_mem_cons.1 hunits
      rw [List.flatMap_cons, unitsOfBytes?_cons hu, ih hus]
      rfl

/-! ## Characters -/

/-- The character of a surrogate pair. -/
def pairChar (high low : Nat) : Char :=
  Char.ofNat (0x10000 + (high - 0xD800) * 0x400 + (low - 0xDC00))

/-- The characters of units.  A surrogate outside of a pair makes them unreadable. -/
def charsOfUnits? : List Nat → Option (List Char)
  | [] => some []
  | [u] => if u < 0xD800 ∨ 0xE000 ≤ u then some [Char.ofNat u] else none
  | u :: v :: rest =>
    if u < 0xD800 ∨ 0xE000 ≤ u then (charsOfUnits? (v :: rest)).map (Char.ofNat u :: ·)
    else if u < 0xDC00 ∧ 0xDC00 ≤ v ∧ v < 0xE000 then
      (charsOfUnits? rest).map (pairChar u v :: ·)
    else none

/-- A unit outside the surrogates is a character. -/
theorem charsOfUnits?_free {u : Nat} (h : u < 0xD800 ∨ 0xE000 ≤ u) (us : List Nat) :
    charsOfUnits? (u :: us) = (charsOfUnits? us).map (Char.ofNat u :: ·) := by
  cases us with
  | nil => simp [charsOfUnits?, h]
  | cons v rest => rw [charsOfUnits?, if_pos h]

/-- Two surrogates are one character. -/
theorem charsOfUnits?_pair {u v : Nat} (hu : 0xD800 ≤ u ∧ u < 0xDC00) (hv : 0xDC00 ≤ v ∧ v < 0xE000)
    (us : List Nat) :
    charsOfUnits? (u :: v :: us) = (charsOfUnits? us).map (pairChar u v :: ·) := by
  have hfree : ¬(u < 0xD800 ∨ 0xE000 ≤ u) := by omega
  rw [charsOfUnits?, if_neg hfree, if_pos ⟨hu.2, hv⟩]

/-- A surrogate that begins no pair is read as nothing. -/
theorem charsOfUnits?_broken {u : Nat} {us : List Nat} (hu : 0xD800 ≤ u ∧ u < 0xE000)
    (h : ∀ v ∈ us.head?, ¬(u < 0xDC00 ∧ 0xDC00 ≤ v ∧ v < 0xE000)) :
    charsOfUnits? (u :: us) = none := by
  have hfree : ¬(u < 0xD800 ∨ 0xE000 ≤ u) := by omega
  cases us with
  | nil => rw [charsOfUnits?, if_neg hfree]
  | cons v rest => rw [charsOfUnits?, if_neg hfree, if_neg (h v rfl)]

/-- The number of a character is what it was made of. -/
theorem toNat_ofNat {n : Nat} (h : n < 0xD800 ∨ 0xE000 ≤ n ∧ n < 0x110000) :
    (Char.ofNat n).toNat = n := by
  have hvalid : n.isValidChar := by
    rcases h with h | h
    · exact .inl h
    · exact .inr ⟨by omega, h.2⟩
  rw [Char.ofNat, dif_pos hvalid]
  rfl

/-- A character is no surrogate. -/
theorem toNat_cases (c : Char) : c.toNat < 0xD800 ∨ 0xE000 ≤ c.toNat ∧ c.toNat < 0x110000 := by
  rcases c.valid with h | ⟨h, h'⟩
  · exact .inl h
  · exact .inr ⟨h, h'⟩

/-- Characters give units of 16 bits. -/
theorem isUnit_of_mem_utf16Units {c : Char} {u : Nat} (h : u ∈ utf16Units c) : IsUnit u := by
  have hc := toNat_cases c
  unfold IsUnit
  simp only [utf16Units] at h
  split at h
  · simp only [List.mem_singleton] at h
    omega
  · simp only [List.mem_cons, List.not_mem_nil, or_false] at h
    omega

/-- The units of a character are read as the character. -/
theorem charsOfUnits?_append (c : Char) (us : List Nat) :
    charsOfUnits? (utf16Units c ++ us) = (charsOfUnits? us).map (c :: ·) := by
  have hc := toNat_cases c
  simp only [utf16Units]
  split
  · next hplain =>
    have hfree : c.toNat < 0xD800 ∨ 0xE000 ≤ c.toNat := by omega
    cases us with
    | nil => simp [charsOfUnits?, hfree]
    | cons v rest => simp [charsOfUnits?, hfree]
  · next hpair =>
    have hhigh : ¬(0xD800 + (c.toNat - 0x10000) / 0x400 < 0xD800 ∨
        0xE000 ≤ 0xD800 + (c.toNat - 0x10000) / 0x400) := by omega
    have hlow : 0xD800 + (c.toNat - 0x10000) / 0x400 < 0xDC00 ∧
        0xDC00 ≤ 0xDC00 + (c.toNat - 0x10000) % 0x400 ∧
        0xDC00 + (c.toNat - 0x10000) % 0x400 < 0xE000 := by omega
    have hchar : pairChar (0xD800 + (c.toNat - 0x10000) / 0x400)
        (0xDC00 + (c.toNat - 0x10000) % 0x400) = c := by
      have hnat : 0x10000 + (0xD800 + (c.toNat - 0x10000) / 0x400 - 0xD800) * 0x400 +
          (0xDC00 + (c.toNat - 0x10000) % 0x400 - 0xDC00) = c.toNat := by omega
      rw [pairChar, hnat, Char.ofNat_toNat]
    rw [List.cons_append, List.cons_append, List.nil_append, charsOfUnits?, if_neg hhigh,
      if_pos hlow, hchar]

/-- No character begins with the second half of a pair. -/
theorem utf16Units_head (c : Char) (us : List Nat) :
    ∀ v ∈ (utf16Units c ++ us).head?, ¬(0xDC00 ≤ v ∧ v < 0xE000) := by
  have hc := toNat_cases c
  simp only [utf16Units]
  split <;> (rintro v ⟨⟩; omega)

/-- A character of one unit gives it back. -/
theorem utf16Units_ofNat {u : Nat} (hu : IsUnit u) (h : u < 0xD800 ∨ 0xE000 ≤ u) :
    utf16Units (Char.ofNat u) = [u] := by
  unfold IsUnit at hu
  have hnat : (Char.ofNat u).toNat = u := toNat_ofNat (by omega)
  simp only [utf16Units, hnat]
  rw [if_pos hu]

/-- A character of two units gives both back. -/
theorem utf16Units_pairChar {u v : Nat} (hu : ¬(u < 0xD800 ∨ 0xE000 ≤ u))
    (h : u < 0xDC00 ∧ 0xDC00 ≤ v ∧ v < 0xE000) : utf16Units (pairChar u v) = [u, v] := by
  have hnat : (pairChar u v).toNat = 0x10000 + (u - 0xD800) * 0x400 + (v - 0xDC00) :=
    toNat_ofNat (by omega)
  have hhigh : 0xD800 + (0x10000 + (u - 0xD800) * 0x400 + (v - 0xDC00) - 0x10000) / 0x400 = u := by
    omega
  have hlow : 0xDC00 + (0x10000 + (u - 0xD800) * 0x400 + (v - 0xDC00) - 0x10000) % 0x400 = v := by
    omega
  simp only [utf16Units, hnat]
  rw [if_neg (by omega), hhigh, hlow]

/-- Units are read as characters exactly if they are the units of these characters. -/
theorem charsOfUnits?_eq_some_iff {us : List Nat} {cs : List Char} (hus : ∀ u ∈ us, IsUnit u) :
    charsOfUnits? us = some cs ↔ us = cs.flatMap utf16Units := by
  constructor
  · intro h
    fun_induction charsOfUnits? us generalizing cs with
    | case1 =>
      cases h
      rfl
    | case2 u hfree =>
      cases h
      rw [List.flatMap_singleton, utf16Units_ofNat (hus u (by simp)) hfree]
    | case3 => cases h
    | case4 u v rest hfree ih =>
      obtain ⟨hu, hrest⟩ := List.forall_mem_cons.1 hus
      obtain ⟨cs, hcs, rfl⟩ := Option.map_eq_some_iff.1 h
      rw [List.flatMap_cons, utf16Units_ofNat hu hfree, ← ih hrest hcs]
      rfl
    | case5 u v rest hsurrogate hpair ih =>
      obtain ⟨-, hrest⟩ := List.forall_mem_cons.1 hus
      obtain ⟨cs, hcs, rfl⟩ := Option.map_eq_some_iff.1 h
      rw [List.flatMap_cons, utf16Units_pairChar hsurrogate hpair,
        ← ih (List.forall_mem_cons.1 hrest).2 hcs]
      rfl
    | case6 => cases h
  · rintro rfl
    clear hus
    induction cs with
    | nil => rfl
    | cons c cs ih =>
      rw [List.flatMap_cons, charsOfUnits?_append, ih]
      rfl

theorem isUnit_of_mem_flatMap {cs : List Char} : ∀ u ∈ cs.flatMap utf16Units, IsUnit u := by
  intro u hu
  obtain ⟨c, -, hc⟩ := List.mem_flatMap.1 hu
  exact isUnit_of_mem_utf16Units hc

/-- A text is decoded from its units. -/
theorem charsOfUnits?_flatMap (cs : List Char) :
    charsOfUnits? (cs.flatMap utf16Units) = some cs :=
  (charsOfUnits?_eq_some_iff isUnit_of_mem_flatMap).2 rfl

/-- Characters are known by their units. -/
theorem flatMap_utf16Units_inj {cs ds : List Char} :
    cs.flatMap utf16Units = ds.flatMap utf16Units ↔ cs = ds := by
  refine ⟨fun h => ?_, fun h => h ▸ rfl⟩
  rw [← Option.some_inj, ← charsOfUnits?_flatMap, h, charsOfUnits?_flatMap]

/-! ## Texts -/

/-- The text that bytes spell in UTF-16, the lower byte of a unit first, if they do. -/
def ofUtf16? (bytes : List UInt8) : Option String :=
  ((unitsOfBytes? bytes).bind charsOfUnits?).map String.ofList

/-- Bytes are read as a text exactly if they are the bytes of this text. -/
theorem ofUtf16?_eq_some_iff {bytes : List UInt8} {s : String} :
    ofUtf16? bytes = some s ↔ bytes = utf16Bytes s := by
  constructor
  · intro h
    obtain ⟨cs, hcs, rfl⟩ := Option.map_eq_some_iff.1 h
    obtain ⟨us, hus, hchars⟩ := Option.bind_eq_some_iff.1 hcs
    obtain ⟨rfl, hunits⟩ := unitsOfBytes?_eq_some_iff.1 hus
    rw [utf16Bytes, String.toList_ofList, ← (charsOfUnits?_eq_some_iff hunits).1 hchars]
  · rintro rfl
    have hread : unitsOfBytes? (utf16Bytes s) = some (s.toList.flatMap utf16Units) :=
      unitsOfBytes?_eq_some_iff.2 ⟨rfl, isUnit_of_mem_flatMap⟩
    rw [ofUtf16?, hread, Option.bind_some, charsOfUnits?_flatMap, Option.map_some,
      String.ofList_toList]

end SessionHost.Text
