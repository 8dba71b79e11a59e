import SessionHost.Proofs.Text.Spelling
import SessionHost.Version

/-!
# The grammar of versions

A version is `major.minor[.build[.revision]][-label]`, with blanks around it and the letter v in
front.  The first three numbers and the label are read.  What stands behind the third number is
kept out of the version, and nobody asks whether it is a number.

Main definitions:

- `RuntimeVersion.Numbers`, `RuntimeVersion.Label`: the two parts of a version's text.
- `RuntimeVersion.Spelled`: a text spells a version, with something behind the third number or
  nothing.
- `RuntimeVersion.Documented`: what stands there is one more number.

Main results:

- Theorem `RuntimeVersion.accepted_iff`: which texts are read as a version.
- Theorem `RuntimeVersion.text_read_back`: the written form of a version that was read is read as
  the same version.
-/

namespace SessionHost

open Text (Padded Tight isBlank)

namespace RuntimeVersion

/-! ## What a text spells -/

/-- Characters spell a component of a version: a number of 32 bits, with a plus sign in front or
without. -/
def Component (cs : List Char) (n : Nat) : Prop := Text.SpellsUnsigned Text.maxUInt32 cs n

/-- The numbers of a version, and what stands behind the third one. -/
inductive Numbers (v : RuntimeVersion) : List Char → Option (List Char) → Prop where
  | two {a b : List Char} (ha : Component a v.major) (hb : Component b v.minor)
      (hpatch : v.patch = 0) : Numbers v (a ++ '.' :: b) none
  | three {a b c : List Char} (ha : Component a v.major) (hb : Component b v.minor)
      (hc : Component c v.patch) : Numbers v (a ++ '.' :: (b ++ '.' :: c)) none
  | more {a b c extra : List Char} (ha : Component a v.major) (hb : Component b v.minor)
      (hc : Component c v.patch) (hextra : '-' ∉ extra) :
      Numbers v (a ++ '.' :: (b ++ '.' :: (c ++ '.' :: extra))) (some extra)

/-- The label of a version, with the dash in front of it. -/
inductive Label : Option String → List Char → Prop where
  | absent : Label none []
  | given (label : String) : Label (some label) ('-' :: label.toList)

/-- A text spells a version, with nothing but blanks around and letters v in front. -/
def Spelled (v : RuntimeVersion) (extra : Option (List Char)) (text : String) : Prop :=
  ∃ marks numbers label, Padded (marks ++ (numbers ++ label)) text.toList ∧
    Tight (marks ++ (numbers ++ label)) ∧ (∀ c ∈ marks, c = 'v' ∨ c = 'V') ∧
    v.Numbers numbers extra ∧ Label v.label label

/-- A text has the form `major.minor[.build[.revision]][-label]`. -/
def Documented (v : RuntimeVersion) (text : String) : Prop :=
  ∃ extra, v.Spelled extra text ∧ ∀ cs ∈ extra, ∃ n, Component cs n

variable {v : RuntimeVersion} {text : String} {extra : Option (List Char)}
  {cs numbers label : List Char}

/-! ## Numbers -/

/-- A component begins with a digit or a plus. -/
theorem Component.cons {n : Nat} (h : Component cs n) :
    ∃ c rest, cs = c :: rest ∧ (c.isDigit = true ∨ c = '+') := by
  obtain ⟨sign, digits, rfl, rfl | rfl, hne, hdigits, -, -⟩ := h
  · obtain ⟨c, rest, rfl⟩ := List.exists_cons_of_ne_nil hne
    exact ⟨c, rest, rfl, .inl (hdigits c List.mem_cons_self)⟩
  · exact ⟨'+', digits, rfl, .inr rfl⟩

/-- A number holds neither the mark between numbers nor the one in front of a label. -/
theorem Component.not_mem {n : Nat} {c : Char} (h : Component cs n) (hc : c.isDigit = false)
    (hplus : c ≠ '+') : c ∉ cs := by
  obtain ⟨sign, digits, rfl, hsign, -, hdigits, -, -⟩ := h
  intro hmem
  rcases List.mem_append.1 hmem with hmem | hmem
  · rcases hsign with rfl | rfl
    · cases hmem
    · exact hplus (List.mem_singleton.1 hmem)
  · rw [hdigits c hmem] at hc
    cases hc

/-- No dash is among the numbers. -/
theorem Numbers.dash_not_mem (h : v.Numbers numbers extra) : '-' ∉ numbers := by
  have hcomponent {cs : List Char} {n : Nat} (h : Component cs n) : '-' ∉ cs :=
    h.not_mem rfl (by decide)
  cases h with
  | two ha hb => simp [hcomponent ha, hcomponent hb]
  | three ha hb hc => simp [hcomponent ha, hcomponent hb, hcomponent hc]
  | more ha hb hc hextra => simp [hcomponent ha, hcomponent hb, hcomponent hc, hextra]

/-- Numbers begin with a digit or a plus. -/
theorem Numbers.cons (h : v.Numbers numbers extra) :
    ∃ c rest, numbers = c :: rest ∧ (c.isDigit = true ∨ c = '+') := by
  cases h with
  | two ha | three ha | more ha =>
    obtain ⟨c, rest, rfl, hc⟩ := ha.cons
    exact ⟨c, _, rfl, hc⟩

/-- What the numbers of a version are read as. -/
def numbers? (cs : List Char) (label : Option String) : Option RuntimeVersion :=
  match Text.splitAt '.' cs with
  | majorText :: minorText :: rest =>
    match Text.readUnsigned? Text.maxUInt32 majorText,
        Text.readUnsigned? Text.maxUInt32 minorText with
    | some major, some minor =>
      match rest with
      | [] => some ⟨major, minor, 0, label⟩
      | patchText :: _ =>
        (Text.readUnsigned? Text.maxUInt32 patchText).map fun patch =>
          ⟨major, minor, patch, label⟩
    | _, _ => none
  | _ => none

/-- A component before a dot is the first part. -/
theorem Component.split {n : Nat} (h : Component cs n) (back : List Char) :
    Text.splitAt '.' (cs ++ '.' :: back) = cs :: Text.splitAt '.' back :=
  Text.splitAt_eq_cons_iff.2 ⟨h.not_mem rfl (by decide), .inr ⟨back, rfl, rfl⟩⟩

/-- A last component is the only part. -/
theorem Component.split_last {n : Nat} (h : Component cs n) : Text.splitAt '.' cs = [cs] :=
  Text.splitAt_of_not_mem (h.not_mem rfl (by decide))

/-- A component is cut off at its dot. -/
theorem Component.cut {n : Nat} (h : Component cs n) (back : List Char) :
    Text.cutAt? '.' (cs ++ '.' :: back) = some (cs, back) :=
  Text.cutAt?_eq_some_iff.2 ⟨rfl, h.not_mem rfl (by decide)⟩

theorem Component.cut_last {n : Nat} (h : Component cs n) : Text.cutAt? '.' cs = none :=
  Text.cutAt?_eq_none_iff.2 (h.not_mem rfl (by decide))

/-- A component is read as its number. -/
theorem Component.read {n : Nat} (h : Component cs n) :
    Text.readUnsigned? Text.maxUInt32 cs = some n :=
  Text.readUnsigned?_eq_some_iff.2 h

/-- Numbers are read as those of the version. -/
theorem Numbers.read (h : v.Numbers numbers extra) : numbers? numbers v.label = some v := by
  cases h with
  | two ha hb hpatch =>
    simp only [numbers?, ha.split, hb.split_last, ha.read, hb.read]
    rw [← hpatch]
  | three ha hb hc =>
    simp only [numbers?, ha.split, hb.split, hc.split_last, ha.read, hb.read, hc.read,
      Option.map_some]
  | more ha hb hc =>
    simp only [numbers?, ha.split, hb.split, hc.split, ha.read, hb.read, hc.read,
      Option.map_some]

/-- What stands behind the third of the parts between dots. -/
def behindThird (cs : List Char) : Option (List Char) :=
  (Text.cutAt? '.' cs).bind fun first =>
    (Text.cutAt? '.' first.2).bind fun second =>
      (Text.cutAt? '.' second.2).map Prod.snd

/-- What stands behind the third number is left over. -/
theorem Numbers.behindThird (h : v.Numbers numbers extra) : behindThird numbers = extra := by
  cases h with
  | two ha hb =>
    simp only [RuntimeVersion.behindThird, ha.cut, hb.cut_last, Option.bind_some, Option.bind_none]
  | three ha hb hc =>
    simp only [RuntimeVersion.behindThird, ha.cut, hb.cut, hc.cut_last, Option.bind_some,
      Option.map_none]
  | more ha hb hc =>
    simp only [RuntimeVersion.behindThird, ha.cut, hb.cut, hc.cut, Option.bind_some,
      Option.map_some]

/-- Characters that are read as the numbers of a version are numbers, up to the third one. -/
theorem numbers_of_read (hdash : '-' ∉ numbers) {label : Option String}
    (h : numbers? numbers label = some v) : v.label = label ∧ ∃ extra, v.Numbers numbers extra := by
  unfold numbers? at h
  split at h
  · rename_i a b rest hsplit
    split at h
    · rename_i major minor hmajor hminor
      have ha : Component a major := Text.readUnsigned?_eq_some_iff.1 hmajor
      have hb : Component b minor := Text.readUnsigned?_eq_some_iff.1 hminor
      obtain ⟨-, ⟨-, hrest⟩ | ⟨back, rfl, hback⟩⟩ := Text.splitAt_eq_cons_iff.1 hsplit
      · cases hrest
      obtain ⟨-, ⟨rfl, rfl⟩ | ⟨behind, rfl, hbehind⟩⟩ := Text.splitAt_eq_cons_iff.1 hback
      · cases h
        exact ⟨rfl, none, .two ha hb rfl⟩
      obtain ⟨c, parts, hparts⟩ :=
        List.exists_cons_of_ne_nil (Text.splitAt_ne_nil '.' behind)
      rw [← hbehind, hparts] at h
      obtain ⟨patch, hpatch, rfl⟩ := Option.map_eq_some_iff.1 h
      have hc : Component c patch := Text.readUnsigned?_eq_some_iff.1 hpatch
      obtain ⟨-, ⟨rfl, -⟩ | ⟨extra, rfl, -⟩⟩ := Text.splitAt_eq_cons_iff.1 hparts
      · exact ⟨rfl, none, .three ha hb hc⟩
      · exact ⟨rfl, some extra, .more ha hb hc fun hmem => hdash (by simp [hmem])⟩
    · cases h
  · cases h

/-! ## Reading -/

/-- A label begins at the first dash. -/
theorem Label.parse?_eq {l : Option String} (h : Label l label) (hdash : '-' ∉ numbers)
    (hbody : (Text.trimChars text.toList).dropWhile isVersionMark = numbers ++ label) :
    parse? text = numbers? numbers l := by
  cases h with
  | absent =>
    have hcut := Text.cutAt?_eq_none_iff.2 hdash
    simp only [parse?, hbody, List.append_nil, hcut]
    rfl
  | given s =>
    have hcut : Text.cutAt? '-' (numbers ++ '-' :: s.toList) = some (numbers, s.toList) :=
      Text.cutAt?_eq_some_iff.2 ⟨rfl, hdash⟩
    simp only [parse?, hbody, hcut, String.ofList_toList]
    rfl

/-- The numbers end where the label begins. -/
theorem Label.takeWhile_append {l : Option String} (h : Label l label) (hdash : '-' ∉ numbers) :
    (numbers ++ label).takeWhile (· ≠ '-') = numbers := by
  have hnumbers : ∀ c ∈ numbers, decide (c ≠ '-') = true := fun c hc =>
    decide_eq_true fun h => hdash (h ▸ hc)
  rw [List.takeWhile_append_of_pos hnumbers]
  cases h with
  | absent => exact List.append_nil _
  | given s => exact List.append_nil _

/-- All characters are numbers and a label. -/
theorem exists_label (body : List Char) :
    ∃ numbers label l, body = numbers ++ label ∧ '-' ∉ numbers ∧ Label l label := by
  cases hcut : Text.cutAt? '-' body with
  | none =>
    exact ⟨body, [], none, by rw [List.append_nil], Text.cutAt?_eq_none_iff.1 hcut, .absent⟩
  | some cut =>
    obtain ⟨hbody, hdash⟩ := Text.cutAt?_eq_some_iff.1 hcut
    have hlabel := Label.given (String.ofList cut.2)
    rw [String.toList_ofList] at hlabel
    exact ⟨cut.1, _, _, hbody, hdash, hlabel⟩

theorem isVersionMark_iff {c : Char} : isVersionMark c = true ↔ c = 'v' ∨ c = 'V' := by
  simp only [isVersionMark, Bool.or_eq_true, decide_eq_true_eq]

/-- Nothing is dropped before numbers without a mark. -/
theorem Numbers.dropWhile_isVersionMark (h : v.Numbers numbers extra) (label : List Char) :
    (numbers ++ label).dropWhile isVersionMark = numbers ++ label := by
  obtain ⟨c, rest, rfl, hc⟩ := h.cons
  refine List.dropWhile_cons_of_neg fun hmark => ?_
  obtain rfl | rfl := isVersionMark_iff.1 hmark <;> exact absurd hc (by decide)

/-- What is read as a version spells it. -/
theorem exists_spelled (h : parse? text = some v) : ∃ extra, v.Spelled extra text := by
  have hcore := Text.trimChars_eq_iff.1 (rfl : Text.trimChars text.toList = _)
  generalize hbody : (Text.trimChars text.toList).dropWhile isVersionMark = body
  obtain ⟨numbers, label, l, rfl, hdash, hlabel⟩ := exists_label body
  rw [hlabel.parse?_eq hdash hbody] at h
  obtain ⟨rfl, extra, hnumbers⟩ := numbers_of_read hdash h
  have hsplit : Text.trimChars text.toList =
      (Text.trimChars text.toList).takeWhile isVersionMark ++ (numbers ++ label) := by
    rw [← hbody, List.takeWhile_append_dropWhile]
  rw [hsplit] at hcore
  exact ⟨extra, _, numbers, label, hcore.1, hcore.2,
    fun c hc => isVersionMark_iff.1 (List.mem_takeWhile_imp hc), hnumbers, hlabel⟩

/-- What stands between the blanks and the letters v in front, and the blanks at the end. -/
theorem Spelled.body (h : v.Spelled extra text) :
    ∃ numbers label, (Text.trimChars text.toList).dropWhile isVersionMark = numbers ++ label ∧
      v.Numbers numbers extra ∧ Label v.label label := by
  obtain ⟨marks, numbers, label, hpadded, htight, hmarks, hnumbers, hlabel⟩ := h
  refine ⟨numbers, label, ?_, hnumbers, hlabel⟩
  have hdrop : marks.dropWhile isVersionMark = [] :=
    List.dropWhile_eq_nil_iff.2 fun c hc => isVersionMark_iff.2 (hmarks c hc)
  rw [Text.trimChars_eq_iff.2 ⟨hpadded, htight⟩, List.dropWhile_append, hdrop,
    hnumbers.dropWhile_isVersionMark]
  rfl

/-- A text that spells a version is read as this version. -/
theorem Spelled.parse? (h : v.Spelled extra text) : parse? text = some v := by
  obtain ⟨numbers, label, hbody, hnumbers, hlabel⟩ := h.body
  rw [hlabel.parse?_eq hnumbers.dash_not_mem hbody, hnumbers.read]

/-- However a text is cut into its parts, the same stands behind the third number. -/
theorem Spelled.extra_unique {w : RuntimeVersion} {more : Option (List Char)}
    (h : v.Spelled extra text) (h' : w.Spelled more text) : extra = more := by
  obtain ⟨numbers, label, hbody, hnumbers, hlabel⟩ := h.body
  obtain ⟨numbers', label', hbody', hnumbers', hlabel'⟩ := h'.body
  have hsame : numbers = numbers' := by
    rw [← hlabel.takeWhile_append hnumbers.dash_not_mem, ← hbody, hbody',
      hlabel'.takeWhile_append hnumbers'.dash_not_mem]
  rw [← hnumbers.behindThird, ← hnumbers'.behindThird, hsame]

/-- **The texts of versions.**  A text is read as a version exactly if it spells this version, with
the first three numbers and the label, whatever stands between the third number and the label.  So
every text of the documented form is read, with what it says; and a text that is read has that form
exactly if what stands behind its third number is a number too. -/
theorem accepted_iff (text : String) (v : RuntimeVersion) :
    (parse? text = some v ↔ ∃ extra, v.Spelled extra text) ∧
      (v.Documented text → parse? text = some v) ∧
        ∀ extra, v.Spelled extra text →
          (v.Documented text ↔ ∀ cs ∈ extra, ∃ n, Component cs n) := by
  refine ⟨⟨exists_spelled, fun ⟨_, h⟩ => h.parse?⟩, fun ⟨_, h, _⟩ => h.parse?, fun extra h => ?_⟩
  constructor
  · rintro ⟨more, hmore, hnumber⟩
    rwa [h.extra_unique hmore]
  · exact fun hnumber => ⟨extra, h, hnumber⟩

/-- Behind the third number of `7.4.1.x` stands no number, and the text is read all the same. -/
theorem undocumented_accepted :
    parse? "7.4.1.x" = some ⟨7, 4, 1, none⟩ ∧
      ¬ RuntimeVersion.Documented ⟨7, 4, 1, none⟩ "7.4.1.x" := by
  have hone {c : Char} {n : Nat} (h : Text.readUnsigned? Text.maxUInt32 [c] = some n) :
      Component [c] n := Text.readUnsigned?_eq_some_iff.1 h
  have hspelled : RuntimeVersion.Spelled ⟨7, 4, 1, none⟩ (some ['x']) "7.4.1.x" :=
    ⟨[], ['7', '.', '4', '.', '1', '.', 'x'], [], Text.padded_self _,
      Text.tight_of_all rfl rfl, fun c hc => absurd hc List.not_mem_nil,
      .more (hone rfl) (hone rfl) (hone rfl) (by decide), .absent⟩
  have haccepted := accepted_iff "7.4.1.x" ⟨7, 4, 1, none⟩
  refine ⟨haccepted.1.2 ⟨_, hspelled⟩, fun hdocumented => ?_⟩
  obtain ⟨n, hn⟩ := (haccepted.2.2 _ hspelled).1 hdocumented ['x'] rfl
  have hread : Text.readUnsigned? Text.maxUInt32 ['x'] = some n := hn.read
  cases hread

/-! ## Writing -/

/-- The numbers of a version as they are written: all three, without a plus sign. -/
def digits (v : RuntimeVersion) : List Char :=
  Nat.toDigits 10 v.major ++ '.' :: (Nat.toDigits 10 v.minor ++ '.' :: Nat.toDigits 10 v.patch)

/-- A version that was read has numbers of 32 bits, so its digits spell them. -/
theorem Numbers.digits (h : v.Numbers numbers extra) : v.Numbers v.digits none := by
  have hspelled {cs : List Char} {n : Nat} (h : Component cs n) :
      Component (Nat.toDigits 10 n) n := by
    obtain ⟨-, -, -, -, -, -, -, hbound⟩ := h
    exact Text.spellsUnsigned_toDigits hbound
  cases h with
  | two ha hb hpatch =>
    refine .three (hspelled ha) (hspelled hb) (Text.spellsUnsigned_toDigits ?_)
    rw [hpatch]
    exact Nat.zero_le _
  | three ha hb hc | more ha hb hc => exact .three (hspelled ha) (hspelled hb) (hspelled hc)

/-- A version is written as its digits and its label. -/
theorem Label.toList_text (h : Label v.label label) : v.text.toList = v.digits ++ label := by
  have hnumbers : (Text.decimal v.major ++ "." ++ Text.decimal v.minor ++ "." ++
      Text.decimal v.patch).toList = v.digits := by
    simp only [String.toList_append, Text.decimal, String.toList_ofList, RuntimeVersion.digits,
      List.append_assoc]
    rfl
  rw [RuntimeVersion.text, String.toList_append, hnumbers]
  generalize v.label = l at h
  cases h with
  | absent => rfl
  | given s =>
    rw [String.toList_append]
    rfl

/-- Three numbers and the dots between them neither begin nor end with a blank. -/
theorem Numbers.tight (h : v.Numbers numbers none) : Tight numbers := by
  have hdot : Tight ['.'] := Text.tight_of_all rfl rfl
  have hcomponent {cs : List Char} {n : Nat} (h : Component cs n) : Tight cs :=
    Text.tight_of_spellsUnsigned h
  cases h with
  | two ha hb => exact (hcomponent ha).append (hdot.append (hcomponent hb))
  | three ha hb hc =>
    exact (hcomponent ha).append
      (hdot.append ((hcomponent hb).append (hdot.append (hcomponent hc))))

/-- A label begins with its dash, and the text that it ends has no blank at its end. -/
theorem Label.tight {l : Option String} {front : List Char} (h : Label l label)
    (htight : Tight (front ++ label)) : Tight label where
  head c hc := by
    cases h with
    | absent => cases hc
    | given s =>
      obtain rfl := Option.some.inj hc
      rfl
  last c hc := by
    refine htight.last c ?_
    rw [Option.mem_def, List.getLast?_append, Option.or_eq_some_iff]
    exact .inl hc

/-- The written form of a version that was read spells it. -/
theorem Spelled.written (h : v.Spelled extra text) : v.Spelled none v.text := by
  obtain ⟨marks, numbers, label, -, htight, -, hnumbers, hlabel⟩ := h
  rw [← List.append_assoc] at htight
  have hdigits : v.Numbers v.digits none := hnumbers.digits
  refine ⟨[], v.digits, label, ?_, hdigits.tight.append (hlabel.tight htight),
    fun c hc => absurd hc List.not_mem_nil, hdigits, hlabel⟩
  rw [List.nil_append, hlabel.toList_text]
  exact Text.padded_self _

/-- **Versions are read back.**  What is read from the written form of a version that some text
spells is this version again, whatever its label holds; so both texts are supported alike. -/
theorem text_read_back (text : String) (v : RuntimeVersion) (h : parse? text = some v) :
    parse? v.text = some v ∧ Support.ofText? v.text = Support.ofText? text := by
  obtain ⟨extra, hspelled⟩ := exists_spelled h
  have hback : parse? v.text = some v := hspelled.written.parse?
  exact ⟨hback, by rw [Support.ofText?, Support.ofText?, hback, h]⟩

/-- A label with dashes and blanks of its own. -/
theorem label_read_back :
    parse? " v7.5-- x.1 \n" = some ⟨7, 5, 0, some "- x.1"⟩ ∧
      parse? "7.5.0-- x.1" = some ⟨7, 5, 0, some "- x.1"⟩ ∧
        Support.ofText? "7.5.0-- x.1" = some .supported := by
  have hread : parse? " v7.5-- x.1 \n" = some ⟨7, 5, 0, some "- x.1"⟩ := by decide +kernel
  have hback := text_read_back " v7.5-- x.1 \n" ⟨7, 5, 0, some "- x.1"⟩ hread
  have htext : RuntimeVersion.text ⟨7, 5, 0, some "- x.1"⟩ = "7.5.0-- x.1" := by decide +kernel
  rw [htext] at hback
  refine ⟨hread, hback.1, hback.2.trans ?_⟩
  rw [Support.ofText?, hread]
  rfl

end RuntimeVersion

end SessionHost
