import SessionHost.Proofs.Text.Spelling
import SessionHost.Rpc.Frame

/-!
# The grammar of frames

What a stream of bytes means as a sequence of frames, said by rules instead of a reader: which
bytes are a line, what a line says, where a header ends, and how much of a stream a frame takes.

Main definitions:

- `HeaderLine.Says`: what a header line says.
- `Line`, `Header`, `Reads`: the first line, header and frame of some bytes, and what is left.
- `Answers`: the frames of some bytes, one after the other.

Main results:

- Theorem `HeaderLine.says_iff`: every line is read as what it says.
- Theorem `Reads.length_lt`: a frame takes at least one byte.
-/

namespace SessionHost.Rpc

open Text (Padded Tight SpellsUnsigned isBlank)

/-! ## What a line says -/

/-- Characters that name the length, in any letter case and with blanks around them. -/
def NamesLength (name : List Char) : Prop :=
  ∃ core, Padded core name ∧ core.map Char.toLower = "content-length".toList

/-- Characters that spell a number of 64 bits, with blanks around them. -/
def SpellsLength (value : List Char) (n : Nat) : Prop :=
  ∃ core, Padded core value ∧ SpellsUnsigned Text.maxUInt64 core n

/-- What a header line says. -/
inductive HeaderLine.Says (line : List UInt8) : HeaderLine → Prop where
  /-- The line is no text. -/
  | noText (h : ∀ s, Text.utf8Bytes s ≠ line) : Says line (.fault .lineNotText)
  /-- The line that ends a header. -/
  | blank {s : String} (hs : Text.utf8Bytes s = line) (h : ∀ c ∈ s.toList, isBlank c = true) :
      Says line .blank
  /-- A line without a name. -/
  | nameless {s : String} (hs : Text.utf8Bytes s = line) (hfull : ∃ c ∈ s.toList, isBlank c = false)
      (h : ':' ∉ s.toList) : Says line .other
  /-- A line with another name. -/
  | other {s : String} {name value : List Char} (hs : Text.utf8Bytes s = line)
      (hcut : s.toList = name ++ ':' :: value) (hfirst : ':' ∉ name) (h : ¬NamesLength name) :
      Says line .other
  | length {s : String} {name value : List Char} {n : Nat} (hs : Text.utf8Bytes s = line)
      (hcut : s.toList = name ++ ':' :: value) (hfirst : ':' ∉ name) (h : NamesLength name)
      (hn : SpellsLength value n) : Says line (.length n)
  /-- A length that is no number of 64 bits, told without the blanks around it. -/
  | noNumber {s : String} {name value text : List Char} (hs : Text.utf8Bytes s = line)
      (hcut : s.toList = name ++ ':' :: value) (hfirst : ':' ∉ name) (h : NamesLength name)
      (hn : ∀ n, ¬SpellsLength value n) (htext : Padded text value) (htight : Tight text) :
      Says line (.fault (.invalidLength (String.ofList text)))

/-! ## Frames -/

/-- The first line of some bytes, through the next newline or to the end, and what follows. -/
inductive Line : List UInt8 → List UInt8 → List UInt8 → Prop where
  | ended {text rest : List UInt8} (h : newline ∉ text) :
      Line (text ++ newline :: rest) (text ++ [newline]) rest
  | last {text : List UInt8} (h : newline ∉ text) (hfull : text ≠ []) : Line text text []

/-- What a header says when its lines so far have given `length?`: the length that it ends with, or
what is wrong with it, and what follows its last line. -/
inductive Header : Option Nat → List UInt8 → Except FrameFault Nat → List UInt8 → Prop where
  /-- The stream ends inside the header. -/
  | ends {length? : Option Nat} : Header length? [] (.error .truncatedHeader) []
  | fault {length? : Option Nat} {bytes line rest : List UInt8} {f : FrameFault}
      (hline : Line bytes line rest) (h : HeaderLine.Says line (.fault f)) :
      Header length? bytes (.error f) rest
  | other {length? : Option Nat} {bytes line rest left : List UInt8} {e : Except FrameFault Nat}
      (hline : Line bytes line rest) (h : HeaderLine.Says line .other)
      (hrest : Header length? rest e left) : Header length? bytes e left
  /-- The last length counts. -/
  | length {length? : Option Nat} {bytes line rest left : List UInt8} {e : Except FrameFault Nat}
      {n : Nat} (hline : Line bytes line rest) (h : HeaderLine.Says line (.length n))
      (hrest : Header (some n) rest e left) : Header length? bytes e left
  | missing {bytes line rest : List UInt8} (hline : Line bytes line rest)
      (h : HeaderLine.Says line .blank) : Header none bytes (.error .missingLength) rest
  | done {bytes line rest : List UInt8} {n : Nat} (hline : Line bytes line rest)
      (h : HeaderLine.Says line .blank) : Header (some n) bytes (.ok n) rest

/-- The first frame of some bytes, or what is wrong with it, and what follows; `none` if there are
no bytes. -/
inductive Reads : List UInt8 → Option FrameResult → List UInt8 → Prop where
  | ends : Reads [] none []
  | fault {bytes rest : List UInt8} {f : FrameFault} (hfull : bytes ≠ [])
      (h : Header none bytes (.error f) rest) : Reads bytes (some (.error f)) rest
  /-- The body of a frame that is too large is not touched. -/
  | tooLarge {bytes rest : List UInt8} {n : Nat} (h : Header none bytes (.ok n) rest)
      (hn : maxBody < n) : Reads bytes (some (.error (.tooLarge n))) rest
  /-- The stream ends inside the body. -/
  | short {bytes rest : List UInt8} {n : Nat} (h : Header none bytes (.ok n) rest)
      (hn : n ≤ maxBody) (hrest : rest.length < n) : Reads bytes (some (.error .bodyEnds)) []
  | body {bytes body rest : List UInt8} (h : Header none bytes (.ok body.length) (body ++ rest))
      (hn : body.length ≤ maxBody) : Reads bytes (some (bodyResult body)) rest

/-- The first frames of some bytes, one after the other, as many as are asked for. -/
inductive Answers : Nat → List UInt8 → List (Option FrameResult) → Prop where
  | nil {bytes : List UInt8} : Answers 0 bytes []
  | cons {n : Nat} {bytes rest : List UInt8} {answer : Option FrameResult}
      {answers : List (Option FrameResult)} (h : Reads bytes answer rest)
      (hrest : Answers n rest answers) : Answers (n + 1) bytes (answer :: answers)

/-! ## Lines are read as what they say -/

/-- Small letters are no blanks, so letter case has nothing to do with them. -/
theorem toLower_of_isBlank {c : Char} (h : isBlank c = true) : c.toLower = c := by
  have hupper : ¬(65 ≤ c.toNat ∧ c.toNat ≤ 90) := by
    simp only [isBlank, Bool.or_eq_true, Bool.and_eq_true, decide_eq_true_eq, beq_iff_eq] at h
    omega
  exact dif_neg fun hc => hupper ⟨hc.1, hc.2⟩

/-- Characters are tight when their small forms are. -/
theorem tight_of_map_toLower {cs : List Char} (h : Tight (cs.map Char.toLower)) : Tight cs := by
  have hsmall {c : Char} (hc : isBlank c.toLower = false) : isBlank c = false := by
    by_contra hblank
    rw [Bool.not_eq_false] at hblank
    rw [toLower_of_isBlank hblank, hblank] at hc
    cases hc
  refine ⟨fun c hc => hsmall (h.head _ ?_), fun c hc => hsmall (h.last _ ?_)⟩
  · rw [List.head?_map]
    exact Option.mem_map_of_mem _ hc
  · rw [List.getLast?_map]
    exact Option.mem_map_of_mem _ hc

/-- A name is that of the length, in whichever case and with blanks around it. -/
theorem namesLength_iff {name : List Char} :
    NamesLength name ↔ (Text.trimChars name).map Char.toLower = "content-length".toList := by
  constructor
  · rintro ⟨core, hpadded, hcore⟩
    have htight : Tight core := tight_of_map_toLower (hcore ▸ Text.tight_of_all rfl rfl)
    rwa [Text.trimChars_eq_iff.2 ⟨hpadded, htight⟩]
  · exact fun h => ⟨_, Text.padded_trimChars name, h⟩

/-- A value is a length if it is a number of 64 bits, with blanks around it. -/
theorem spellsLength_iff {value : List Char} {n : Nat} :
    SpellsLength value n ↔
      Text.readUnsigned? Text.maxUInt64 (Text.trimChars value) = some n := by
  rw [Text.readUnsigned?_eq_some_iff]
  constructor
  · rintro ⟨core, hpadded, hcore⟩
    rwa [Text.trimChars_eq_iff.2 ⟨hpadded, Text.tight_of_spellsUnsigned hcore⟩]
  · exact fun h => ⟨_, Text.padded_trimChars value, h⟩

namespace HeaderLine

variable {line : List UInt8} {s : String} {name value : List Char} {x : HeaderLine}

/-- A blank line ends the header. -/
theorem ofBytes_of_blank (hs : Text.utf8Bytes s = line) (h : ∀ c ∈ s.toList, isBlank c = true) :
    ofBytes line = .blank := by
  simp only [ofBytes, Text.ofUtf8?_eq_some_iff.2 hs, Text.trimChars_eq_nil_iff.2 h]

/-- A line that is not blank is a field without the blanks around it. -/
theorem ofBytes_of_full (hs : Text.utf8Bytes s = line) (h : ∃ c ∈ s.toList, isBlank c = false) :
    ofBytes line = ofField (Text.trimChars s.toList) := by
  have hne : Text.trimChars s.toList ≠ [] := by
    rw [ne_eq, Text.trimChars_eq_nil_iff]
    intro hall
    obtain ⟨c, hc, hfull⟩ := h
    rw [hall c hc] at hfull
    cases hfull
  simp only [ofBytes, Text.ofUtf8?_eq_some_iff.2 hs]

/-- A line without a colon says nothing. -/
theorem ofBytes_of_nameless (hs : Text.utf8Bytes s = line)
    (hfull : ∃ c ∈ s.toList, isBlank c = false) (h : ':' ∉ s.toList) : ofBytes line = .other := by
  have hnot : ':' ∉ Text.trimChars s.toList := by
    obtain ⟨before, after, heq, -, -⟩ := Text.padded_trimChars s.toList
    rw [heq] at h
    exact fun hmem => h (List.mem_append_left _ (List.mem_append_right _ hmem))
  rw [ofBytes_of_full hs hfull, ofField, Text.cutAt?_eq_none_iff.2 hnot]

/-- Blanks around a line do not matter for what stands on either side of its first colon. -/
theorem ofBytes_of_cut (hs : Text.utf8Bytes s = line) (hcut : s.toList = name ++ ':' :: value)
    (hfirst : ':' ∉ name) :
    ∃ front back, ofBytes line = ofField (front ++ ':' :: back) ∧
      Text.cutAt? ':' (front ++ ':' :: back) = some (front, back) ∧
      Text.trimChars front = Text.trimChars name ∧
      Text.trimChars back = Text.trimChars value := by
  have hfull : ∃ c ∈ s.toList, isBlank c = false := ⟨':', by simp [hcut], by decide⟩
  have hclear : ':' ∉ name.dropWhile isBlank :=
    fun hmem => hfirst ((List.dropWhile_sublist _).mem hmem)
  refine ⟨name.dropWhile isBlank, Text.dropEndWhile isBlank value, ?_,
    Text.cutAt?_eq_some_iff.2 ⟨rfl, hclear⟩, Text.trimChars_dropWhile name,
    Text.trimChars_dropEndWhile value⟩
  rw [ofBytes_of_full hs hfull, hcut, Text.trimChars_cut (by decide)]

/-- A line with another name says nothing. -/
theorem ofBytes_of_other (hs : Text.utf8Bytes s = line) (hcut : s.toList = name ++ ':' :: value)
    (hfirst : ':' ∉ name) (h : ¬NamesLength name) : ofBytes line = .other := by
  obtain ⟨front, back, hread, hfield, hname, -⟩ := ofBytes_of_cut hs hcut hfirst
  rw [namesLength_iff, ← hname] at h
  rw [hread, ofField, hfield]
  exact if_neg h

/-- A line with a length gives it. -/
theorem ofBytes_of_length {n : Nat} (hs : Text.utf8Bytes s = line)
    (hcut : s.toList = name ++ ':' :: value) (hfirst : ':' ∉ name) (h : NamesLength name)
    (hn : SpellsLength value n) : ofBytes line = .length n := by
  obtain ⟨front, back, hread, hfield, hname, hvalue⟩ := ofBytes_of_cut hs hcut hfirst
  rw [namesLength_iff, ← hname] at h
  rw [spellsLength_iff, ← hvalue] at hn
  simp only [hread, ofField, hfield, if_pos h, hn]

/-- A length that is no number is a fault. -/
theorem ofBytes_of_noNumber (hs : Text.utf8Bytes s = line)
    (hcut : s.toList = name ++ ':' :: value) (hfirst : ':' ∉ name) (h : NamesLength name)
    (hn : ∀ n, ¬SpellsLength value n) :
    ofBytes line = .fault (.invalidLength (String.ofList (Text.trimChars value))) := by
  obtain ⟨front, back, hread, hfield, hname, hvalue⟩ := ofBytes_of_cut hs hcut hfirst
  have hnone : Text.readUnsigned? Text.maxUInt64 (Text.trimChars back) = none :=
    Option.eq_none_iff_forall_not_mem.2 fun n hmem =>
      hn n (spellsLength_iff.2 (hvalue ▸ Option.mem_def.1 hmem))
  rw [namesLength_iff, ← hname] at h
  rw [← hvalue]
  simp only [hread, ofField, hfield, if_pos h, hnone]

/-- A line says what it is read as. -/
theorem says_ofBytes (line : List UInt8) : Says line (ofBytes line) := by
  cases htext : Text.ofUtf8? line with
  | none =>
    have hread : ofBytes line = .fault .lineNotText := by rw [ofBytes, htext]
    rw [hread]
    exact .noText (Text.ofUtf8?_eq_none_iff.1 htext)
  | some s =>
    have hs := Text.ofUtf8?_eq_some_iff.1 htext
    by_cases hblank : ∀ c ∈ s.toList, isBlank c = true
    · rw [ofBytes_of_blank hs hblank]
      exact .blank hs hblank
    · have hfull : ∃ c ∈ s.toList, isBlank c = false := by
        simpa only [not_forall, exists_prop, Bool.not_eq_true] using hblank
      cases hcut : Text.cutAt? ':' s.toList with
      | none =>
        have hnot := Text.cutAt?_eq_none_iff.1 hcut
        rw [ofBytes_of_nameless hs hfull hnot]
        exact .nameless hs hfull hnot
      | some p =>
        obtain ⟨heq, hfirst⟩ := Text.cutAt?_eq_some_iff.1 hcut
        by_cases hname : NamesLength p.1
        · by_cases hnumber : ∃ n, SpellsLength p.2 n
          · obtain ⟨n, hn⟩ := hnumber
            rw [ofBytes_of_length hs heq hfirst hname hn]
            exact .length hs heq hfirst hname hn
          · have hn : ∀ n, ¬SpellsLength p.2 n := not_exists.1 hnumber
            rw [ofBytes_of_noNumber hs heq hfirst hname hn]
            exact .noNumber hs heq hfirst hname hn (Text.padded_trimChars p.2)
              (Text.tight_trimChars p.2)
        · rw [ofBytes_of_other hs heq hfirst hname]
          exact .other hs heq hfirst hname

/-- Every line is read as what it says. -/
theorem says_iff : Says line x ↔ ofBytes line = x := by
  constructor
  · intro h
    cases h with
    | noText h => rw [ofBytes, Text.ofUtf8?_eq_none_iff.2 h]
    | blank hs h => exact ofBytes_of_blank hs h
    | nameless hs hfull h => exact ofBytes_of_nameless hs hfull h
    | other hs hcut hfirst h => exact ofBytes_of_other hs hcut hfirst h
    | length hs hcut hfirst h hn => exact ofBytes_of_length hs hcut hfirst h hn
    | noNumber hs hcut hfirst h hn htext htight =>
      rw [ofBytes_of_noNumber hs hcut hfirst h hn, Text.trimChars_eq_iff.2 ⟨htext, htight⟩]
  · rintro rfl
    exact says_ofBytes line

end HeaderLine

/-! ## One line after the other -/

section Lines

variable {length? : Option Nat} {bytes line rest : List UInt8} {e : Except FrameFault Nat}

/-- The first line of some bytes stands in front of the others, and is not empty. -/
theorem Line.eq_append (h : Line bytes line rest) : bytes = line ++ rest ∧ line ≠ [] := by
  cases h with
  | ended h => simp
  | last h hfull => simpa using hfull

/-- Every line takes bytes. -/
theorem Line.length_lt (h : Line bytes line rest) : rest.length < bytes.length := by
  obtain ⟨rfl, hfull⟩ := h.eq_append
  have := List.length_pos_of_ne_nil hfull
  rw [List.length_append]
  omega

/-- Where there are bytes there is a first line. -/
theorem exists_line (h : bytes ≠ []) : ∃ line rest, Line bytes line rest := by
  by_cases hmem : newline ∈ bytes
  · obtain ⟨text, rest, rfl, hnot⟩ := List.eq_append_cons_of_mem hmem
    exact ⟨_, _, .ended hnot⟩
  · exact ⟨bytes, [], .last hmem h⟩

/-- A header gives no bytes back. -/
theorem Header.length_le (h : Header length? bytes e rest) : rest.length ≤ bytes.length := by
  induction h with
  | ends => exact Nat.le_refl _
  | fault hline _ => exact Nat.le_of_lt hline.length_lt
  | other hline _ _ ih => exact Nat.le_trans ih (Nat.le_of_lt hline.length_lt)
  | length hline _ _ ih => exact Nat.le_trans ih (Nat.le_of_lt hline.length_lt)
  | missing hline _ => exact Nat.le_of_lt hline.length_lt
  | done hline _ => exact Nat.le_of_lt hline.length_lt

/-- A header takes at least one byte, when there is one. -/
theorem Header.length_lt (h : Header length? bytes e rest) (hfull : bytes ≠ []) :
    rest.length < bytes.length := by
  cases h with
  | ends => exact absurd rfl hfull
  | fault hline _ => exact hline.length_lt
  | other hline _ hrest => exact Nat.lt_of_le_of_lt hrest.length_le hline.length_lt
  | length hline _ hrest => exact Nat.lt_of_le_of_lt hrest.length_le hline.length_lt
  | missing hline _ => exact hline.length_lt
  | done hline _ => exact hline.length_lt

/-- A header with a length has at least one line. -/
theorem Header.ne_nil {n : Nat} (h : Header length? bytes (.ok n) rest) : bytes ≠ [] := by
  rintro rfl
  cases h with
  | other hline _ _ => exact Nat.not_lt_zero _ hline.length_lt
  | length hline _ _ => exact Nat.not_lt_zero _ hline.length_lt
  | done hline _ => exact Nat.not_lt_zero _ hline.length_lt

/-- A header has an end, wherever the stream ends. -/
theorem exists_header (length? : Option Nat) (bytes : List UInt8) :
    ∃ e rest, Header length? bytes e rest := by
  induction hn : bytes.length using Nat.strong_induction_on generalizing length? bytes with
  | _ n ih =>
    by_cases hempty : bytes = []
    · subst hempty
      exact ⟨_, _, .ends⟩
    · obtain ⟨line, rest, hline⟩ := exists_line hempty
      have hlt : rest.length < n := hn ▸ hline.length_lt
      have hsays := HeaderLine.says_ofBytes line
      cases hread : HeaderLine.ofBytes line with
      | blank =>
        rw [hread] at hsays
        cases length? with
        | none => exact ⟨_, _, .missing hline hsays⟩
        | some l => exact ⟨_, _, .done hline hsays⟩
      | length l =>
        rw [hread] at hsays
        obtain ⟨e, left, h⟩ := ih _ hlt (some l) rest rfl
        exact ⟨e, left, .length hline hsays h⟩
      | other =>
        rw [hread] at hsays
        obtain ⟨e, left, h⟩ := ih _ hlt length? rest rfl
        exact ⟨e, left, .other hline hsays h⟩
      | fault f =>
        rw [hread] at hsays
        exact ⟨_, _, .fault hline hsays⟩

/-- Every stream has a first answer. -/
theorem exists_reads (bytes : List UInt8) : ∃ answer rest, Reads bytes answer rest := by
  by_cases hempty : bytes = []
  · subst hempty
    exact ⟨_, _, .ends⟩
  · obtain ⟨e, rest, h⟩ := exists_header none bytes
    cases e with
    | error f => exact ⟨_, _, .fault hempty h⟩
    | ok n =>
      by_cases hlarge : maxBody < n
      · exact ⟨_, _, .tooLarge h hlarge⟩
      · have hn : n ≤ maxBody := Nat.le_of_not_lt hlarge
        by_cases hshort : rest.length < n
        · exact ⟨_, _, .short h hn hshort⟩
        · have htake : (rest.take n).length = n := List.length_take_of_le (Nat.le_of_not_lt hshort)
          refine ⟨some (bodyResult (rest.take n)), rest.drop n, .body ?_ (by rwa [htake])⟩
          rwa [htake, List.take_append_drop]

/-- Only a stream without bytes is at its end. -/
theorem Reads.ended (h : Reads bytes none rest) : bytes = [] ∧ rest = [] := by
  cases h
  exact ⟨rfl, rfl⟩

/-- An answer other than the end of the stream takes at least one byte. -/
theorem Reads.length_lt {result : FrameResult} (h : Reads bytes (some result) rest) :
    rest.length < bytes.length := by
  cases h with
  | fault hfull h => exact h.length_lt hfull
  | tooLarge h _ => exact h.length_lt h.ne_nil
  | short h _ _ => exact List.length_pos_of_ne_nil h.ne_nil
  | body h _ =>
    refine Nat.lt_of_le_of_lt ?_ (h.length_lt h.ne_nil)
    rw [List.length_append]
    exact Nat.le_add_left _ _

end Lines

end SessionHost.Rpc
