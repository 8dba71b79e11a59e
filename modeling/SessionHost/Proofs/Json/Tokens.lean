import Mathlib.Data.List.Basic
import SessionHost.Json.Token
import SessionHost.Proofs.Json.Numerals
import SessionHost.Proofs.Text.Units

/-!
# The tokens of JSON

How the tokens are written: white space between them, numerals, words, punctuation, and strings,
whose characters may be escaped in several ways.  A string has the text whose UTF-16 units it
writes, or none.  Each of them is cut off as one token, whatever follows it, as long as that does
not run on in a word or a numeral.

Main definitions:

- `Gap`, `Part.Spelled`, `StringSpelled`: characters spell white space or a string.
- `Stops`: characters that do not run on.

Main results:

- Theorem `joinParts?_eq_charsOfUnits?`: a string's text is that of its UTF-16 units.
- Theorems `Lexer.run_gap`, `Numeral.Spelled.run`, `StringSpelled.run`, `run_punctuation`: white
  space is no token, and all else is one.
-/

namespace SessionHost.Json

/-- Characters that do not run on in a word or a numeral. -/
def Stops (cs : List Char) : Prop :=
  ∀ c ∈ cs.head?, isWordChar c = false ∧ isNumeralChar c = false

theorem stops_nil : Stops [] := fun _ hc => nomatch hc

namespace Lexer

variable {out : List Token} {rest : List Char}

/-- A character is taken by one step. -/
theorem run_cons {lexer next : Lexer} {out' : List Token} {c : Char}
    (h : lexer.step out c = some (out', next)) (rest : List Char) :
    run out lexer (c :: rest) = run out' next rest := by
  rw [run, h]

/-! ## Words and numerals -/

/-- A word ends where the text does not run on. -/
theorem run_inWord (seen : List Char) {t : Token} (ht : wordToken? seen.reverse = some t)
    (h : Stops rest) : run out (.inWord seen) rest = run (t :: out) .between rest := by
  cases rest with
  | nil => simp [run, finish, ht]
  | cons c more =>
    have hc := (h c rfl).1
    simp [run, step, hc, ht]

/-- So does a numeral. -/
theorem run_inNumeral {seen : List Char} {n : Numeral}
    (hn : Numeral.ofChars? seen.reverse = some n) (h : Stops rest) :
    run out (.inNumeral seen) rest = run (.number n :: out) .between rest := by
  cases rest with
  | nil => simp [run, finish, hn]
  | cons c more =>
    have hc := (h c rfl).2
    simp [run, step, hc, hn]

/-- Characters of a numeral go on with it. -/
theorem run_numeralChars {seen cs : List Char} (h : ∀ c ∈ cs, isNumeralChar c = true) :
    run out (.inNumeral seen) (cs ++ rest) = run out (.inNumeral (cs.reverse ++ seen)) rest := by
  induction cs generalizing seen with
  | nil => rfl
  | cons c more ih =>
    have hc := h c List.mem_cons_self
    have hstep : step out (.inNumeral seen) c = some (out, .inNumeral (c :: seen)) := by
      simp [step, hc]
    rw [List.cons_append, run_cons hstep, ih fun d hd => h d (List.mem_cons_of_mem _ hd),
      List.reverse_cons, List.append_assoc]
    rfl

/-- A numeral is one token. -/
theorem run_numeral {c : Char} {cs : List Char} {n : Numeral} (hc : c.isDigit = true ∨ c = '-')
    (hcs : ∀ d ∈ cs, isNumeralChar d = true) (hn : Numeral.ofChars? (c :: cs) = some n)
    (h : Stops rest) :
    run out .between (c :: cs ++ rest) = run (.number n :: out) .between rest := by
  have hbegin : step out .between c = some (out, .inNumeral [c]) := by
    have hspace : isSpace c = false := by
      obtain hc | rfl := hc
      · by_contra hspace
        simp only [Bool.not_eq_false, isSpace, Bool.or_eq_true, decide_eq_true_eq] at hspace
        obtain ((rfl | rfl) | rfl) | rfl := hspace <;> exact absurd hc (by decide)
      · decide
    have hquote : c ≠ '"' := by
      obtain hc | rfl := hc
      · rintro rfl
        exact absurd hc (by decide)
      · decide
    have hfirst : (c.isDigit || decide (c = '-')) = true := by simpa using hc
    simp [step, begin, hspace, hquote, hfirst]
  have hseen : (cs.reverse ++ [c]).reverse = c :: cs := by simp
  rw [List.cons_append, run_cons hbegin, run_numeralChars hcs, run_inNumeral (hseen ▸ hn) h]

end Lexer

/-! ## Punctuation -/

/-- Punctuation begins no longer token. -/
theorem punctuation?_plain {c : Char} {t : Token} (h : punctuation? c = some t) :
    isWordChar c = false ∧ isNumeralChar c = false ∧ isSpace c = false ∧ c ≠ '"' := by
  unfold punctuation? at h
  split at h <;> cases h <;> decide

/-- A numeral ends before punctuation. -/
theorem stops_of_punctuation {c : Char} {t : Token} (h : punctuation? c = some t)
    (rest : List Char) : Stops (c :: rest) := by
  rintro d ⟨⟩
  exact ⟨(punctuation?_plain h).1, (punctuation?_plain h).2.1⟩

/-- Punctuation is one token. -/
theorem run_punctuation {c : Char} {t : Token} (h : punctuation? c = some t) (out : List Token)
    (rest : List Char) :
    Lexer.run out .between (c :: rest) = Lexer.run (t :: out) .between rest := by
  obtain ⟨hword, hnumeral, hspace, hquote⟩ := punctuation?_plain h
  have hfirst : (c.isDigit || decide (c = '-')) = false := by
    simp only [isNumeralChar, Bool.or_eq_false_iff] at hnumeral
    simp [hnumeral]
  exact Lexer.run_cons (by simp [Lexer.step, Lexer.begin, hspace, hquote, hfirst, hword, h]) rest

/-! ## White space -/

/-- Nothing but white space. -/
def Gap (cs : List Char) : Prop := ∀ c ∈ cs, c ∈ [' ', '\n', '\r', '\t']

instance (cs : List Char) : Decidable (Gap cs) :=
  List.decidableBAll _ cs

theorem gap_nil : Gap [] := fun _ hc => absurd hc List.not_mem_nil

/-- A gap has only space characters. -/
theorem Gap.isSpace {cs : List Char} (h : Gap cs) {c : Char} (hc : c ∈ cs) : isSpace c = true := by
  have hmem := h c hc
  simp only [List.mem_cons, List.not_mem_nil, or_false] at hmem
  simp only [Json.isSpace, Bool.or_eq_true, decide_eq_true_eq]
  tauto

namespace Lexer

/-- A gap gives no token. -/
theorem run_gap {gap : List Char} (h : Gap gap) (out : List Token) (rest : List Char) :
    run out .between (gap ++ rest) = run out .between rest := by
  induction gap with
  | nil => rfl
  | cons c more ih =>
    have hstep : step out .between c = some (out, .between) := by
      simp [step, begin, h.isSpace List.mem_cons_self]
    rw [List.cons_append, run_cons hstep, ih fun d hd => h d (List.mem_cons_of_mem _ hd)]

end Lexer

/-- White space stops a word and a numeral. -/
theorem Gap.stops {gap : List Char} (h : Gap gap) {rest : List Char} (hrest : Stops rest) :
    Stops (gap ++ rest) := by
  cases gap with
  | nil => exact hrest
  | cons c more =>
    rintro d ⟨⟩
    have hmem := h c List.mem_cons_self
    simp only [List.mem_cons, List.not_mem_nil, or_false] at hmem
    obtain rfl | rfl | rfl | rfl := hmem <;> decide

/-! ## Numerals -/

/-- Digits are characters of a numeral. -/
theorem Digits.isNumeralChar {ds : List Nat} {cs : List Char} (h : Digits ds cs) :
    ∀ c ∈ cs, isNumeralChar c = true := fun c hc => by
  simp [Json.isNumeralChar, h.isDigit hc]

/-- The characters of a fraction are those of a numeral. -/
theorem FractionSpelled.isNumeralChar {ds : List Nat} {cs : List Char} (h : FractionSpelled ds cs) :
    ∀ c ∈ cs, isNumeralChar c = true := by
  cases h with
  | absent => exact fun c hc => absurd hc List.not_mem_nil
  | given hds => exact List.forall_mem_cons.2 ⟨rfl, hds.isNumeralChar⟩

/-- The characters of an exponent are those of a numeral. -/
theorem ExponentSpelled.isNumeralChar {exponent : Option ExponentPart} {cs : List Char}
    (h : ExponentSpelled exponent cs) : ∀ c ∈ cs, isNumeralChar c = true := by
  cases h with
  | absent => exact fun c hc => absurd hc List.not_mem_nil
  | given hmark hsign hds =>
    refine List.forall_mem_cons.2 ⟨?_, List.forall_mem_append.2 ⟨?_, hds.isNumeralChar⟩⟩
    · obtain rfl | rfl := hmark <;> rfl
    · simp only [List.mem_cons, Prod.mk.injEq, List.not_mem_nil, or_false] at hsign
      obtain ⟨-, rfl⟩ | ⟨-, rfl⟩ | ⟨-, rfl⟩ := hsign <;> simp [Json.isNumeralChar]

/-- A numeral is one token. -/
theorem Numeral.Spelled.run {n : Numeral} {cs : List Char} (h : n.Spelled cs) (out : List Token)
    {rest : List Char} (hrest : Stops rest) :
    Lexer.run out .between (cs ++ rest) = Lexer.run (.number n :: out) .between rest := by
  have hread := h.ofChars?
  obtain @⟨negative, whole, fraction, exponent, wholeChars, fractionChars, exponentChars, hwhole,
    hzero, hfraction, hexponent⟩ := h
  have hbehind : ∀ c ∈ fractionChars ++ exponentChars, isNumeralChar c = true :=
    List.forall_mem_append.2 ⟨hfraction.isNumeralChar, hexponent.isNumeralChar⟩
  have hall := List.forall_mem_append.2 ⟨hwhole.isNumeralChar, hbehind⟩
  cases negative with
  | true => exact Lexer.run_numeral (.inr rfl) hall hread hrest
  | false =>
    obtain ⟨c, cs, rfl, hc⟩ := hwhole.cons
    exact Lexer.run_numeral (.inl hc) (List.forall_mem_cons.1 hall).2 hread hrest

/-! ## Strings -/

/-- The characters that one letter behind a backslash stands for. -/
def shortEscapes : List (Char × Char) :=
  [('"', '"'), ('\\', '\\'), ('/', '/'), ('b', '\x08'), ('f', '\x0c'), ('n', '\n'), ('r', '\r'),
    ('t', '\t')]

/-- A hexadecimal digit, in either letter case. -/
def HexDigit (c : Char) (value : Nat) : Prop :=
  value < 16 ∧ (c = Nat.digitChar value ∨ c = (Nat.digitChar value).toUpper)

instance (c : Char) (value : Nat) : Decidable (HexDigit c value) :=
  inferInstanceAs (Decidable (_ ∧ _))

/-- How a part of a string is written: a character as it is or behind a backslash, or the four
digits of a UTF-16 unit. -/
inductive Part.Spelled : Part → List Char → Prop where
  | plain {c : Char} (hcontrol : 0x20 ≤ c.toNat) (hquote : c ≠ '"') (hslash : c ≠ '\\') :
      Part.Spelled (.char c) [c]
  | short {letter c : Char} (h : (letter, c) ∈ shortEscapes) :
      Part.Spelled (.char c) ['\\', letter]
  | unit {a b c d : Char} {i j k l : Nat} (ha : HexDigit a i) (hb : HexDigit b j)
      (hc : HexDigit c k) (hd : HexDigit d l) :
      Part.Spelled (.unit (((i * 16 + j) * 16 + k) * 16 + l)) ['\\', 'u', a, b, c, d]

/-- The parts of a string, one behind the other. -/
inductive PartsSpelled : List Part → List Char → Prop where
  | nil : PartsSpelled [] []
  | cons {part : Part} {parts : List Part} {cs rest : List Char} (hpart : part.Spelled cs)
      (hparts : PartsSpelled parts rest) : PartsSpelled (part :: parts) (cs ++ rest)

/-- The UTF-16 units of a part. -/
def Part.units : Part → List Nat
  | .char c => Text.utf16Units c
  | .unit n => [n]

/-- The text of a string is the one with its units.  Units with half of a surrogate pair are those
of no text. -/
def TextOfParts (parts : List Part) (text : Option String) : Prop :=
  ∀ s, text = some s ↔ parts.flatMap Part.units = s.toList.flatMap Text.utf16Units

/-- Characters spell a string, with its quotes. -/
def StringSpelled (text : Option String) (cs : List Char) : Prop :=
  ∃ parts inner, cs = '"' :: (inner ++ ['"']) ∧ PartsSpelled parts inner ∧ TextOfParts parts text

theorem hexValue?_digitChar {d : Nat} (h : d < 16) : Text.hexValue? (Nat.digitChar d) = some d := by
  revert d
  decide

/-- A hexadecimal digit has its value, whichever case it is written in. -/
theorem HexDigit.hexValue? {c : Char} {value : Nat} (h : HexDigit c value) :
    Text.hexValue? c = some value := by
  obtain ⟨hvalue, rfl | rfl⟩ := h
  · exact hexValue?_digitChar hvalue
  · revert value
    decide

/-- A short escape stands for its character, and begins no long one. -/
theorem simpleEscape?_of_mem {letter c : Char} (h : (letter, c) ∈ shortEscapes) :
    simpleEscape? letter = some c ∧ letter ≠ 'u' := by
  simp only [shortEscapes, List.mem_cons, Prod.mk.injEq, List.not_mem_nil, or_false] at h
  obtain ⟨rfl, rfl⟩ | ⟨rfl, rfl⟩ | ⟨rfl, rfl⟩ | ⟨rfl, rfl⟩ | ⟨rfl, rfl⟩ | ⟨rfl, rfl⟩ | ⟨rfl, rfl⟩ |
    ⟨rfl, rfl⟩ := h <;> exact ⟨rfl, by decide⟩

/-- A part is read, however it is written. -/
theorem Part.Spelled.run {part : Part} {cs : List Char} (h : part.Spelled cs) (out : List Token)
    (parts : List Part) (rest : List Char) :
    Lexer.run out (.inString parts) (cs ++ rest) =
      Lexer.run out (.inString (part :: parts)) rest := by
  cases h with
  | @plain c hcontrol hquote hslash =>
    refine Lexer.run_cons ?_ rest
    rw [Lexer.step, if_neg hquote, if_neg hslash, if_neg (Nat.not_lt.2 hcontrol)]
  | short h =>
    obtain ⟨hescape, hu⟩ := simpleEscape?_of_mem h
    simp [Lexer.run, Lexer.step, hescape, hu]
  | unit ha hb hc hd =>
    simp [Lexer.run, Lexer.step, ha.hexValue?, hb.hexValue?, hc.hexValue?, hd.hexValue?]

/-- The parts of a string are taken one by one. -/
theorem PartsSpelled.run {parts : List Part} {cs : List Char} (h : PartsSpelled parts cs)
    (out : List Token) (before : List Part) (rest : List Char) :
    Lexer.run out (.inString before) (cs ++ rest) =
      Lexer.run out (.inString (parts.reverse ++ before)) rest := by
  induction h generalizing before with
  | nil => rfl
  | cons hpart hparts ih =>
    rw [List.append_assoc, hpart.run, ih, List.reverse_cons, List.append_assoc,
      List.singleton_append]

theorem isHighSurrogate_iff {n : Nat} : isHighSurrogate n = true ↔ 0xD800 ≤ n ∧ n < 0xDC00 := by
  simp only [isHighSurrogate, Bool.and_eq_true, decide_eq_true_eq]
  omega

theorem isLowSurrogate_iff {n : Nat} : isLowSurrogate n = true ↔ 0xDC00 ≤ n ∧ n < 0xE000 := by
  simp only [isLowSurrogate, Bool.and_eq_true, decide_eq_true_eq]
  omega

/-- A string has the text that its UTF-16 units spell. -/
theorem joinParts?_eq_charsOfUnits? (parts : List Part) :
    joinParts? parts = Text.charsOfUnits? (parts.flatMap Part.units) := by
  fun_induction joinParts? parts with
  | case1 => rfl
  | case2 c rest ih => rw [List.flatMap_cons, Part.units, Text.charsOfUnits?_append, ih]
  | case3 n h =>
    rw [Bool.or_eq_true, isHighSurrogate_iff, isLowSurrogate_iff] at h
    exact (Text.charsOfUnits?_broken (by omega) fun v hv => by cases hv).symm
  | case4 n h =>
    rw [Bool.or_eq_true, isHighSurrogate_iff, isLowSurrogate_iff] at h
    exact (Text.charsOfUnits?_free (by omega) []).symm
  | case5 n c rest h =>
    rw [Bool.or_eq_true, isHighSurrogate_iff, isLowSurrogate_iff] at h
    refine (Text.charsOfUnits?_broken (by omega) fun v hv hpair => ?_).symm
    exact Text.utf16Units_head c (rest.flatMap Part.units) v hv hpair.2
  | case6 n c rest h ih =>
    rw [Bool.or_eq_true, isHighSurrogate_iff, isLowSurrogate_iff] at h
    have hunit : Text.charsOfUnits? ((Part.unit n :: .char c :: rest).flatMap Part.units) =
        (Text.charsOfUnits? (Text.utf16Units c ++ rest.flatMap Part.units)).map
          (Char.ofNat n :: ·) := Text.charsOfUnits?_free (by omega) _
    rw [hunit, Text.charsOfUnits?_append, ih, Option.map_map]
    rfl
  | case7 n m rest hn hm ih =>
    exact ih ▸ (Text.charsOfUnits?_pair (isHighSurrogate_iff.1 hn) (isLowSurrogate_iff.1 hm) _).symm
  | case8 n m rest hn hm =>
    rw [isHighSurrogate_iff] at hn
    rw [isLowSurrogate_iff] at hm
    refine (Text.charsOfUnits?_broken (by omega) fun v hv hpair => hm ?_).symm
    obtain rfl := Option.some.inj hv
    exact hpair.2
  | case9 n m rest hn hlow =>
    rw [isLowSurrogate_iff] at hlow
    exact (Text.charsOfUnits?_broken (by omega) fun v hv hpair => by omega).symm
  | case10 n m rest hn hlow ih =>
    rw [isHighSurrogate_iff] at hn
    rw [isLowSurrogate_iff] at hlow
    rw [ih]
    exact (Text.charsOfUnits?_free (by omega) _).symm

/-- A part of a string gives units of 16 bits. -/
theorem Part.Spelled.isUnit {part : Part} {cs : List Char} (h : part.Spelled cs) :
    ∀ u ∈ part.units, Text.IsUnit u := by
  cases h with
  | plain | short => exact fun u hu => Text.isUnit_of_mem_utf16Units hu
  | unit ha hb hc hd =>
    intro u hu
    obtain rfl := List.mem_singleton.1 hu
    have hi := ha.1
    have hj := hb.1
    have hk := hc.1
    have hl := hd.1
    unfold Text.IsUnit
    omega

/-- All parts of a string give units of 16 bits. -/
theorem PartsSpelled.isUnit {parts : List Part} {cs : List Char} (h : PartsSpelled parts cs) :
    ∀ u ∈ parts.flatMap Part.units, Text.IsUnit u := by
  induction h with
  | nil => exact fun u hu => absurd hu List.not_mem_nil
  | cons hpart hparts ih =>
    rw [List.flatMap_cons]
    exact List.forall_mem_append.2 ⟨hpart.isUnit, ih⟩

/-- The text of a string is what its parts are joined to. -/
theorem textOfParts_iff {parts : List Part} {text : Option String}
    (hunits : ∀ u ∈ parts.flatMap Part.units, Text.IsUnit u) :
    TextOfParts parts text ↔ (joinParts? parts).map String.ofList = text := by
  have hjoin (s : String) : (joinParts? parts).map String.ofList = some s ↔
      parts.flatMap Part.units = s.toList.flatMap Text.utf16Units := by
    rw [joinParts?_eq_charsOfUnits?, Option.map_eq_some_iff]
    constructor
    · rintro ⟨chars, hchars, rfl⟩
      rw [String.toList_ofList]
      exact (Text.charsOfUnits?_eq_some_iff hunits).1 hchars
    · intro h
      exact ⟨s.toList, (Text.charsOfUnits?_eq_some_iff hunits).2 h, String.ofList_toList⟩
  constructor
  · exact fun h => Option.ext fun s => (hjoin s).trans (h s).symm
  · rintro rfl
    exact hjoin

/-- Parts between quotes spell a string, with the text that they are joined to. -/
theorem PartsSpelled.quoted {parts : List Part} {inner : List Char} (h : PartsSpelled parts inner) :
    StringSpelled ((joinParts? parts).map String.ofList) ('"' :: (inner ++ ['"'])) :=
  ⟨parts, inner, rfl, h, (textOfParts_iff h.isUnit).2 rfl⟩

/-- A string is one token, with its text. -/
theorem StringSpelled.run {text : Option String} {cs : List Char} (h : StringSpelled text cs)
    (out : List Token) (rest : List Char) :
    Lexer.run out .between (cs ++ rest) = Lexer.run (.string text :: out) .between rest := by
  obtain ⟨parts, inner, rfl, hparts, htext⟩ := h
  have hread := (textOfParts_iff hparts.isUnit).1 htext
  have hbegin : Lexer.step out .between '"' = some (out, .inString []) := by
    simp [Lexer.step, Lexer.begin, isSpace]
  have hend : Lexer.step out (.inString parts.reverse) '"' =
      some (.string text :: out, .between) := by
    simp [Lexer.step, stringToken, hread]
  rw [List.cons_append, List.append_assoc, Lexer.run_cons hbegin, hparts.run, List.append_nil,
    List.singleton_append, Lexer.run_cons hend]

end SessionHost.Json
