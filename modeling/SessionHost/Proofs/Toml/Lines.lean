import SessionHost.Proofs.Toml.Values
import SessionHost.Toml.Render

/-!
# Written lines are read back

The lines of a document are keys with values, table headers, and blank lines and comments in
front of them.  What is written for a leaf or a header, with the blank lines that belong to it, is
read as one statement behind these blank lines; and so a whole written document is read as the
leaves and headers that were written.

Main definitions:

- `Blanks`, `IsLead`: complete blank lines, and what stands in front of a line.
- `IsLineText`: what is written behind a key up to the end of its line.
- `Sheet`: a table header with its own leaves, and its text.
- `IsMember`, `IsSection`: statements that are read as a leaf, and as a sheet.

Main results:

- Theorem `Sheets.read`: a written document is read as what was written.
- Theorem `statements?_sound`: what is known of the statements of any document.
-/

namespace SessionHost.Toml

variable {cs rest : List Char}

/-! ## Texts in a line -/

/-- Blank space inside a line. -/
def IsBlank (cs : List Char) : Prop := ∀ c ∈ cs, isBlankChar c = true

/-- Complete blank lines and comments. -/
inductive Blanks : List Char → Prop where
  | nil : Blanks []
  | line {tail more : List Char} (h : LineTail tail) (hmore : Blanks more) :
      Blanks (tail ++ '\n' :: more)

/-- What may stand in front of a key or a header: blank lines, and space in its own line. -/
def IsLead (cs : List Char) : Prop :=
  ∃ lines blank, cs = lines ++ blank ∧ Blanks lines ∧ IsBlank blank

/-- What is written behind a key up to the end of its line. -/
def IsLineText (text : String) (v : Value) : Prop :=
  ∃ blank value tail, text.toList = blank ++ (value ++ tail) ∧ IsBlank blank ∧ LineTail tail ∧
    Rereads readValue? value v

/-- A leaf of a document. -/
abbrev LineLeaf (l : Leaf) : Prop :=
  l.Sound IsInnerKey (IsLeafKey IsLead IsBlank) IsLineText maxKeyParts ∧
    ∀ k ∈ (l.path ++ [l.key]).head?, k.behindDot = ""

/-- What ends a line begins with white space or with a comment. -/
theorem LineTail.head {tail : List Char} (h : LineTail tail) :
    ∀ c ∈ tail.head?, isBlankChar c = true ∨ c = '#' := by
  obtain ⟨blank, comment, rfl, hblank, -, hhash⟩ := h
  intro c hc
  cases blank with
  | nil => exact .inr (hhash c hc)
  | cons d more =>
    cases hc
    exact .inl (hblank _ List.mem_cons_self)

/-- White space before the end of a line belongs to it. -/
theorem lineTail_cons {c : Char} {tail : List Char} (hc : isBlankChar c = true)
    (h : LineTail (c :: tail)) : LineTail tail := by
  obtain ⟨blank, comment, hsplit, hblank, hcomment, hhash⟩ := h
  cases blank with
  | nil =>
    have := hhash c (by rw [← List.nil_append comment, ← hsplit]; rfl)
    rw [this] at hc
    exact absurd hc (by decide)
  | cons d more =>
    cases hsplit
    exact ⟨more, comment, rfl, fun e he => hblank e (List.mem_cons_of_mem _ he), hcomment, hhash⟩

/-- The end of a line ends a value. -/
theorem LineTail.isValueEnd {tail : List Char} (h : LineTail tail) (rest : List Char) :
    IsValueEnd (tail ++ '\n' :: rest) := by
  have hstart {t : List Char} (ht : LineTail t) :
      ∀ d ∈ (t ++ '\n' :: rest).head?, isSpaceChar d = true ∨ d = '#' ∨ isCloser d = true := by
    intro d hd
    cases hcons : t with
    | nil =>
      rw [hcons] at hd
      cases hd
      exact .inl (by decide)
    | cons e more =>
      rw [hcons] at hd
      rcases ht.head d (by rw [hcons]; exact hd) with hblank | hhash
      · exact .inl (by simp [isSpaceChar, hblank])
      · exact .inr (.inl hhash)
  refine isValueEnd_of_head (by simp) (hstart h) fun hspace => ?_
  cases tail with
  | nil => simp at hspace
  | cons c more =>
    obtain rfl : c = ' ' := by simpa using hspace
    exact hstart (lineTail_cons (by decide) h)

/-! ## One statement -/

/-- An empty line, or one with a comment, is read as such. -/
theorem readStatement?_blank {tail : List Char} (h : LineTail tail) :
    readStatement? (tail ++ '\n' :: rest) = some (.blank (tail ++ ['\n']), rest) := by
  have hend : readLineEnd? (tail ++ (['\n'] ++ rest)) = some (tail, rest) :=
    readLineEnd?_tail h .plain
  obtain ⟨blank, comment, rfl, hblank, -, hhash⟩ := h
  have htake :
      takeBlank (blank ++ (comment ++ '\n' :: rest)) = (blank, comment ++ '\n' :: rest) := by
    refine takeBlank_append hblank fun c hc => ?_
    cases comment with
    | nil =>
      cases hc
      decide
    | cons d more =>
      rw [hhash c hc]
      decide
  have hstart : (comment ++ '\n' :: rest).isEmpty || (comment ++ '\n' :: rest).head? = some '#' ||
      (dropLineEnd? (comment ++ '\n' :: rest)).isSome := by
    cases comment with
    | nil => rfl
    | cons d more => simp [hhash d rfl]
  rw [List.append_assoc] at hend ⊢
  rw [readStatement?, htake]
  split
  · next heq =>
    cases comment with
    | nil => cases heq
    | cons d more =>
      simp only [List.cons_append, List.cons.injEq] at heq
      rw [hhash d rfl] at heq
      exact absurd heq.1 (by decide)
  · rw [if_pos hstart, show blank ++ (comment ++ '\n' :: rest) =
      blank ++ (comment ++ (['\n'] ++ rest)) from rfl, hend]
    simp only [Option.map_some, Option.some.injEq, Prod.mk.injEq, and_true]
    have hsplit :
        blank ++ (comment ++ (['\n'] ++ rest)) = (blank ++ comment ++ ['\n']) ++ rest := by
      simp
    rw [hsplit, List.length_append, Nat.add_sub_cancel, List.take_left' rfl]

/-- The last line needs no line end. -/
theorem readStatement?_last {tail : List Char} (h : LineTail tail) :
    readStatement? tail = some (.blank tail, []) := by
  have hend := readLineEnd?_last h
  obtain ⟨blank, comment, rfl, hblank, -, hhash⟩ := h
  have htake : takeBlank (blank ++ comment) = (blank, comment) := by
    refine takeBlank_append hblank fun c hc => ?_
    rw [hhash c hc]
    decide
  have hstart : comment.isEmpty || comment.head? = some '#' || (dropLineEnd? comment).isSome := by
    cases comment with
    | nil => rfl
    | cons d more => simp [hhash d rfl]
  rw [readStatement?, htake]
  split
  · next heq =>
    simp only at heq
    rw [heq] at hhash
    exact absurd (hhash '[' rfl) (by decide)
  · rw [if_pos hstart, hend]
    simp [List.take_of_length_le]

/-- White space is taken up to what begins a statement. -/
theorem takeBlank_of_start {blank : List Char} (hblank : IsBlank blank) {c : Char}
    (hc : isSpaceChar c = false) (more : List Char) :
    takeBlank (blank ++ c :: more) = (blank, c :: more) := by
  refine takeBlank_append hblank ?_
  rintro d ⟨⟩
  simp only [isSpaceChar, Bool.or_eq_false_iff] at hc
  exact hc.1.1

/-- A leaf, with the space in front of it in its line. -/
theorem readMember?_leaf {l : Leaf} (hl : LineLeaf l) {lead trail : String}
    (haround : l.key.around = some (lead, trail)) {blank : List Char} (hblank : IsBlank blank) :
    readMember? (blank ++ (partsText (partsOf "" "" (l.path ++ [l.key])) ++
        (trail.toList ++ '=' :: l.text.toList)) ++ '\n' :: rest) =
      some (.member (partsOf (String.ofList blank) trail (l.path ++ [l.key])) l.text.toList l.value,
        rest) := by
  obtain ⟨⟨hpath, hkey, ⟨space, value, tail, htext, hspace, htail, hagain⟩, hheight⟩, hroot⟩ := hl
  obtain ⟨lead', trail', haround', hlead, htrail⟩ := hkey.around
  rw [haround] at haround'
  cases haround'
  have hne : l.path ++ [l.key] ≠ [] := by simp
  obtain ⟨d, others, hvalue, hd⟩ := hagain.start
  have hwhole : blank ++ (partsText (partsOf "" "" (l.path ++ [l.key])) ++
      (trail.toList ++ '=' :: l.text.toList)) ++ '\n' :: rest =
      partsText (partsOf (String.ofList blank) trail (l.path ++ [l.key])) ++
        '=' :: (space ++ (value ++ (tail ++ '\n' :: rest))) := by
    rw [partsText_partsOf_blank (String.ofList blank) trail hne, htext]
    simp
  rw [hwhole, readMember?, readKeyPath?, readKeyParts?_partsText (partsOf_ne_nil hne _ _)
    (by simpa using Nat.succ_le_of_lt hheight)
    (partsOf_sound (hkey.path_sound hpath) (by simpa [IsBlank] using hblank) htrail)
    (by rintro e ⟨⟩; decide)]
  simp only
  rw [takeBlank_append hspace (by
    rw [hvalue]
    rintro e ⟨⟩
    have := (isSpaceChar_of_isValueStart hd).1
    simp only [isSpaceChar, Bool.or_eq_false_iff] at this
    exact this.1.1)]
  simp only
  rw [hagain.read _ (htail.isValueEnd rest)]
  simp only
  rw [show tail ++ '\n' :: rest = tail ++ (['\n'] ++ rest) from rfl,
    readLineEnd?_tail htail .plain]
  simp [htext]

/-- What begins with a leaf, with space in front of it, is a line with a leaf. -/
theorem readStatement?_member {l : Leaf} (hl : LineLeaf l) {lead trail : String}
    (haround : l.key.around = some (lead, trail)) {blank : List Char} (hblank : IsBlank blank) :
    readStatement? (blank ++ (partsText (partsOf "" "" (l.path ++ [l.key])) ++
        (trail.toList ++ '=' :: l.text.toList)) ++ '\n' :: rest) =
      some (.member (partsOf (String.ofList blank) trail (l.path ++ [l.key])) l.text.toList l.value,
        rest) := by
  obtain ⟨c, more, hstart, hc⟩ := partsText_start (by simp) (hl.1.key.path_sound hl.1.path)
  have hkeyStart := isSpaceChar_of_isKeyStart hc
  have htake : takeBlank (blank ++ (partsText (partsOf "" "" (l.path ++ [l.key])) ++
      (trail.toList ++ '=' :: l.text.toList)) ++ '\n' :: rest) =
      (blank, c :: more ++ (trail.toList ++ '=' :: l.text.toList) ++ '\n' :: rest) := by
    rw [hstart, List.append_assoc]
    exact takeBlank_of_start hblank hkeyStart.1 _
  rw [readStatement?, htake]
  split
  · next heq => exact absurd (List.cons.inj heq).1 hkeyStart.2.2.1
  · next start _ =>
    rw [if_neg, readMember?_leaf hl haround hblank]
    have hspace := hkeyStart.1
    simp only [isSpaceChar, Bool.or_eq_false_iff, decide_eq_false_iff_not] at hspace
    have hnone : dropLineEnd? (c :: more ++ (trail.toList ++ '=' :: l.text.toList) ++
        '\n' :: rest) = none := by
      rw [List.cons_append, List.cons_append, dropLineEnd?]
      · exact fun _ heq => hspace.1.2 (List.cons.inj heq).1
      · exact fun _ heq => hspace.2 (List.cons.inj heq).1
    rw [hnone]
    simp [hkeyStart.2.1]

/-! ## Headers -/

/-- A table header with its own leaves: its keys, the texts in front of it and behind it, and its
number. -/
structure Sheet where
  doubled : Bool
  path : List Key
  key : Key
  position : Nat
  before : String
  after : String
  leaves : List Leaf

/-- The header's information. -/
def Sheet.info (s : Sheet) : TableInfo := ⟨.header, s.position, s.before, s.after⟩

/-- A header that can be written and read. -/
structure Sheet.Sound (s : Sheet) : Prop where
  path : ∀ k ∈ s.path, IsInnerKey k
  key : IsLeafKey IsBlank IsBlank s.key
  root : ∀ k ∈ (s.path ++ [s.key]).head?, k.behindDot = ""
  height : s.path.length < maxKeyParts
  before : IsLead s.before.toList
  after : LineTail s.after.toList
  leaves : ∀ l ∈ s.leaves, LineLeaf l

/-- The brackets of a header with its keys. -/
def Sheet.bracketed (s : Sheet) (trail : String) (lead : String) : List Char :=
  let path := partsText (partsOf lead trail (s.path ++ [s.key]))
  if s.doubled then '[' :: '[' :: (path ++ [']', ']']) else '[' :: (path ++ [']'])

/-- The text of a path is never taken for a header. -/
theorem partsText_head_ne {lead : String} (trail : String) {path : List Key} (hne : path ≠ [])
    (h : ∀ k ∈ path, k.Sound) (hlead : IsBlank lead.toList) (other : List Char) :
    (partsText (partsOf lead trail path) ++ other).head? ≠ some '[' := by
  obtain ⟨c, more, hstart, hc⟩ := partsText_start hne h
  rw [partsText_partsOf_blank lead trail hne, hstart]
  cases hcons : lead.toList with
  | nil =>
    intro heq
    cases heq
    exact absurd hc (by decide)
  | cons d ds =>
    intro heq
    cases heq
    exact absurd (hlead _ (hcons ▸ List.mem_cons_self)) (by decide)

/-- A bracket behind white space begins a header. -/
theorem readStatement?_open {blank : List Char} (hblank : IsBlank blank) (cs : List Char) :
    readStatement? (blank ++ '[' :: cs) = readHeader? blank cs := by
  rw [readStatement?, takeBlank_of_start hblank (by decide)]
  rfl

/-- A header, with the space in front of it in its line. -/
theorem readStatement?_header {s : Sheet} (hs : s.Sound) {lead trail : String}
    (haround : s.key.around = some (lead, trail)) {blank : List Char} (hblank : IsBlank blank) :
    readStatement? (blank ++ s.bracketed trail lead ++ (s.after.toList ++ '\n' :: rest)) =
      some (.header s.doubled blank (partsOf lead trail (s.path ++ [s.key])) s.after.toList,
        rest) := by
  obtain ⟨lead', trail', haround', hlead, htrail⟩ := hs.key.around
  rw [haround] at haround'
  cases haround'
  have hne : s.path ++ [s.key] ≠ [] := by simp
  have hsound := hs.key.path_sound hs.path
  have hread (other : List Char) :
      readKeyPath? (partsText (partsOf lead trail (s.path ++ [s.key])) ++ ']' :: other) =
        some (partsOf lead trail (s.path ++ [s.key]), ']' :: other) :=
    readKeyParts?_partsText (partsOf_ne_nil hne _ _) (by simpa using Nat.succ_le_of_lt hs.height)
      (partsOf_sound hsound hlead htrail) (by rintro e ⟨⟩; decide)
  have hend : readLineEnd? (s.after.toList ++ '\n' :: rest) = some (s.after.toList, rest) :=
    readLineEnd?_tail hs.after .plain
  rw [Sheet.bracketed, List.append_assoc]
  cases hdoubled : s.doubled with
  | true =>
    rw [if_pos rfl, List.cons_append, readStatement?_open hblank]
    simp only [readHeader?, List.cons_append, List.append_assoc, List.nil_append, List.head?_cons,
      decide_true, if_true, List.drop_succ_cons, List.drop_zero]
    rw [hread]
    simp only [Option.bind_some]
    rw [hend]
    rfl
  | false =>
    have hopen := partsText_head_ne trail hne hsound hlead (']' :: (s.after.toList ++ '\n' :: rest))
    rw [if_neg (by simp), List.cons_append, readStatement?_open hblank]
    simp only [readHeader?, List.append_assoc, List.cons_append, List.nil_append]
    rw [show decide ((partsText (partsOf lead trail (s.path ++ [s.key])) ++
      ']' :: (s.after.toList ++ '\n' :: rest)).head? = some '[') = false by simpa using hopen]
    simp only [Bool.false_eq_true, if_false]
    rw [hread]
    simp only [Option.bind_some]
    rw [hend]
    rfl

/-! ## All statements -/

/-- The statements that are read from a text, with any fuel that suffices. -/
def ReadsAs (cs : List Char) (ss : List Statement) : Prop :=
  ∀ n, cs.length ≤ n → readStatements? cs n = some ss

theorem readsAs_nil : ReadsAs [] [] := by
  intro n _
  cases n <;> rfl

/-- A line that is read, before lines that are read, is one statement more. -/
theorem ReadsAs.cons {s : Statement} {ss : List Statement} {line : List Char}
    (h : readStatement? (line ++ rest) = some (s, rest)) (hne : line ≠ [])
    (hrest : ReadsAs rest ss) : ReadsAs (line ++ rest) (s :: ss) := by
  intro n hn
  obtain ⟨c, more, rfl⟩ := List.exists_cons_of_ne_nil hne
  obtain ⟨m, rfl⟩ : ∃ m, n = m + 1 := ⟨n - 1, by simp at hn; omega⟩
  rw [List.cons_append] at h hn ⊢
  rw [readStatements?, h]
  simp only
  rw [hrest m (by simp at hn; omega)]
  rfl

/-- Blank lines are statements of their own. -/
theorem Blanks.readsAs {lines : List Char} (h : Blanks lines) {ss : List Statement}
    (hrest : ReadsAs rest ss) :
    ∃ texts : List (List Char), texts.flatten = lines ∧
      ReadsAs (lines ++ rest) (texts.map .blank ++ ss) := by
  induction h with
  | nil => exact ⟨[], rfl, hrest⟩
  | @line tail more htail _ ih =>
    obtain ⟨texts, hflat, hread⟩ := ih
    refine ⟨(tail ++ ['\n']) :: texts, by simp [hflat], ?_⟩
    have hline : tail ++ '\n' :: more ++ rest = (tail ++ ['\n']) ++ (more ++ rest) := by simp
    rw [hline]
    refine ReadsAs.cons ?_ (by simp) hread
    rw [List.append_assoc]
    exact readStatement?_blank htail

/-- Empty lines before a value go to that value. -/
theorem ofStatements_blanks_member (texts : List (List Char)) (path : List KeyPart)
    (text : List Char) (v : Value) (ss : List Statement) :
    Outline.ofStatements (texts.map .blank ++ .member path text v :: ss) =
      { Outline.ofStatements ss with
        head := (texts.flatten, path, text, v) :: (Outline.ofStatements ss).head } := by
  induction texts with
  | nil => rfl
  | cons t rest ih =>
    rw [List.map_cons, List.cons_append, Outline.ofStatements, ih]
    rfl

/-- Empty lines before a header go to that header. -/
theorem ofStatements_blanks_header (texts : List (List Char)) (doubled : Bool)
    (before : List Char) (path : List KeyPart) (after : List Char) (ss : List Statement) :
    Outline.ofStatements (texts.map .blank ++ .header doubled before path after :: ss) =
      ⟨[], ⟨doubled, texts.flatten ++ before, path, after, (Outline.ofStatements ss).head⟩ ::
        (Outline.ofStatements ss).sections, (Outline.ofStatements ss).trailing⟩ := by
  induction texts with
  | nil => rfl
  | cons t rest ih =>
    rw [List.map_cons, List.cons_append, Outline.ofStatements, ih]
    simp

/-- Empty lines before nothing are the end of the document. -/
theorem ofStatements_blanks (texts : List (List Char)) :
    Outline.ofStatements (texts.map .blank) = ⟨[], [], texts.flatten⟩ := by
  induction texts with
  | nil => rfl
  | cons t rest ih =>
    rw [List.map_cons, Outline.ofStatements, ih]
    rfl

/-! ## Written documents -/

/-- The lines of leaves. -/
def leafLines (ls : List Leaf) : List Char := ls.flatMap fun l => leafText l ++ ['\n']

/-- The lines of leaves, as characters. -/
theorem toList_memberLines (ls : List Leaf) :
    (memberLines (ls.map Leaf.member)).toList = leafLines ls := by
  induction ls with
  | nil => rfl
  | cons l rest ih =>
    simp only [memberLines, List.map_cons, String.join_cons, String.toList_append] at ih ⊢
    rw [ih]
    simp [leafLines, leafText]

/-- The text of a sheet. -/
def Sheet.text (s : Sheet) : String :=
  headerText s.doubled (s.path ++ [s.key]) s.info ++ memberLines (s.leaves.map Leaf.member)

/-- What is written for a header and the lines below it, as characters. -/
theorem Sheet.toList_text {s : Sheet} {lead trail : String}
    (haround : s.key.around = some (lead, trail)) :
    s.text.toList = s.before.toList ++ (s.bracketed trail lead ++
      (s.after.toList ++ '\n' :: leafLines s.leaves)) := by
  have hpath : (pathText (s.path ++ [s.key]) ("", "")).toList =
      partsText (partsOf lead trail (s.path ++ [s.key])) := by
    rw [toList_pathText, haround, partsText_partsOf_blank lead trail (by simp)]
    rfl
  rw [Sheet.text, headerText, String.toList_append, toList_memberLines, Sheet.bracketed]
  cases s.doubled <;> simp [hpath, Sheet.info]

/-- A key with its value, with the blank lines in front of it, that is read as a leaf. -/
structure IsMember (m : List Char × List KeyPart × List Char × Value) (l : Leaf) : Prop where
  keys : Key.ofPath? (plainText m.1) m.2.1 "" = some (l.path, l.key)
  text : String.ofList m.2.2.1 = l.text
  value : m.2.2.2 = l.value

/-- A section that is read as a sheet, whatever its number. -/
structure IsSection (c : Section) (s : Sheet) : Prop where
  doubled : c.doubled = s.doubled
  keys : Key.ofPath? "" c.path "" = some (s.path, s.key)
  before : plainText c.before = s.before
  after : plainText c.after = s.after
  body : List.Forall₂ IsMember c.body s.leaves

/-- A text without carriage returns is plain already. -/
theorem plainText_of_noReturn (h : '\r' ∉ cs) : plainText cs = String.ofList cs := by
  rw [plainText, List.filter_eq_self.2 fun c hc => ?_]
  have : c ≠ '\r' := fun heq => h (heq ▸ hc)
  simpa using this

/-- Empty lines and comments have no carriage returns. -/
theorem Blanks.noReturn {lines : List Char} (h : Blanks lines) : '\r' ∉ lines := by
  induction h with
  | nil => simp
  | line htail _ ih =>
    rw [List.mem_append, List.mem_cons]
    rintro (hmem | hmem | hmem)
    · exact htail.noReturn hmem
    · exact absurd hmem (by decide)
    · exact ih hmem

/-- White space on a line has no carriage returns. -/
theorem IsBlank.noReturn {blank : List Char} (h : IsBlank blank) : '\r' ∉ blank :=
  fun hmem => absurd (h _ hmem) (by decide)

/-- The line of a leaf is read as that leaf. -/
theorem readsAs_leaf {l : Leaf} (hl : LineLeaf l) {ss : List Statement} (hrest : ReadsAs rest ss) :
    ∃ ss' m, ReadsAs (leafText l ++ ['\n'] ++ rest) ss' ∧ IsMember m l ∧
      Outline.ofStatements ss' = { Outline.ofStatements ss with
        head := m :: (Outline.ofStatements ss).head } := by
  obtain ⟨lead, trail, haround, ⟨lines, blank, hlead, hlines, hblank⟩, htrail⟩ := hl.1.key.around
  have hread := @readStatement?_member rest l hl lead trail haround blank hblank
  have hmember : ReadsAs (blank ++ (partsText (partsOf "" "" (l.path ++ [l.key])) ++
      (trail.toList ++ '=' :: l.text.toList)) ++ ['\n'] ++ rest)
      (.member (partsOf (String.ofList blank) trail (l.path ++ [l.key])) l.text.toList l.value ::
        ss) := by
    refine ReadsAs.cons ?_ (by simp) hrest
    rw [List.append_assoc _ ['\n']]
    exact hread
  obtain ⟨texts, hflat, hall⟩ := hlines.readsAs hmember
  refine ⟨_, (texts.flatten, partsOf (String.ofList blank) trail (l.path ++ [l.key]),
    l.text.toList, l.value), ?_, ⟨?_, by simp, rfl⟩, ofStatements_blanks_member _ _ _ _ _⟩
  · have hwhole : leafText l ++ ['\n'] ++ rest =
        lines ++ (blank ++ (partsText (partsOf "" "" (l.path ++ [l.key])) ++
          (trail.toList ++ '=' :: l.text.toList)) ++ ['\n'] ++ rest) := by
      rw [leafText_eq haround, hlead]
      simp
    rw [hwhole]
    exact hall
  · have hinner : l.path.map Key.asInner = l.path :=
      (List.map_congr_left fun k hk => (hl.1.path k hk).asInner).trans (List.map_id' _)
    have hlast :
        l.key.asLeaf (String.ofList lines ++ String.ofList blank, trail ++ "") = l.key := by
      refine hl.1.key.asLeaf ?_
      rw [haround, ← String.ofList_append, ← hlead]
      simp
    rw [hflat, plainText_of_noReturn hlines.noReturn, ofPath?_partsOf _ _ _ _ _ _ hl.2, hinner,
      hlast]

/-- The lines of leaves are read as these leaves. -/
theorem readsAs_leaves {ls : List Leaf} (hls : ∀ l ∈ ls, LineLeaf l) {ss : List Statement}
    (hrest : ReadsAs rest ss) :
    ∃ ss' body, ReadsAs (leafLines ls ++ rest) ss' ∧ List.Forall₂ IsMember body ls ∧
      Outline.ofStatements ss' = { Outline.ofStatements ss with
        head := body ++ (Outline.ofStatements ss).head } := by
  induction ls with
  | nil => exact ⟨ss, [], hrest, .nil, rfl⟩
  | cons l more ih =>
    obtain ⟨ss₁, body, hread, hbody, houtline⟩ := ih fun l hl => hls l (List.mem_cons_of_mem _ hl)
    obtain ⟨ss₂, m, hread', hm, houtline'⟩ := readsAs_leaf (hls l List.mem_cons_self) hread
    refine ⟨ss₂, m :: body, ?_, .cons hm hbody, ?_⟩
    · simpa [leafLines] using hread'
    · rw [houtline', houtline]
      rfl

/-- A header and the lines below it are read as one section. -/
theorem readsAs_sheet {s : Sheet} (hs : s.Sound) {ss : List Statement} (hrest : ReadsAs rest ss)
    (hhead : (Outline.ofStatements ss).head = []) :
    ∃ ss' c, ReadsAs (s.text.toList ++ rest) ss' ∧ IsSection c s ∧
      Outline.ofStatements ss' = ⟨[], c :: (Outline.ofStatements ss).sections,
        (Outline.ofStatements ss).trailing⟩ := by
  obtain ⟨ss₁, body, hread, hbody, houtline⟩ := readsAs_leaves hs.leaves hrest
  obtain ⟨lead, trail, haround, hlead, htrail⟩ := hs.key.around
  obtain ⟨lines, blank, hbefore, hlines, hblank⟩ := hs.before
  have hheader := @readStatement?_header (leafLines s.leaves ++ rest) s hs lead trail haround blank
    hblank
  have hall : ReadsAs (blank ++ s.bracketed trail lead ++ (s.after.toList ++ ['\n']) ++
      (leafLines s.leaves ++ rest))
      (.header s.doubled blank (partsOf lead trail (s.path ++ [s.key])) s.after.toList :: ss₁) := by
    refine ReadsAs.cons ?_ (by simp) hread
    rw [List.append_assoc _ (s.after.toList ++ ['\n']), List.append_assoc s.after.toList]
    exact hheader
  obtain ⟨texts, hflat, hwhole⟩ := hlines.readsAs hall
  have htext : s.text.toList ++ rest = lines ++ (blank ++ s.bracketed trail lead ++
      (s.after.toList ++ ['\n']) ++ (leafLines s.leaves ++ rest)) := by
    rw [Sheet.toList_text haround, hbefore]
    simp
  rw [← htext] at hwhole
  refine ⟨_, ⟨s.doubled, texts.flatten ++ blank, partsOf lead trail (s.path ++ [s.key]),
    s.after.toList, body⟩, hwhole, ⟨rfl, ?_, ?_, ?_, hbody⟩, ?_⟩
  · have hinner : s.path.map Key.asInner = s.path :=
      (List.map_congr_left fun k hk => (hs.path k hk).asInner).trans (List.map_id' _)
    have hlast : s.key.asLeaf ("" ++ lead, trail ++ "") = s.key := by
      refine hs.key.asLeaf ?_
      rw [haround]
      simp
    simp only
    rw [ofPath?_partsOf _ _ _ _ _ _ hs.root, hinner, hlast]
  · simp only
    rw [hflat, ← hbefore, plainText_of_noReturn]
    · simp
    · rw [hbefore, List.mem_append]
      rintro (hmem | hmem)
      · exact hlines.noReturn hmem
      · exact hblank.noReturn hmem
  · simp only
    rw [plainText_of_noReturn hs.after.noReturn]
    simp
  · rw [ofStatements_blanks_header, houtline, hhead]
    simp

/-- Headers with their lines are read as their sections. -/
theorem readsAs_sheets {shs : List Sheet} (hshs : ∀ s ∈ shs, s.Sound) {ss : List Statement}
    (hrest : ReadsAs rest ss) (hhead : (Outline.ofStatements ss).head = []) :
    ∃ ss' cs, ReadsAs (shs.flatMap (fun s => s.text.toList) ++ rest) ss' ∧
      List.Forall₂ IsSection cs shs ∧
      Outline.ofStatements ss' = ⟨[], cs ++ (Outline.ofStatements ss).sections,
        (Outline.ofStatements ss).trailing⟩ := by
  induction shs with
  | nil =>
    refine ⟨ss, [], hrest, .nil, ?_⟩
    rw [List.nil_append, ← hhead]
  | cons s more ih =>
    obtain ⟨ss₁, cs, hread, hcs, houtline⟩ := ih fun s hs => hshs s (List.mem_cons_of_mem _ hs)
    obtain ⟨ss₂, c, hread', hc, houtline'⟩ :=
      readsAs_sheet (hshs s List.mem_cons_self) hread (by rw [houtline])
    refine ⟨ss₂, c :: cs, ?_, .cons hc hcs, ?_⟩
    · simpa using hread'
    · rw [houtline', houtline]
      rfl

/-- The blank text at the end of a document. -/
def IsTrailing (cs : List Char) : Prop :=
  ∃ lines tail, cs = lines ++ tail ∧ Blanks lines ∧ LineTail tail

/-- What may stand at the end of a document is read as its end. -/
theorem readsAs_trailing (h : IsTrailing cs) :
    ∃ ss, ReadsAs cs ss ∧ Outline.ofStatements ss = ⟨[], [], cs⟩ := by
  obtain ⟨lines, tail, rfl, hlines, htail⟩ := h
  have hlast : ∃ ts : List (List Char), ts.flatten = tail ∧ ReadsAs tail (ts.map .blank) := by
    cases htail' : tail with
    | nil => exact ⟨[], rfl, readsAs_nil⟩
    | cons c more =>
      refine ⟨[c :: more], by simp, ?_⟩
      have hread := readStatement?_last htail
      rw [htail', ← List.append_nil (c :: more)] at hread
      have := ReadsAs.cons hread (List.cons_ne_nil _ _) readsAs_nil
      simpa using this
  obtain ⟨ts, hts, hread⟩ := hlast
  obtain ⟨texts, hflat, hall⟩ := hlines.readsAs hread
  refine ⟨_, hall, ?_⟩
  rw [← List.map_append, ofStatements_blanks]
  simp [hflat, hts]

/-- **A written document is read as the leaves and headers that were written.** -/
theorem readsAs_written {ls : List Leaf} {shs : List Sheet} {trailing : List Char}
    (hls : ∀ l ∈ ls, LineLeaf l) (hshs : ∀ s ∈ shs, s.Sound) (htrailing : IsTrailing trailing) :
    ∃ ss o, ReadsAs (leafLines ls ++ (shs.flatMap (fun s => s.text.toList) ++ trailing)) ss ∧
      Outline.ofStatements ss = o ∧ List.Forall₂ IsMember o.head ls ∧
      List.Forall₂ IsSection o.sections shs ∧ o.trailing = trailing := by
  obtain ⟨ss₁, hread₁, houtline₁⟩ := readsAs_trailing htrailing
  obtain ⟨ss₂, cs, hread₂, hcs, houtline₂⟩ := readsAs_sheets hshs hread₁ (by rw [houtline₁])
  obtain ⟨ss₃, body, hread₃, hbody, houtline₃⟩ := readsAs_leaves hls hread₂
  refine ⟨ss₃, _, hread₃, rfl, ?_, ?_, ?_⟩
  · rw [houtline₃, houtline₂]
    simpa using hbody
  · rw [houtline₃, houtline₂, houtline₁]
    simpa using hcs
  · rw [houtline₃, houtline₂, houtline₁]

/-! ## Any document -/

/-- Keys that were read. -/
structure PathSound (parts : List KeyPart) : Prop where
  ne_nil : parts ≠ []
  length : parts.length ≤ maxKeyParts
  sound : ∀ p ∈ parts, p.Sound

/-- Every path that is read can be written again. -/
theorem readKeyPath?_sound {parts : List KeyPart} (h : readKeyPath? cs = some (parts, rest)) :
    PathSound parts := by
  obtain ⟨hne, hlen, hsound, -⟩ := readKeyParts?_sound h
  exact ⟨hne, hlen, hsound⟩

/-- Statements as they are read: only the last one may be without a line end. -/
inductive Kept : List Statement → Prop where
  | nil : Kept []
  | last {tail : List Char} (h : LineTail tail) : Kept [.blank tail]
  | blank {tail lineBreak : List Char} {ss : List Statement} (h : LineTail tail)
      (hbreak : LineBreak lineBreak) (hss : Kept ss) : Kept (.blank (tail ++ lineBreak) :: ss)
  | header {doubled : Bool} {before after : List Char} {path : List KeyPart} {ss : List Statement}
      (hbefore : IsBlank before) (hpath : PathSound path) (hafter : LineTail after)
      (hss : Kept ss) :
      Kept (.header doubled before path after :: ss)
  | member {path : List KeyPart} {text : List Char} {v : Value} {ss : List Statement}
      (hpath : PathSound path) (htext : IsLineText (String.ofList text) v) (hss : Kept ss) :
      Kept (.member path text v :: ss)

/-- Every header that is read can be written again. -/
theorem readHeader?_sound {before : List Char} {s : Statement}
    (h : readHeader? before cs = some (s, rest)) :
    ∃ doubled path after, s = .header doubled before path after ∧ PathSound path ∧
      LineTail after := by
  rw [readHeader?] at h
  simp only at h
  split at h
  · next path more hpath =>
    obtain ⟨⟨tail, last⟩, htail, hpair⟩ := Option.map_eq_some_iff.1 h
    cases hpair
    obtain ⟨behind, -, hend⟩ := Option.bind_eq_some_iff.1 htail
    exact ⟨_, path, tail, rfl, readKeyPath?_sound hpath, (readLineEnd?_sound hend).1⟩
  · cases h

/-- Every line with a value that is read can be written again. -/
theorem readMember?_sound {s : Statement} (h : readMember? cs = some (s, rest)) :
    ∃ path text v,
      s = .member path text v ∧ PathSound path ∧ IsLineText (String.ofList text) v := by
  rw [readMember?] at h
  split at h
  · next path more hpath =>
    simp only at h
    split at h
    · next w behind hvalue =>
      obtain ⟨⟨tail, last⟩, hend, hpair⟩ := Option.map_eq_some_iff.1 h
      cases hpair
      exact ⟨path, _, w.value, rfl, readKeyPath?_sound hpath, _, w.text, tail, by simp,
        (takeBlank_spec more).2.1, (readLineEnd?_sound hend).1,
        isItemReader_readValue?.reread hvalue⟩
    · cases h
  · cases h

/-- The first statement, in front of others. -/
theorem readStatement?_sound {s : Statement} (h : readStatement? cs = some (s, rest))
    {ss : List Statement} (hss : Kept ss) (hlast : rest = [] → ss = []) : Kept (s :: ss) := by
  rw [readStatement?] at h
  split at h
  · obtain ⟨doubled, path, after, rfl, hpath, hafter⟩ := readHeader?_sound h
    exact .header (takeBlank_spec cs).2.1 hpath hafter hss
  · split at h
    · obtain ⟨⟨tail, more⟩, hend, hpair⟩ := Option.map_eq_some_iff.1 h
      simp only [Prod.mk.injEq] at hpair
      obtain ⟨rfl, rfl⟩ := hpair
      obtain ⟨htail, ⟨lineBreak, hbreak, hcs⟩ | ⟨hcs, hnil⟩⟩ := readLineEnd?_sound hend
      · have htake : cs.take (cs.length - more.length) = tail ++ lineBreak := by
          rw [hcs, List.length_append, Nat.add_sub_cancel, List.take_left' rfl]
        rw [htake]
        exact .blank htail hbreak hss
      · obtain rfl := hlast hnil
        rw [hnil, hcs]
        simpa using Kept.last htail
    · obtain ⟨path, text, v, rfl, hpath, htext⟩ := readMember?_sound h
      exact .member hpath htext hss

/-- Every statement of a document that is read can be written again. -/
theorem readStatements?_sound {n : Nat} {ss : List Statement} (h : readStatements? cs n = some ss) :
    Kept ss ∧ (cs = [] → ss = []) := by
  induction n generalizing cs ss with
  | zero =>
    rw [readStatements?] at h
    split at h
    · cases h
      exact ⟨.nil, fun _ => rfl⟩
    · cases h
  | succ n ih =>
    unfold readStatements? at h
    split at h
    · cases h
      exact ⟨.nil, fun _ => rfl⟩
    · split at h
      · next s rest hstatement =>
        obtain ⟨ss', hss', rfl⟩ := Option.map_eq_some_iff.1 h
        obtain ⟨hkept, hnil⟩ := ih hss'
        exact ⟨readStatement?_sound hstatement hkept hnil, fun heq => nomatch heq⟩
      · cases h

/-- A member of an outline that can be written. -/
structure MemberSound (m : List Char × List KeyPart × List Char × Value) : Prop where
  lines : Blanks (m.1.filter (· ≠ '\r'))
  path : PathSound m.2.1
  text : IsLineText (String.ofList m.2.2.1) m.2.2.2

/-- A section of an outline that can be written. -/
structure SectionSound (c : Section) : Prop where
  before : IsLead (c.before.filter (· ≠ '\r'))
  path : PathSound c.path
  after : LineTail c.after
  body : ∀ m ∈ c.body, MemberSound m

/-- An outline that can be written. -/
structure OutlineSound (o : Outline) : Prop where
  head : ∀ m ∈ o.head, MemberSound m
  sections : ∀ c ∈ o.sections, SectionSound c
  trailing : IsTrailing (o.trailing.filter (· ≠ '\r'))

theorem filter_of_noReturn (h : '\r' ∉ cs) : cs.filter (· ≠ '\r') = cs := by
  refine List.filter_eq_self.2 fun c hc => ?_
  have : c ≠ '\r' := fun heq => h (heq ▸ hc)
  simpa using this

/-- A line without its carriage returns ends in a plain line end. -/
theorem filter_line {tail lineBreak : List Char} (h : LineTail tail) (hbreak : LineBreak lineBreak)
    (more : List Char) :
    (tail ++ lineBreak ++ more).filter (· ≠ '\r') = tail ++ '\n' :: more.filter (· ≠ '\r') := by
  rw [List.append_assoc, List.filter_append, filter_of_noReturn h.noReturn]
  cases hbreak <;> rfl

theorem lineTail_nil : LineTail [] := ⟨[], [], rfl, by simp, by simp, by simp⟩

theorem isTrailing_nil : IsTrailing [] := ⟨[], [], rfl, .nil, lineTail_nil⟩

/-- **What is known of the outline of any document.** -/
theorem Kept.outline {ss : List Statement} (h : Kept ss) :
    OutlineSound (Outline.ofStatements ss) := by
  induction h with
  | nil => exact ⟨by simp [Outline.ofStatements], by simp [Outline.ofStatements], isTrailing_nil⟩
  | @last tail h =>
    refine ⟨by simp [Outline.ofStatements], by simp [Outline.ofStatements], ?_⟩
    have : (Outline.ofStatements [.blank tail]).trailing = tail := by simp [Outline.ofStatements]
    rw [this, filter_of_noReturn h.noReturn]
    exact ⟨[], tail, rfl, .nil, h⟩
  | @blank tail lineBreak ss h hbreak _ ih =>
    rw [Outline.ofStatements]
    obtain ⟨hhead, hsections, htrailing⟩ := ih
    generalize Outline.ofStatements ss = o at hhead hsections htrailing
    obtain ⟨head, sections, trailing⟩ := o
    simp only
    split
    · next _ blank path value v more =>
      have hfirst := hhead _ List.mem_cons_self
      refine ⟨fun m hm => ?_, hsections, htrailing⟩
      rcases List.mem_cons.1 hm with rfl | hm
      · refine ⟨?_, hfirst.path, hfirst.text⟩
        simp only
        rw [filter_line h hbreak]
        exact .line h hfirst.lines
      · exact hhead m (List.mem_cons_of_mem _ hm)
    · next _ c more =>
      have hfirst := hsections _ List.mem_cons_self
      refine ⟨hhead, fun c' hc' => ?_, htrailing⟩
      rcases List.mem_cons.1 hc' with rfl | hc'
      · refine ⟨?_, hfirst.path, hfirst.after, hfirst.body⟩
        simp only
        rw [filter_line h hbreak]
        obtain ⟨lines, blank, hsplit, hlines, hblank⟩ := hfirst.before
        exact ⟨tail ++ '\n' :: lines, blank, by rw [hsplit]; simp, .line h hlines, hblank⟩
      · exact hsections c' (List.mem_cons_of_mem _ hc')
    · refine ⟨hhead, hsections, ?_⟩
      simp only
      rw [filter_line h hbreak]
      obtain ⟨lines, last, hsplit, hlines, hlast⟩ := htrailing
      exact ⟨tail ++ '\n' :: lines, last, by rw [hsplit]; simp, .line h hlines, hlast⟩
  | header hbefore hpath hafter _ ih =>
    rw [Outline.ofStatements]
    refine ⟨by simp, fun c hc => ?_, ih.trailing⟩
    rcases List.mem_cons.1 hc with rfl | hc
    · refine ⟨?_, hpath, hafter, ih.head⟩
      simp only
      rw [filter_of_noReturn hbefore.noReturn]
      exact ⟨[], _, rfl, .nil, hbefore⟩
    · exact ih.sections c hc
  | member hpath htext _ ih =>
    rw [Outline.ofStatements]
    refine ⟨fun m hm => ?_, ih.sections, ih.trailing⟩
    rcases List.mem_cons.1 hm with rfl | hm
    · exact ⟨.nil, hpath, htext⟩
    · exact ih.head m hm

/-- Parts of a path make keys, since there is at least one. -/
theorem exists_ofPath? (before after : String) {parts : List KeyPart} (h : parts ≠ []) :
    ∃ path key, Key.ofPath? before parts after = some (path, key) := by
  obtain ⟨first, more, rfl⟩ := List.exists_cons_of_ne_nil h
  obtain ⟨last, hlast⟩ : ∃ last, (first :: more).getLast? = some last :=
    ⟨_, List.getLast?_eq_some_getLast (List.cons_ne_nil _ _)⟩
  unfold Key.ofPath?
  rw [hlast]
  exact ⟨_, _, rfl⟩

/-- A line that can be written again is the line of a leaf. -/
theorem MemberSound.leaf {m : List Char × List KeyPart × List Char × Value} (h : MemberSound m) :
    ∃ l, IsMember m l ∧ LineLeaf l := by
  obtain ⟨path, key, hkeys⟩ := exists_ofPath? (plainText m.1) "" h.path.ne_nil
  obtain ⟨hinner, hkey, hdot, hcount, hroot, lead, trail, haround, hlead, htrail⟩ :=
    ofPath?_sound h.path.sound hkeys
  refine ⟨⟨path, key, String.ofList m.2.2.1, m.2.2.2⟩, ⟨hkeys, rfl, rfl⟩,
    ⟨hinner, ⟨hkey, hdot, _, _, haround, ?_, ?_⟩, h.text, ?_⟩, hroot⟩
  · rw [String.toList_append, plainText, String.toList_ofList]
    exact ⟨_, _, rfl, h.lines, hlead⟩
  · rw [String.append_empty]
    exact htrail
  · show path.length < maxKeyParts
    have := h.path.length
    omega

/-- Lines that can be written again are the lines of leaves. -/
theorem MemberSound.leaves {body : List (List Char × List KeyPart × List Char × Value)}
    (h : ∀ m ∈ body, MemberSound m) :
    ∃ ls, List.Forall₂ IsMember body ls ∧ ∀ l ∈ ls, LineLeaf l := by
  induction body with
  | nil => exact ⟨[], .nil, by simp⟩
  | cons m rest ih =>
    obtain ⟨l, hm, hl⟩ := (h m List.mem_cons_self).leaf
    obtain ⟨ls, hrest, hls⟩ := ih fun m hm => h m (List.mem_cons_of_mem _ hm)
    exact ⟨l :: ls, .cons hm hrest, by simpa using ⟨hl, hls⟩⟩

/-- A section that can be written again is a header with leaves, at any position. -/
theorem SectionSound.sheet {c : Section} (h : SectionSound c) (position : Nat) :
    ∃ s, IsSection c s ∧ s.Sound ∧ s.position = position := by
  obtain ⟨path, key, hkeys⟩ := exists_ofPath? "" "" h.path.ne_nil
  obtain ⟨hinner, hkey, hdot, hcount, hroot, lead, trail, haround, hlead, htrail⟩ :=
    ofPath?_sound h.path.sound hkeys
  obtain ⟨ls, hbody, hls⟩ := MemberSound.leaves h.body
  refine ⟨⟨c.doubled, path, key, position, plainText c.before, plainText c.after, ls⟩,
    ⟨rfl, hkeys, rfl, rfl, hbody⟩, ⟨hinner, ⟨hkey, hdot, _, _, haround, ?_, ?_⟩, hroot, ?_, ?_, ?_,
      hls⟩, rfl⟩
  · rw [String.empty_append]
    exact hlead
  · rw [String.append_empty]
    exact htrail
  · show path.length < maxKeyParts
    have := h.path.length
    omega
  · rw [plainText, String.toList_ofList]
    exact h.before
  · rw [plainText_of_noReturn h.after.noReturn, String.toList_ofList]
    exact h.after

/-- The sections of a document as sheets, with the numbers that they are given. -/
theorem SectionSound.sheets {cs : List Section} (h : ∀ c ∈ cs, SectionSound c) (position : Nat) :
    ∃ shs : List Sheet, List.Forall₂ IsSection cs shs ∧ (∀ s ∈ shs, s.Sound) ∧
      shs.map Sheet.position = List.range' position shs.length := by
  induction cs generalizing position with
  | nil => exact ⟨[], .nil, by simp, rfl⟩
  | cons c rest ih =>
    obtain ⟨s, hc, hs, hposition⟩ := (h c List.mem_cons_self).sheet position
    obtain ⟨shs, hrest, hshs, hpositions⟩ :=
      ih (fun c hc => h c (List.mem_cons_of_mem _ hc)) (position + 1)
    refine ⟨s :: shs, .cons hc hrest, by simpa using ⟨hs, hshs⟩, ?_⟩
    rw [List.map_cons, hpositions, hposition, List.length_cons, List.range'_succ]

end SessionHost.Toml
