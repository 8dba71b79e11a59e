import SessionHost.Proofs.Toml.Strings

/-!
# Strings are read without looking behind them

A reader that has taken the characters of a string takes them again in front of anything else
that is not a quote.  So a string can stand at another place of a document and is read as before.

Main definitions:

- `isSpaceChar`, `IsJoinEnd`: space and line ends, and where joining lines stops.
- `LongPiece`: one piece of a text of several lines.
- `IsQuoteFree`: what may follow a string.

Main results:

- Theorems `readEscape?_local`, `skipJoin?_local`: escapes, and lines joined by a backslash.
- Theorem `readLong?_cases`: a text of several lines begins with a piece, or ends.
- Theorems `readBasic?_local`, `readLiteral?_local`, `readLong?_local`: the forms of strings.
- Theorem `readString?_local`: a string in any form.
-/

namespace SessionHost.Toml

variable {cs rest : List Char}

/-! ## Escapes -/

/-- Space and line ends, which begin no escape. -/
def isSpaceChar (c : Char) : Bool := isBlankChar c || c = '\n' || c = '\r'

/-- The digits of an escape are read alike, whatever follows. -/
theorem readHexChar?_local {width : Nat} {c : Char} (h : readHexChar? width cs = some (c, rest)) :
    ∃ taken, cs = taken ++ rest ∧
      ∀ other, readHexChar? width (taken ++ other) = some (c, other) := by
  rw [readHexChar?] at h
  split at h
  · cases h
  · next hlen =>
    obtain ⟨d, hd, hpair⟩ := Option.map_eq_some_iff.1 h
    simp only [Prod.mk.injEq] at hpair
    obtain ⟨rfl, rfl⟩ := hpair
    have htake : (cs.take width).length = width := by simp; omega
    refine ⟨cs.take width, (List.take_append_drop width cs).symm, fun other => ?_⟩
    rw [readHexChar?, if_neg (by simp; omega), List.take_left' htake, List.drop_left' htake, hd]
    rfl

/-- An escape is read alike, whatever follows. -/
theorem readEscape?_local {c : Char} (h : readEscape? cs = some (c, rest)) :
    ∃ e taken, cs = e :: taken ++ rest ∧ isSpaceChar e = false ∧
      ∀ other, readEscape? (e :: taken ++ other) = some (c, other) := by
  have hsimple {e d : Char} {more : List Char} (hcs : cs = e :: more)
      (he : isSpaceChar e = false) (hread : ∀ other, readEscape? (e :: other) = some (d, other)) :
      ∃ e taken, cs = e :: taken ++ rest ∧ isSpaceChar e = false ∧
        ∀ other, readEscape? (e :: taken ++ other) = some (c, other) := by
    rw [hcs, hread] at h
    cases h
    exact ⟨e, [], hcs, he, hread⟩
  have hcoded {e : Char} {width : Nat} {more : List Char} (hcs : cs = e :: more)
      (he : isSpaceChar e = false)
      (hread : ∀ other, readEscape? (e :: other) = readHexChar? width other) :
      ∃ e taken, cs = e :: taken ++ rest ∧ isSpaceChar e = false ∧
        ∀ other, readEscape? (e :: taken ++ other) = some (c, other) := by
    rw [hcs, hread] at h
    obtain ⟨taken, rfl, htaken⟩ := readHexChar?_local h
    exact ⟨e, taken, hcs, he, fun other => (hread _).trans (htaken other)⟩
  unfold readEscape? at h
  split at h
  · exact hsimple rfl (by decide) fun _ => rfl
  · exact hsimple rfl (by decide) fun _ => rfl
  · exact hsimple rfl (by decide) fun _ => rfl
  · exact hsimple rfl (by decide) fun _ => rfl
  · exact hsimple rfl (by decide) fun _ => rfl
  · exact hsimple rfl (by decide) fun _ => rfl
  · exact hsimple rfl (by decide) fun _ => rfl
  · exact hsimple rfl (by decide) fun _ => rfl
  · exact hcoded rfl (by decide) fun _ => rfl
  · exact hcoded rfl (by decide) fun _ => rfl
  · exact hcoded rfl (by decide) fun _ => rfl
  · cases h

/-! ## Strings of one line -/

/-- A character before a reading that succeeds. -/
theorem Reading.cons_eq_some {r : Reading (List Char)} {c : Char} {x : List Char}
    (h : r.cons c = some (x, rest)) : ∃ y, x = c :: y ∧ r = some (y, rest) := by
  obtain ⟨⟨y, more⟩, hr, hpair⟩ := Option.map_eq_some_iff.1 h
  cases hpair
  exact ⟨y, rfl, hr⟩

/-- A basic string is read alike, whatever follows. -/
theorem readBasic?_local {n : Nat} {x : List Char} (h : readBasic? cs n = some (x, rest)) :
    ∃ taken, cs = taken ++ rest ∧ taken ≠ [] ∧
      ∀ other m, taken.length ≤ m → readBasic? (taken ++ other) m = some (x, other) := by
  induction n generalizing cs x with
  | zero => cases h
  | succ n ih =>
    unfold readBasic? at h
    split at h
    · cases h
      refine ⟨['"'], rfl, List.cons_ne_nil _ _, fun other m hm => ?_⟩
      obtain ⟨k, rfl⟩ : ∃ k, m = k + 1 := ⟨m - 1, by simp at hm; omega⟩
      rfl
    · split at h
      · next c behind hescape =>
        obtain ⟨y, rfl, hread⟩ := Reading.cons_eq_some h
        obtain ⟨e, taken, rfl, -, htaken⟩ := readEscape?_local hescape
        obtain ⟨last, rfl, -, hlast⟩ := ih hread
        refine ⟨'\\' :: (e :: taken ++ last), by simp, List.cons_ne_nil _ _, fun other m hm => ?_⟩
        obtain ⟨k, rfl⟩ : ∃ k, m = k + 1 := ⟨m - 1, by simp at hm; omega⟩
        rw [List.cons_append, List.append_assoc, readBasic?_escape (htaken _),
          hlast other k (by simp at hm; omega)]
        rfl
      · cases h
    · next c more hquote hback =>
      split at h
      · cases h
      · next hcontrol =>
        obtain ⟨y, rfl, hread⟩ := Reading.cons_eq_some h
        obtain ⟨last, rfl, -, hlast⟩ := ih hread
        refine ⟨c :: last, rfl, List.cons_ne_nil _ _, fun other m hm => ?_⟩
        obtain ⟨k, rfl⟩ : ∃ k, m = k + 1 := ⟨m - 1, by simp at hm; omega⟩
        rw [List.cons_append, readBasic?_char hquote hback (by simpa using hcontrol),
          hlast other k (by simpa using hm)]
        rfl
    · cases h

/-- A literal string is read alike, whatever follows. -/
theorem readLiteral?_local {x : List Char} (h : readLiteral? cs = some (x, rest)) :
    ∃ taken, cs = taken ++ rest ∧ taken ≠ [] ∧
      ∀ other, readLiteral? (taken ++ other) = some (x, other) := by
  induction cs generalizing x with
  | nil => cases h
  | cons c more ih =>
    rw [readLiteral?] at h
    split at h
    · next hquote =>
      cases h
      exact ⟨[c], rfl, List.cons_ne_nil _ _, fun other => by simp [readLiteral?, hquote]⟩
    · next hquote =>
      split at h
      · cases h
      · next hcontrol =>
        obtain ⟨y, rfl, hread⟩ := Reading.cons_eq_some h
        obtain ⟨taken, rfl, -, htaken⟩ := ih hread
        refine ⟨c :: taken, rfl, List.cons_ne_nil _ _, fun other => ?_⟩
        rw [List.cons_append, readLiteral?, if_neg hquote, if_neg hcontrol, htaken]
        rfl

/-! ## Strings of several lines -/

/-- At most five quotes are counted, and all of them if there are fewer. -/
theorem quoteRun_spec (quote : Char) (cs : List Char) :
    ∃ after, cs = List.replicate (quoteRun quote cs) quote ++ after ∧ quoteRun quote cs ≤ 5 ∧
      (quoteRun quote cs < 5 → after.head? ≠ some quote) := by
  have hall : (cs.take 5).takeWhile (· = quote) = List.replicate (quoteRun quote cs) quote :=
    List.eq_replicate_of_mem fun d hd => by simpa using List.mem_takeWhile_imp hd
  have hle : quoteRun quote cs ≤ 5 :=
    Nat.le_trans (List.takeWhile_sublist _).length_le (List.length_take_le 5 cs)
  refine ⟨(cs.take 5).dropWhile (· = quote) ++ cs.drop 5, ?_, hle, fun hlt hhead => ?_⟩
  · rw [← hall, ← List.append_assoc, List.takeWhile_append_dropWhile, List.take_append_drop]
  · cases hdrop : (cs.take 5).dropWhile (· = quote) with
    | nil =>
      -- All characters in front are quotes, and there are fewer than five, so none follow.
      have hlen : ((cs.take 5).takeWhile (· = quote)).length = (cs.take 5).length := by
        have := congrArg List.length
          (List.takeWhile_append_dropWhile (p := (· = quote)) (l := cs.take 5))
        simpa [hdrop] using this
      rw [hall, List.length_replicate, List.length_take] at hlen
      rw [hdrop, List.nil_append, List.head?_drop, List.getElem?_eq_none (by omega)] at hhead
      cases hhead
    | cons d more =>
      rw [hdrop] at hhead
      have := List.head?_dropWhile_not (fun d : Char => decide (d = quote)) (cs.take 5)
      rw [hdrop] at this
      simp_all

/-- Characters at which joining lines stops. -/
def IsJoinEnd (cs : List Char) : Prop :=
  (∀ c ∈ cs.head?, isBlankChar c = false ∧ c ≠ '\n') ∧ ∀ more, cs ≠ '\r' :: '\n' :: more

/-- Nothing is dropped where a text begins again. -/
theorem dropJoined_of_end (h : IsJoinEnd cs) (n : Nat) : skipJoin?.dropJoined cs n = cs := by
  rw [skipJoin?.dropJoined.eq_def]
  split
  · rfl
  · split
    · exact absurd rfl (h.2 _)
    · next c more _ =>
      obtain ⟨hblank, hline⟩ := h.1 c rfl
      simp [hblank, hline]
    · rfl

/-- What is dropped between joined lines is dropped alike, whatever follows. -/
theorem dropJoined_local (cs : List Char) {n : Nat} (hn : cs.length ≤ n) :
    ∃ taken, cs = taken ++ skipJoin?.dropJoined cs n ∧ IsJoinEnd (skipJoin?.dropJoined cs n) ∧
      ∀ other m, IsJoinEnd other → taken.length ≤ m →
        skipJoin?.dropJoined (taken ++ other) m = other := by
  induction n generalizing cs with
  | zero =>
    obtain rfl : cs = [] := List.eq_nil_of_length_eq_zero (by omega)
    exact ⟨[], rfl, ⟨by simp [skipJoin?.dropJoined], by simp [skipJoin?.dropJoined]⟩,
      fun other m hother _ => dropJoined_of_end hother m⟩
  | succ n ih =>
    rw [skipJoin?.dropJoined.eq_def]
    simp only
    split
    · next more =>
      obtain ⟨taken, hcs, hend, htaken⟩ := ih more (by simp at hn; omega)
      refine ⟨'\r' :: '\n' :: taken, by rw [List.cons_append, List.cons_append, ← hcs], hend,
        fun other m hother hm => ?_⟩
      obtain ⟨k, rfl⟩ : ∃ k, m = k + 1 := ⟨m - 1, by simp at hm; omega⟩
      exact htaken other k hother (by simp at hm; omega)
    · next c more hcrlf =>
      split
      · next hspace =>
        obtain ⟨taken, hcs, hend, htaken⟩ := ih more (by simpa using hn)
        refine ⟨c :: taken, by rw [List.cons_append, ← hcs], hend, fun other m hother hm => ?_⟩
        obtain ⟨k, rfl⟩ : ∃ k, m = k + 1 := ⟨m - 1, by simp at hm; omega⟩
        rw [List.cons_append, skipJoin?.dropJoined]
        · rw [if_pos hspace]
          exact htaken other k hother (by simpa using hm)
        · intro _ hc
          rw [hc] at hspace
          exact absurd hspace (by decide)
      · next hspace =>
        refine ⟨[], rfl, ⟨fun d hd => ?_, fun last heq => ?_⟩,
          fun other m hother _ => dropJoined_of_end hother m⟩
        · cases hd
          simpa using hspace
        · cases heq
          exact hcrlf _ rfl rfl
    · exact ⟨[], rfl, ⟨by simp, by simp⟩, fun other m hother _ => dropJoined_of_end hother m⟩

/-- White space is taken up to the first other character. -/
theorem takeBlank_append {blank : List Char} (hblank : ∀ c ∈ blank, isBlankChar c = true)
    (h : ∀ c ∈ cs.head?, isBlankChar c = false) : takeBlank (blank ++ cs) = (blank, cs) := by
  have hstop : cs.takeWhile isBlankChar = [] ∧ cs.dropWhile isBlankChar = cs := by
    cases cs with
    | nil => exact ⟨rfl, rfl⟩
    | cons c more => simp [h c rfl]
  rw [takeBlank, List.takeWhile_append_of_pos hblank, List.dropWhile_append_of_pos hblank,
    hstop.1, hstop.2, List.append_nil]

/-- What is taken is white space, and none is left in front. -/
theorem takeBlank_spec (cs : List Char) :
    cs = (takeBlank cs).1 ++ (takeBlank cs).2 ∧ (∀ c ∈ (takeBlank cs).1, isBlankChar c = true) ∧
      ∀ c ∈ (takeBlank cs).2.head?, isBlankChar c = false := by
  refine ⟨(List.takeWhile_append_dropWhile).symm, fun c hc => List.mem_takeWhile_imp hc,
    fun c hc => ?_⟩
  have := List.head?_dropWhile_not isBlankChar cs
  rw [takeBlank] at hc
  rw [show (cs.dropWhile isBlankChar).head? = some c from hc] at this
  simpa using this

/-- A line end in front. -/
inductive LineBreak : List Char → Prop where
  | plain : LineBreak ['\n']
  | carriage : LineBreak ['\r', '\n']

/-- What is dropped as a line end is one. -/
theorem dropLineEnd?_eq_some (h : dropLineEnd? cs = some rest) :
    ∃ lineBreak, LineBreak lineBreak ∧ cs = lineBreak ++ rest := by
  unfold dropLineEnd? at h
  split at h
  · cases h
    exact ⟨['\n'], .plain, rfl⟩
  · cases h
    exact ⟨['\r', '\n'], .carriage, rfl⟩
  · cases h

/-- A line end is dropped in one piece. -/
theorem LineBreak.drop {lineBreak : List Char} (h : LineBreak lineBreak) (cs : List Char) :
    dropLineEnd? (lineBreak ++ cs) = some cs := by
  cases h <;> rfl

/-- A line end begins with a space character that is no white space on a line. -/
theorem LineBreak.head {lineBreak : List Char} (h : LineBreak lineBreak) (cs : List Char) :
    ∀ c ∈ (lineBreak ++ cs).head?, isBlankChar c = false ∧ isSpaceChar c = true := by
  cases h
  · rintro c ⟨⟩
    exact ⟨by decide, by decide⟩
  · rintro c ⟨⟩
    exact ⟨by decide, by decide⟩

/-- Joined lines are skipped alike, whatever text follows. -/
theorem skipJoin?_local (h : skipJoin? cs = some rest) :
    ∃ e taken, cs = e :: taken ++ rest ∧ isSpaceChar e = true ∧ IsJoinEnd rest ∧
      ∀ other, IsJoinEnd other → skipJoin? (e :: taken ++ other) = some other := by
  rw [skipJoin?] at h
  obtain ⟨behind, hbehind, hrest⟩ := Option.bind_eq_some_iff.1 h
  cases hrest
  obtain ⟨hcs, hblank, -⟩ := takeBlank_spec cs
  obtain ⟨lineBreak, hbreak, htail⟩ := dropLineEnd?_eq_some hbehind
  obtain ⟨joined, hjoined, hend, hagain⟩ := dropJoined_local behind (Nat.le_refl _)
  have hread (other : List Char) (hother : IsJoinEnd other) :
      skipJoin? ((takeBlank cs).1 ++ (lineBreak ++ (joined ++ other))) = some other := by
    rw [skipJoin?, takeBlank_append hblank fun c hc => (hbreak.head _ c hc).1]
    simp only
    rw [hbreak.drop, Option.bind_some, hagain other _ hother (by simp)]
  have hwhole : cs = (takeBlank cs).1 ++ lineBreak ++ joined ++ skipJoin?.dropJoined behind
      behind.length := by
    rw [List.append_assoc _ joined, ← hjoined, List.append_assoc, ← htail, ← hcs]
  obtain ⟨e, taken, htaken, he⟩ : ∃ e taken,
      (takeBlank cs).1 ++ lineBreak ++ joined = e :: taken ∧ isSpaceChar e = true := by
    cases hfirst : (takeBlank cs).1 with
    | nil =>
      cases hbreak
      · exact ⟨'\n', joined, rfl, by decide⟩
      · exact ⟨'\r', '\n' :: joined, rfl, by decide⟩
    | cons c more =>
      refine ⟨c, more ++ lineBreak ++ joined, rfl, ?_⟩
      have : isBlankChar c = true := hblank c (hfirst ▸ List.mem_cons_self)
      simp [isSpaceChar, this]
  refine ⟨e, taken, htaken ▸ hwhole, he, hend, fun other hother => ?_⟩
  rw [← htaken, List.append_assoc, List.append_assoc]
  exact hread other hother

/-- No escape begins with a space character. -/
theorem readEscape?_eq_none {e : Char} (h : isSpaceChar e = true) (cs : List Char) :
    readEscape? (e :: cs) = none := by
  cases hread : readEscape? (e :: cs) with
  | none => rfl
  | some p =>
    obtain ⟨d, taken, heq, hd, -⟩ := readEscape?_local hread
    cases heq
    rw [hd] at h
    cases h

/-- A run of three quotes is a prefix of three quotes. -/
theorem three_le_quoteRun_iff (quote : Char) (cs : List Char) :
    3 ≤ quoteRun quote cs ↔ List.replicate 3 quote <+: cs := by
  constructor
  · intro h
    obtain ⟨after, hcs, -, -⟩ := quoteRun_spec quote cs
    obtain ⟨k, hk⟩ : ∃ k, quoteRun quote cs = 3 + k := ⟨quoteRun quote cs - 3, by omega⟩
    rw [hk, List.replicate_add, List.append_assoc] at hcs
    exact ⟨_, hcs.symm⟩
  · rintro ⟨more, rfl⟩
    simp [quoteRun, List.replicate_succ]

/-- Whether three quotes stand in front is told by three characters. -/
theorem quoteRun_append_lt {quote : Char} {taken : List Char} (hlen : 3 ≤ taken.length)
    (h : quoteRun quote (taken ++ rest) < 3) (other : List Char) :
    quoteRun quote (taken ++ other) < 3 := by
  refine Nat.lt_of_not_le fun hle => Nat.not_le_of_lt h ?_
  rw [three_le_quoteRun_iff] at hle ⊢
  exact (List.prefix_of_prefix_length_le hle (List.prefix_append taken other)
    (by simpa using hlen)).trans (List.prefix_append taken rest)

/-- Whether a text begins again is told by two characters. -/
theorem IsJoinEnd.of_append {taken : List Char} (hlen : 2 ≤ taken.length)
    (h : IsJoinEnd (taken ++ rest)) (other : List Char) : IsJoinEnd (taken ++ other) := by
  match taken, hlen with
  | c :: d :: more, _ =>
    refine ⟨h.1, fun last heq => h.2 (more ++ rest) ?_⟩
    simp only [List.cons_append, List.cons.injEq] at heq
    rw [heq.1, heq.2.1]
    rfl

/-- A line end of two characters stays in a long string. -/
theorem readLong?_carriage {quote : Char} (n : Nat) :
    readLong? quote ('\r' :: '\n' :: cs) (n + 1) =
      ((readLong? quote cs n).cons '\n').cons '\r' := by
  rw [readLong?]

/-- A backslash at the end of a line joins it with the next text. -/
theorem readLong?_join {e : Char} {behind : List Char} (he : isSpaceChar e = true)
    (h : skipJoin? (e :: cs) = some behind) (n : Nat) :
    readLong? '"' ('\\' :: e :: cs) (n + 1) = readLong? '"' behind n := by
  rw [readLong?]
  · rw [if_neg (by decide), if_neg (by decide), if_pos ⟨rfl, rfl⟩, readEscape?_eq_none he, h]
  · exact fun _ h _ => absurd h (by decide)

/-- One piece of a text of several lines: the characters that it stands for, and what is behind
it. -/
inductive LongPiece (quote : Char) : List Char → List Char → List Char → Prop
  | carriage {more : List Char} : LongPiece quote ('\r' :: '\n' :: more) ['\r', '\n'] more
  | quote {more : List Char} (h : quoteRun quote (quote :: more) < 3) :
      LongPiece quote (quote :: more) [quote] more
  | char {c : Char} {more : List Char} (hquote : c ≠ quote) (hreturn : c ≠ '\r')
      (hback : c ≠ '\\' ∨ quote ≠ '"') (hcontrol : isControl c = false ∨ c = '\n') :
      LongPiece quote (c :: more) [c] more
  | escape {c : Char} {cs behind : List Char} (hquote : quote = '"')
      (h : readEscape? cs = some (c, behind)) : LongPiece quote ('\\' :: cs) [c] behind
  | join {cs behind : List Char} (hquote : quote = '"') (h : skipJoin? cs = some behind) :
      LongPiece quote ('\\' :: cs) [] behind

/-- A text that is read begins with the quotes that close it, or with a piece. -/
theorem readLong?_cases {quote : Char} {n : Nat} {x : List Char}
    (h : readLong? quote cs (n + 1) = some (x, rest)) :
    (∃ k, k ≤ 2 ∧ cs = List.replicate (k + 3) quote ++ rest ∧ x = List.replicate k quote) ∨
      ∃ lead behind y, LongPiece quote cs lead behind ∧ x = lead ++ y ∧
        readLong? quote behind n = some (y, rest) := by
  unfold readLong? at h
  split at h
  · cases h
  · obtain ⟨y, rfl, hinner⟩ := Reading.cons_eq_some h
    obtain ⟨z, rfl, hread⟩ := Reading.cons_eq_some hinner
    exact .inr ⟨_, _, z, .carriage, rfl, hread⟩
  · next c more hcrlf =>
    split at h
    · next hquote =>
      subst hquote
      simp only at h
      split at h
      · next hrun =>
        cases h
        obtain ⟨after, hcs, hle, -⟩ := quoteRun_spec c (c :: more)
        obtain ⟨k, hk⟩ : ∃ k, quoteRun c (c :: more) = k + 3 := ⟨_, (Nat.sub_add_cancel hrun).symm⟩
        rw [hk] at hcs hle ⊢
        refine .inl ⟨k, by omega, ?_, rfl⟩
        rw [hcs, List.drop_left' (by simp)]
      · next hrun =>
        obtain ⟨y, rfl, hread⟩ := Reading.cons_eq_some h
        exact .inr ⟨_, _, y, .quote (Nat.lt_of_not_le hrun), rfl, hread⟩
    · next hquote =>
      have hreturn (hcontrol : isControl c = false ∨ c = '\n') : c ≠ '\r' := by
        rintro rfl
        exact hcontrol.elim (absurd · (by decide)) (absurd · (by decide))
      have hone (hback : c ≠ '\\' ∨ quote ≠ '"') (hcontrol : isControl c = false ∨ c = '\n')
          (h : (readLong? quote more n).cons c = some (x, rest)) :
          ∃ lead behind y, LongPiece quote (c :: more) lead behind ∧ x = lead ++ y ∧
            readLong? quote behind n = some (y, rest) := by
        obtain ⟨y, rfl, hread⟩ := Reading.cons_eq_some h
        exact ⟨_, _, y, .char hquote (hreturn hcontrol) hback hcontrol, rfl, hread⟩
      refine .inr ?_
      split at h
      · next hline => exact hone (.inl (by rw [hline]; decide)) (.inr hline) h
      · split at h
        · next hback =>
          obtain ⟨rfl, rfl⟩ := hback
          split at h
          · next _ _ d behind hescape =>
            obtain ⟨y, rfl, hread⟩ := Reading.cons_eq_some h
            exact ⟨_, _, y, .escape rfl hescape, rfl, hread⟩
          · next behind _ hskip => exact ⟨_, _, x, .join rfl hskip, rfl, h⟩
          · cases h
        · next hback =>
          split at h
          · cases h
          · next hcontrol =>
            refine hone ?_ (.inl (by simpa using hcontrol)) h
            by_cases hc : c = '\\'
            · exact .inr fun hq => hback ⟨hc, hq⟩
            · exact .inl hc

/-- A piece stands in front of everything that begins like what was behind it. -/
theorem LongPiece.transfer {quote : Char} (hreturn : quote ≠ '\r') {lead last : List Char}
    (h : LongPiece quote cs lead (last ++ rest)) (hlen : 3 ≤ last.length) :
    ∃ piece, cs = piece ++ (last ++ rest) ∧ piece ≠ [] ∧ ∀ other y n,
      readLong? quote (last ++ other) n = some (y, other) →
        readLong? quote (piece ++ (last ++ other)) (n + 1) = some (lead ++ y, other) := by
  generalize hbehind : last ++ rest = behind at h
  cases h with
  | carriage =>
    refine ⟨['\r', '\n'], rfl, List.cons_ne_nil _ _, fun other y n hread => ?_⟩
    rw [List.cons_append, List.cons_append, List.nil_append, readLong?_carriage, hread]
    rfl
  | quote hrun =>
    refine ⟨[quote], rfl, List.cons_ne_nil _ _, fun other y n hread => ?_⟩
    rw [← hbehind, ← List.cons_append] at hrun
    have hshort : quoteRun quote (quote :: last ++ other) < 3 :=
      quoteRun_append_lt (by simp; omega) hrun other
    rw [List.cons_append] at hshort
    rw [List.singleton_append, readLong?_quote hreturn hshort, hread]
    rfl
  | @char c _ hquote hc hback hcontrol =>
    refine ⟨[c], rfl, List.cons_ne_nil _ _, fun other y n hread => ?_⟩
    rw [List.singleton_append, readLong?_char hquote hc hback hcontrol, hread]
    rfl
  | escape hquote hescape =>
    subst hquote
    obtain ⟨e, taken, rfl, -, htaken⟩ := readEscape?_local hescape
    refine ⟨'\\' :: e :: taken, rfl, List.cons_ne_nil _ _, fun other y n hread => ?_⟩
    rw [List.cons_append, readLong?_escape (htaken _), hread]
    rfl
  | join hquote hskip =>
    subst hquote hbehind
    obtain ⟨e, taken, rfl, he, hend, htaken⟩ := skipJoin?_local hskip
    refine ⟨'\\' :: e :: taken, rfl, List.cons_ne_nil _ _, fun other y n hread => ?_⟩
    have hskip : skipJoin? (e :: (taken ++ (last ++ other))) = some (last ++ other) :=
      htaken (last ++ other) (hend.of_append (by omega) other)
    rw [List.cons_append, List.cons_append, readLong?_join he hskip, hread]
    rfl

/-- A long string is read alike, whatever follows, unless it is one more quote. -/
theorem readLong?_local {quote : Char} (hreturn : quote ≠ '\r') {n : Nat} {x : List Char}
    (h : readLong? quote cs n = some (x, rest)) :
    ∃ taken, cs = taken ++ rest ∧ 3 ≤ taken.length ∧
      ∀ other m, other.head? ≠ some quote → taken.length ≤ m →
        readLong? quote (taken ++ other) m = some (x, other) := by
  induction n generalizing cs x with
  | zero => cases h
  | succ n ih =>
    obtain ⟨k, hk, rfl, rfl⟩ | ⟨lead, behind, y, hpiece, rfl, hread⟩ := readLong?_cases h
    · refine ⟨List.replicate (k + 3) quote, rfl, by simp, fun other m hother hm => ?_⟩
      obtain ⟨j, rfl⟩ : ∃ j, m = j + 1 := ⟨m - 1, by simp at hm; omega⟩
      exact readLong?_close hreturn hk hother j
    · obtain ⟨last, rfl, hlen, hlast⟩ := ih hread
      obtain ⟨piece, rfl, hne, hfront⟩ := hpiece.transfer hreturn hlen
      have hpos : 0 < piece.length := List.length_pos_iff.2 hne
      refine ⟨piece ++ last, (List.append_assoc ..).symm, by simp; omega,
        fun other m hother hm => ?_⟩
      obtain ⟨j, rfl⟩ : ∃ j, m = j + 1 := ⟨m - 1, by simp at hm; omega⟩
      rw [List.append_assoc]
      exact hfront other y j (hlast other j hother (by simp at hm; omega))

/-! ## All forms -/

/-- What may follow a string. -/
def IsQuoteFree (cs : List Char) : Prop := cs.head? ≠ some '"' ∧ cs.head? ≠ some '\''

/-- Whether a line ends is told by two characters. -/
theorem dropLineEnd?_append {taken : List Char} (hlen : 2 ≤ taken.length)
    (h : dropLineEnd? (taken ++ rest) = none) (other : List Char) :
    dropLineEnd? (taken ++ other) = none := by
  cases hother : dropLineEnd? (taken ++ other) with
  | none => rfl
  | some behind =>
    obtain ⟨lineBreak, hbreak, heq⟩ := dropLineEnd?_eq_some hother
    match taken, hlen with
    | c :: d :: more, _ =>
      cases hbreak
      · simp only [List.cons_append, List.nil_append, List.cons.injEq] at heq
        rw [heq.1] at h
        cases h
      · simp only [List.cons_append, List.nil_append, List.cons.injEq] at heq
        rw [heq.1, heq.2.1] at h
        cases h

/-- The text of several lines, behind its opening. -/
theorem readLong?_body_local {quote : Char} (hreturn : quote ≠ '\r') {x : List Char}
    (h : readLong? quote (dropFirstLineEnd cs) ((dropFirstLineEnd cs).length + 1) =
      some (x, rest)) :
    ∃ taken, cs = taken ++ rest ∧ ∀ other, other.head? ≠ some quote →
      readLong? quote (dropFirstLineEnd (taken ++ other))
        ((dropFirstLineEnd (taken ++ other)).length + 1) = some (x, other) := by
  obtain ⟨last, hbody, hlen, hlast⟩ := readLong?_local hreturn h
  cases hdrop : dropLineEnd? cs with
  | some behind =>
    obtain ⟨lineBreak, hbreak, rfl⟩ := dropLineEnd?_eq_some hdrop
    rw [dropFirstLineEnd, hdrop, Option.getD_some] at hbody
    refine ⟨lineBreak ++ last, by rw [hbody, List.append_assoc], fun other hother => ?_⟩
    rw [List.append_assoc, dropFirstLineEnd, hbreak.drop, Option.getD_some]
    exact hlast other _ hother (by simp; omega)
  | none =>
    rw [dropFirstLineEnd, hdrop, Option.getD_none] at hbody
    refine ⟨last, hbody, fun other hother => ?_⟩
    rw [dropFirstLineEnd, dropLineEnd?_append (by omega) (hbody ▸ hdrop) other, Option.getD_none]
    exact hlast other _ hother (by simp; omega)

/-- **A string is read without looking behind it.** -/
theorem readString?_local {s : String} (h : readString? cs = some (s, rest)) :
    ∃ quote taken, (quote = '"' ∨ quote = '\'') ∧ cs = quote :: taken ++ rest ∧
      ∀ other, IsQuoteFree other → readString? (quote :: taken ++ other) = some (s, other) := by
  unfold readString? at h
  split at h
  · obtain ⟨⟨x, more⟩, hread, hpair⟩ := Option.map_eq_some_iff.1 h
    cases hpair
    obtain ⟨taken, rfl, htaken⟩ := readLong?_body_local (by decide) hread
    refine ⟨'"', '"' :: '"' :: taken, .inl rfl, rfl, fun other hother => ?_⟩
    simp only [List.cons_append, readString?]
    rw [htaken other hother.1]
    rfl
  · obtain ⟨⟨x, more⟩, hread, hpair⟩ := Option.map_eq_some_iff.1 h
    cases hpair
    obtain ⟨taken, rfl, htaken⟩ := readLong?_body_local (by decide) hread
    refine ⟨'\'', '\'' :: '\'' :: taken, .inr rfl, rfl, fun other hother => ?_⟩
    simp only [List.cons_append, readString?]
    rw [htaken other hother.2]
    rfl
  · obtain ⟨⟨x, more⟩, hread, hpair⟩ := Option.map_eq_some_iff.1 h
    cases hpair
    obtain ⟨taken, rfl, hne, htaken⟩ := readBasic?_local hread
    refine ⟨'"', taken, .inl rfl, rfl, fun other hother => ?_⟩
    rw [List.cons_append, readString?]
    · rw [htaken other _ (by simp; omega)]
      rfl
    · -- Two more quotes would be the string's end and the beginning of what follows.
      intro last heq
      cases taken with
      | nil => exact absurd rfl hne
      | cons c more' =>
        simp only [List.cons_append, List.cons.injEq] at heq
        obtain ⟨rfl, heq⟩ := heq
        have := htaken more _ (Nat.le_refl _)
        rw [List.cons_append, List.length_cons, readBasic?] at this
        simp only [Option.some.injEq, Prod.mk.injEq] at this
        have hnil : more' = [] := by simpa using this.2
        rw [hnil, List.nil_append] at heq
        exact hother.1 (by rw [heq]; rfl)
  · obtain ⟨⟨x, more⟩, hread, hpair⟩ := Option.map_eq_some_iff.1 h
    cases hpair
    obtain ⟨taken, rfl, hne, htaken⟩ := readLiteral?_local hread
    refine ⟨'\'', taken, .inr rfl, rfl, fun other hother => ?_⟩
    rw [List.cons_append, readString?]
    · rw [htaken other]
      rfl
    · intro last heq
      cases taken with
      | nil => exact absurd rfl hne
      | cons c more' =>
        simp only [List.cons_append, List.cons.injEq] at heq
        obtain ⟨rfl, heq⟩ := heq
        have := htaken more
        rw [List.cons_append, readLiteral?, if_pos rfl] at this
        simp only [Option.some.injEq, Prod.mk.injEq] at this
        have hnil : more' = [] := by simpa using this.2
        rw [hnil, List.nil_append] at heq
        exact hother.2 (by rw [heq]; rfl)
  · cases h

end SessionHost.Toml
