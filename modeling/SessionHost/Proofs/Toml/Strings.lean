import Mathlib.Data.List.Basic
import Mathlib.Data.List.TakeWhile
import SessionHost.Toml.Quote

/-!
# Written strings are read back

A text is written in one of four forms, with escapes where it must be.  Whichever form is chosen,
the reader takes exactly the written characters and gives the text again.

Main definitions:

- `escapeChar`: what is written for a character other than a double quote.

Main results:

- Theorem `readBasic?_escapeText`, `readLong?_escapeText`: texts with escapes.
- Theorem `readLong?_plain`, `readLiteral?_plain`: texts as they stand.
- Theorem `readString?_writeString`: a written string in front of anything but a quote.
-/

namespace SessionHost.Toml

variable {c : Char} {cs tail : List Char}

/-! ## Runs of quotes -/

/-- A run of at most five quotes is counted to its end. -/
theorem quoteRun_replicate_append {quote : Char} {k : Nat} (hk : k ≤ 5)
    (h : k < 5 → cs.head? ≠ some quote) :
    quoteRun quote (List.replicate k quote ++ cs) = k := by
  have hstop : ((cs.take (5 - k)).takeWhile (· = quote)).length = 0 := by
    rcases Nat.lt_or_ge k 5 with hlt | hge
    · cases cs with
      | nil => simp
      | cons d more =>
        have hd : d ≠ quote := by simpa using h hlt
        obtain ⟨n, hn⟩ : ∃ n, 5 - k = n + 1 := ⟨4 - k, by omega⟩
        simp [hn, hd]
    · simp [show 5 - k = 0 by omega]
  have hall : ∀ x ∈ List.replicate k quote, (decide (x = quote)) = true := by simp
  rw [quoteRun, List.take_append, List.length_replicate, List.take_replicate, min_eq_right hk,
    List.takeWhile_append_of_pos hall, List.length_append, hstop, List.length_replicate]
  rfl

/-- The state of counting runs: the run that goes on, and the longest one so far. -/
def runStep (quote : Char) (state : Nat × Nat) (d : Char) : Nat × Nat :=
  if d = quote then (state.1 + 1, max (state.1 + 1) state.2) else (0, state.2)

/-- The longest run is found by one pass that counts the present run. -/
theorem longestRun_eq (quote : Char) (cs : List Char) :
    longestRun quote cs = (cs.foldl (runStep quote) (0, 0)).2 := rfl

/-- The pass never loses the longest run so far. -/
theorem le_foldl_runStep (quote : Char) (cs : List Char) (state : Nat × Nat) :
    state.2 ≤ (cs.foldl (runStep quote) state).2 := by
  induction cs generalizing state with
  | nil => exact Nat.le_refl _
  | cons d more ih =>
    refine Nat.le_trans ?_ (ih _)
    rw [runStep]
    split
    · exact Nat.le_max_right _ _
    · exact Nat.le_refl _

/-- A run of quotes makes the longest one at least as long. -/
theorem foldl_runStep_replicate (quote : Char) (k : Nat) (state : Nat × Nat)
    (h : state.1 ≤ state.2) :
    state.1 + k ≤ ((List.replicate k quote).foldl (runStep quote) state).2 := by
  induction k generalizing state with
  | zero => simpa using h
  | succ k ih =>
    have hstep : runStep quote state quote = (state.1 + 1, max (state.1 + 1) state.2) := by
      simp [runStep]
    rw [List.replicate_succ, List.foldl_cons, hstep]
    have := ih (state.1 + 1, max (state.1 + 1) state.2) (Nat.le_max_left _ _)
    simp only at this
    omega

/-- The present run is never longer than the longest. -/
theorem foldl_runStep_le (quote : Char) (cs : List Char) (state : Nat × Nat)
    (h : state.1 ≤ state.2) :
    (cs.foldl (runStep quote) state).1 ≤ (cs.foldl (runStep quote) state).2 := by
  induction cs generalizing state with
  | nil => exact h
  | cons d more ih =>
    refine ih _ ?_
    rw [runStep]
    split
    · exact Nat.le_max_left _ _
    · exact Nat.zero_le _

/-- A run inside a text is no longer than the longest one. -/
theorem le_longestRun (quote : Char) (before : List Char) (k : Nat) (after : List Char) :
    k ≤ longestRun quote (before ++ (List.replicate k quote ++ after)) := by
  rw [longestRun_eq, List.foldl_append, List.foldl_append]
  refine Nat.le_trans ?_ (le_foldl_runStep _ _ _)
  refine Nat.le_trans (Nat.le_add_left _ _) (foldl_runStep_replicate quote k _ ?_)
  exact foldl_runStep_le quote before (0, 0) (Nat.le_refl 0)

/-- A text without a run has no such quote. -/
theorem not_mem_of_longestRun_eq_zero {quote : Char} (h : longestRun quote cs = 0) :
    quote ∉ cs := by
  intro hmem
  obtain ⟨before, after, rfl⟩ := List.append_of_mem hmem
  have := le_longestRun quote before 1 after
  simp only [List.replicate_one, List.singleton_append] at this
  omega

/-! ## Escapes -/

/-- What is written for a character other than a double quote. -/
def escapeChar (long : Bool) (c : Char) : List Char :=
  if c = '\\' then ['\\', '\\']
  else if c = '\x08' then ['\\', 'b']
  else if c = '\t' then ['\\', 't']
  else if c = '\n' then (if long then ['\n'] else ['\\', 'n'])
  else if c = '\x0c' then ['\\', 'f']
  else if c = '\r' then ['\\', 'r']
  else if needsEscape c then numberEscape c
  else [c]

/-- Other characters end a run of quotes. -/
theorem escapeText_cons_of_ne (long : Bool) (quotes : Nat) (h : c ≠ '"') (cs : List Char) :
    escapeText long quotes (c :: cs) = escapeChar long c ++ escapeText long 0 cs := by
  rw [escapeText, if_neg h]
  rfl

/-- In a basic string every quote is escaped. -/
theorem escapeText_quote_basic (quotes : Nat) (cs : List Char) :
    escapeText false quotes ('"' :: cs) = '\\' :: '"' :: escapeText false 0 cs := by
  simp [escapeText]

/-- In a long string two quotes in a row stand as they are. -/
theorem escapeText_quote_long {quotes : Nat} (h : quotes < 2) (cs : List Char) :
    escapeText true quotes ('"' :: cs) = '"' :: escapeText true (quotes + 1) cs := by
  simp [escapeText, h]

/-- The third quote in a row is escaped. -/
theorem escapeText_quote_full {quotes : Nat} (h : ¬ quotes < 2) (cs : List Char) :
    escapeText true quotes ('"' :: cs) = '\\' :: '"' :: escapeText true 0 cs := by
  simp [escapeText, h]

/-- A hexadecimal digit is read back, also as a capital letter. -/
theorem hexValue?_toUpper {d : Nat} (h : d < 16) :
    Text.hexValue? (Nat.digitChar d).toUpper = some d := by
  revert d
  decide

theorem hexDigits_four (n : Nat) :
    Text.hexDigits 4 n = [Nat.digitChar (n / 16 / 16 / 16 % 16), Nat.digitChar (n / 16 / 16 % 16),
      Nat.digitChar (n / 16 % 16), Nat.digitChar (n % 16)] := rfl

/-- The number of a character that needs an escape is read back. -/
theorem readEscape?_numberEscape (h : needsEscape c = true) (rest : List Char) :
    readEscape? ('u' :: (Text.hexDigits 4 c.toNat).map Char.toUpper ++ rest) = some (c, rest) := by
  have hsmall : c.toNat < 128 := by
    simp only [needsEscape, Bool.or_eq_true, Bool.and_eq_true, decide_eq_true_eq] at h
    omega
  have hdigit (d : Nat) : Text.hexValue? (Nat.digitChar (d % 16)).toUpper = some (d % 16) :=
    hexValue?_toUpper (Nat.mod_lt _ (by decide))
  have hvalue : ((c.toNat / 16 / 16 / 16 % 16 * 16 + c.toNat / 16 / 16 % 16) * 16
      + c.toNat / 16 % 16) * 16 + c.toNat % 16 = c.toNat := by omega
  have hscalar : scalarChar? c.toNat = some c := by
    rw [scalarChar?, if_pos (Or.inl (by omega)), Char.ofNat_toNat]
  simp [readEscape?, readHexChar?, hexDigits_four, hexValue?, hdigit, hvalue, hscalar]

/-- What needs no escape is no control character. -/
theorem isControl_eq_false (h : needsEscape c = false) (hline : c ≠ '\n') :
    isControl c = false := by
  simp only [needsEscape, Bool.or_eq_false_iff] at h
  simp only [isControl, Bool.or_eq_false_iff]
  exact ⟨by simpa [hline] using h.1, h.2⟩

/-- A character is written as an escape that is read back, or as it stands. -/
theorem escapeChar_cases (long : Bool) (c : Char) :
    (∃ e, escapeChar long c = '\\' :: e ∧ ∀ rest, readEscape? (e ++ rest) = some (c, rest)) ∨
      (escapeChar long c = [c] ∧ c ≠ '\\' ∧ c ≠ '\r' ∧
        (isControl c = false ∨ long = true ∧ c = '\n')) := by
  unfold escapeChar
  split
  · next h => exact .inl ⟨['\\'], rfl, fun _ => by rw [h]; rfl⟩
  split
  · next h => exact .inl ⟨['b'], rfl, fun _ => by rw [h]; rfl⟩
  split
  · next h => exact .inl ⟨['t'], rfl, fun _ => by rw [h]; rfl⟩
  split
  · next h =>
    subst h
    cases long
    · exact .inl ⟨['n'], rfl, fun _ => rfl⟩
    · exact .inr ⟨rfl, by decide, by decide, .inr ⟨rfl, rfl⟩⟩
  split
  · next h => exact .inl ⟨['f'], rfl, fun _ => by rw [h]; rfl⟩
  split
  · next h => exact .inl ⟨['r'], rfl, fun _ => by rw [h]; rfl⟩
  split
  · next h => exact .inl ⟨_, rfl, readEscape?_numberEscape h⟩
  · next hback _ _ hline _ hreturn hcode =>
    exact .inr ⟨rfl, hback, hreturn, .inl (isControl_eq_false (by simpa using hcode) hline)⟩

/-! ## Double quotes -/

/-- An escape gives its character. -/
theorem readBasic?_escape {e : List Char} (h : readEscape? (e ++ tail) = some (c, tail))
    (n : Nat) : readBasic? ('\\' :: (e ++ tail)) (n + 1) = (readBasic? tail n).cons c := by
  rw [readBasic?, h]

/-- A plain character stands for itself. -/
theorem readBasic?_char (hquote : c ≠ '"') (hback : c ≠ '\\') (hcontrol : isControl c = false)
    (n : Nat) : readBasic? (c :: tail) (n + 1) = (readBasic? tail n).cons c := by
  rw [readBasic?]
  · rw [if_neg (by simp [hcontrol])]
  · exact hquote
  · exact hback

theorem length_escapeChar_pos (long : Bool) (c : Char) : 0 < (escapeChar long c).length := by
  rcases escapeChar_cases long c with ⟨e, he, -⟩ | ⟨he, -⟩ <;> simp [he]

/-- A text with escapes between double quotes. -/
theorem readBasic?_escapeText (quotes : Nat) (cs rest : List Char) {n : Nat}
    (hn : (escapeText false quotes cs).length < n) :
    readBasic? (escapeText false quotes cs ++ '"' :: rest) n = some (cs, rest) := by
  induction cs generalizing quotes n with
  | nil =>
    obtain ⟨m, rfl⟩ : ∃ m, n = m + 1 := ⟨n - 1, by omega⟩
    rfl
  | cons c more ih =>
    obtain ⟨m, rfl⟩ : ∃ m, n = m + 1 := ⟨n - 1, by omega⟩
    by_cases hquote : c = '"'
    · subst hquote
      rw [escapeText_quote_basic] at hn ⊢
      have hescape : readEscape? (['"'] ++ (escapeText false 0 more ++ '"' :: rest)) =
        some ('"', escapeText false 0 more ++ '"' :: rest) := rfl
      have hread := readBasic?_escape hescape m
      simp only [List.cons_append, List.nil_append, List.length_cons] at hread hn ⊢
      rw [hread, ih 0 (by omega)]
      rfl
    · rw [escapeText_cons_of_ne false quotes hquote] at hn ⊢
      have hpos := length_escapeChar_pos false c
      rw [List.length_append] at hn
      have htail := ih 0 (n := m) (by omega)
      rcases escapeChar_cases false c with ⟨e, he, hread⟩ | ⟨he, hback, -, hcontrol⟩
      · rw [he, List.append_assoc, List.cons_append, readBasic?_escape (hread _), htail]
        rfl
      · have hplain : isControl c = false := by simpa using hcontrol
        rw [he, List.append_assoc, List.singleton_append,
          readBasic?_char hquote hback hplain, htail]
        rfl

/-! ## Single quotes -/

/-- A text without single quotes and control characters between single quotes. -/
theorem readLiteral?_plain (rest : List Char) (hquote : '\'' ∉ cs)
    (hcontrol : ∀ c ∈ cs, isControl c = false) :
    readLiteral? (cs ++ '\'' :: rest) = some (cs, rest) := by
  induction cs with
  | nil => rfl
  | cons c more ih =>
    have hc : c ≠ '\'' := fun heq => hquote (heq ▸ List.mem_cons_self)
    rw [List.cons_append, readLiteral?, if_neg hc,
      if_neg (by simp [hcontrol c List.mem_cons_self]),
      ih (fun h => hquote (List.mem_cons_of_mem _ h))
        fun d hd => hcontrol d (List.mem_cons_of_mem _ hd)]
    rfl

/-! ## Several lines -/

section Long

variable {quote : Char}

/-- A plain character of a long string stands for itself. -/
theorem readLong?_char (hquote : c ≠ quote) (hreturn : c ≠ '\r') (hback : c ≠ '\\' ∨ quote ≠ '"')
    (hcontrol : isControl c = false ∨ c = '\n') (n : Nat) :
    readLong? quote (c :: tail) (n + 1) = (readLong? quote tail n).cons c := by
  have hno : ¬ (c = '\\' ∧ quote = '"') := fun h => hback.elim (· h.1) (· h.2)
  rw [readLong?]
  · rw [if_neg hquote]
    by_cases hline : c = '\n'
    · rw [if_pos hline]
    · have hplain : isControl c = false := hcontrol.resolve_right hline
      rw [if_neg hline, if_neg hno, if_neg (by simp [hplain])]
  · exact fun _ h _ => hreturn h

/-- Fewer than three quotes in a row stand for themselves. -/
theorem readLong?_quote (hreturn : quote ≠ '\r') (hrun : quoteRun quote (quote :: tail) < 3)
    (n : Nat) :
    readLong? quote (quote :: tail) (n + 1) = (readLong? quote tail n).cons quote := by
  rw [readLong?]
  · rw [if_pos rfl]
    exact if_neg (by omega)
  · exact fun _ h _ => hreturn h

/-- The quotes that close a text, with up to two that belong to it. -/
theorem readLong?_close (hreturn : quote ≠ '\r') {k : Nat} (hk : k ≤ 2)
    (h : tail.head? ≠ some quote) (n : Nat) :
    readLong? quote (List.replicate (k + 3) quote ++ tail) (n + 1) =
      some (List.replicate k quote, tail) := by
  have hrun : quoteRun quote (List.replicate (k + 3) quote ++ tail) = k + 3 :=
    quoteRun_replicate_append (by omega) fun _ => h
  have hcons : List.replicate (k + 3) quote ++ tail =
      quote :: (List.replicate (k + 2) quote ++ tail) := rfl
  rw [hcons] at hrun ⊢
  rw [readLong?]
  · rw [if_pos rfl]
    simp only [hrun, Nat.le_add_left, if_true, Nat.add_sub_cancel]
    rw [← hcons, List.drop_left' (by simp)]
  · exact fun _ h _ => hreturn h

/-- A text as it stands, with no three quotes in a row. -/
theorem readLong?_plain (hreturn : quote ≠ '\r') (hbasic : quote ≠ '"')
    (hcs : ∀ c ∈ cs, c ≠ '\r' ∧ (isControl c = false ∨ c = '\n'))
    (hrun : ∀ before after, cs ≠ before ++ (List.replicate 3 quote ++ after))
    (h : tail.head? ≠ some quote) {n : Nat} (hn : cs.length < n) :
    readLong? quote (cs ++ (List.replicate 3 quote ++ tail)) n = some (cs, tail) := by
  induction cs generalizing n with
  | nil =>
    obtain ⟨m, rfl⟩ : ∃ m, n = m + 1 := ⟨n - 1, by omega⟩
    exact readLong?_close hreturn (Nat.zero_le 2) h m
  | cons c more ih =>
    obtain ⟨m, rfl⟩ : ∃ m, n = m + 1 := ⟨n - 1, by omega⟩
    have hmore := ih (fun d hd => hcs d (List.mem_cons_of_mem _ hd))
      (fun before after heq => hrun (c :: before) after (by rw [heq]; rfl))
      (n := m) (by simpa using hn)
    obtain ⟨hc, hcontrol⟩ := hcs c List.mem_cons_self
    by_cases hquote : c = quote
    · subst hquote
      -- The run of quotes in front ends the text, or some other character ends the run.
      obtain ⟨k, after, hk, hafter⟩ : ∃ k after, c :: more = List.replicate (k + 1) c ++ after ∧
          after.head? ≠ some c := by
        refine ⟨(more.takeWhile (· = c)).length, more.dropWhile (· = c), ?_, ?_⟩
        · have hall : more.takeWhile (· = c) =
              List.replicate (more.takeWhile (· = c)).length c :=
            List.eq_replicate_of_mem fun d hd => by simpa using List.mem_takeWhile_imp hd
          rw [List.replicate_succ, List.cons_append, ← hall, List.takeWhile_append_dropWhile]
        · intro hhead
          have := List.head?_dropWhile_not (fun d : Char => decide (d = c)) more
          rw [hhead] at this
          simp at this
      have hsmall : k + 1 ≤ 2 := by
        by_contra hbig
        obtain ⟨j, rfl⟩ : ∃ j, k = j + 2 := ⟨k - 2, by omega⟩
        refine hrun [] (List.replicate j c ++ after) ?_
        rw [hk, List.nil_append, ← List.append_assoc, ← List.replicate_add]
        congr 2
        omega
      cases after with
      | nil =>
        rw [List.append_nil] at hk
        rw [hk, ← List.append_assoc, ← List.replicate_add]
        exact readLong?_close hreturn hsmall h m
      | cons d last =>
        have hshort : quoteRun c (c :: (more ++ (List.replicate 3 c ++ tail))) < 3 := by
          have : quoteRun c (List.replicate (k + 1) c ++
              (d :: last ++ (List.replicate 3 c ++ tail))) = k + 1 :=
            quoteRun_replicate_append (by omega) fun _ => by simpa using hafter
          rw [← List.append_assoc, ← hk] at this
          rw [← List.cons_append, this]
          omega
        rw [List.cons_append, readLong?_quote hreturn hshort, hmore]
        rfl
    · rw [List.cons_append, readLong?_char hquote hc (.inr hbasic) hcontrol, hmore]
      rfl

end Long

/-- An escape in a long string gives its character. -/
theorem readLong?_escape {e : List Char} (h : readEscape? (e ++ tail) = some (c, tail))
    (n : Nat) :
    readLong? '"' ('\\' :: (e ++ tail)) (n + 1) = (readLong? '"' tail n).cons c := by
  rw [readLong?]
  · rw [if_neg (by decide), if_neg (by decide), if_pos ⟨rfl, rfl⟩, h]
  · exact fun _ h _ => absurd h (by decide)

/-- A text with escapes is quotes only, few enough, or has another character behind them. -/
theorem escapeText_front (quotes : Nat) (cs : List Char) :
    ∃ k, k ≤ 2 - quotes ∧
      ((cs = List.replicate k '"' ∧ escapeText true quotes cs = List.replicate k '"') ∨
        ∃ d more, d ≠ '"' ∧ escapeText true quotes cs = List.replicate k '"' ++ d :: more) := by
  induction cs generalizing quotes with
  | nil => exact ⟨0, Nat.zero_le _, .inl ⟨rfl, rfl⟩⟩
  | cons c more ih =>
    by_cases hquote : c = '"'
    · subst hquote
      by_cases hfew : quotes < 2
      · obtain ⟨k, hk, hcases⟩ := ih (quotes + 1)
        refine ⟨k + 1, by omega, ?_⟩
        rw [escapeText_quote_long hfew]
        rcases hcases with ⟨hcs, htext⟩ | ⟨d, last, hd, htext⟩
        · refine .inl ⟨by rw [hcs]; rfl, by rw [htext]; rfl⟩
        · exact .inr ⟨d, last, hd, by rw [htext]; rfl⟩
      · exact ⟨0, Nat.zero_le _,
          .inr ⟨'\\', _, by decide, by rw [escapeText_quote_full hfew]; rfl⟩⟩
    · refine ⟨0, Nat.zero_le _, .inr ?_⟩
      rw [escapeText_cons_of_ne true quotes hquote]
      rcases escapeChar_cases true c with ⟨e, he, -⟩ | ⟨he, -⟩
      · exact ⟨'\\', _, by decide, by rw [he]; rfl⟩
      · exact ⟨c, _, hquote, by rw [he]; rfl⟩

/-- A text with escapes and line ends as they stand between three double quotes. -/
theorem readLong?_escapeText (quotes : Nat) (cs : List Char) (h : tail.head? ≠ some '"')
    {n : Nat} (hn : (escapeText true quotes cs).length < n) :
    readLong? '"' (escapeText true quotes cs ++ (List.replicate 3 '"' ++ tail)) n =
      some (cs, tail) := by
  induction cs generalizing quotes n with
  | nil =>
    obtain ⟨m, rfl⟩ : ∃ m, n = m + 1 := ⟨n - 1, by omega⟩
    exact readLong?_close (by decide) (Nat.zero_le 2) h m
  | cons c more ih =>
    obtain ⟨m, rfl⟩ : ∃ m, n = m + 1 := ⟨n - 1, by omega⟩
    by_cases hquote : c = '"'
    · subst hquote
      by_cases hfew : quotes < 2
      · obtain ⟨k, hk, ⟨hcs, htext⟩ | ⟨d, last, hd, htext⟩⟩ :=
          escapeText_front quotes ('"' :: more)
        · rw [htext, hcs, ← List.append_assoc, ← List.replicate_add]
          exact readLong?_close (by decide) (by omega) h m
        · have hshort : quoteRun '"' (escapeText true quotes ('"' :: more) ++
              (List.replicate 3 '"' ++ tail)) < 3 := by
            rw [htext, List.append_assoc, quoteRun_replicate_append (by omega)
              fun _ => by simpa using hd]
            omega
          rw [escapeText_quote_long hfew] at hn hshort ⊢
          rw [List.cons_append] at hshort ⊢
          rw [readLong?_quote (by decide) hshort, ih (quotes + 1) (by simpa using hn)]
          rfl
      · rw [escapeText_quote_full hfew] at hn ⊢
        have hescape : readEscape?
            (['"'] ++ (escapeText true 0 more ++ (List.replicate 3 '"' ++ tail))) =
          some ('"', escapeText true 0 more ++ (List.replicate 3 '"' ++ tail)) := rfl
        have hread := readLong?_escape hescape m
        simp only [List.cons_append, List.nil_append, List.length_cons] at hread hn ⊢
        rw [hread, ih 0 (by omega)]
        rfl
    · rw [escapeText_cons_of_ne true quotes hquote] at hn ⊢
      have hpos := length_escapeChar_pos true c
      rw [List.length_append] at hn
      have htail := ih 0 (n := m) (by omega)
      rcases escapeChar_cases true c with ⟨e, he, hread⟩ | ⟨he, hback, hreturn, hcontrol⟩
      · rw [he, List.append_assoc, List.cons_append, readLong?_escape (hread _), htail]
        rfl
      · rw [he, List.append_assoc, List.singleton_append,
          readLong?_char hquote hreturn (.inl hback) (hcontrol.imp_right (·.2)), htail]
        rfl

/-! ## All forms -/

/-- Nothing goes where no line ends. -/
theorem dropFirstLineEnd_of_head (h : ∀ c ∈ cs.head?, c ≠ '\n' ∧ c ≠ '\r') :
    dropFirstLineEnd cs = cs := by
  cases cs with
  | nil => rfl
  | cons c more =>
    obtain ⟨hline, hreturn⟩ := h c rfl
    have hnone : dropLineEnd? (c :: more) = none := by
      rw [dropLineEnd?]
      · exact fun _ heq => hline (by cases heq; rfl)
      · exact fun _ heq => hreturn (by cases heq; rfl)
    rw [dropFirstLineEnd, hnone]
    rfl

/-- A literal string is chosen only for a text without its quote and without line ends. -/
theorem StringForm.choose_eq_literal (h : StringForm.choose cs = .literal) :
    cs.any needsEscape = false ∧ longestRun '\'' cs = 0 ∧ '\n' ∉ cs := by
  simp only [StringForm.choose] at h
  split_ifs at h with _ hliteral
  simp_all

/-- A long literal string is chosen only for a text without three of its quotes in a row. -/
theorem StringForm.choose_eq_longLiteral (h : StringForm.choose cs = .longLiteral) :
    cs.any needsEscape = false ∧ longestRun '\'' cs ≤ 2 := by
  simp only [StringForm.choose] at h
  split_ifs at h with _ _ _ hliteral
  simp_all

/-- Behind the first line end that a form of several lines is given, or without one, the text
begins. -/
theorem dropFirstLineEnd_first (cs : List Char) {written : List Char}
    (h : '\n' ∉ cs → ∀ c ∈ written.head?, c ≠ '\n' ∧ c ≠ '\r') :
    dropFirstLineEnd ((if cs.contains '\n' then ['\n'] else []) ++ written) = written := by
  by_cases hline : '\n' ∈ cs
  · simp [hline, dropFirstLineEnd, dropLineEnd?]
  · simpa [hline] using dropFirstLineEnd_of_head (h hline)

/-- The escaped text of one line does not begin with a line end. -/
theorem escapeText_head (quotes : Nat) (tail : List Char) (hline : '\n' ∉ cs) :
    ∀ c ∈ (escapeText true quotes cs ++ '"' :: tail).head?, c ≠ '\n' ∧ c ≠ '\r' := by
  cases cs with
  | nil => simp [escapeText]
  | cons c more =>
    have hc : c ≠ '\n' := fun heq => hline (heq ▸ List.mem_cons_self)
    by_cases hquote : c = '"'
    · subst hquote
      by_cases hfew : quotes < 2
      · simp [escapeText_quote_long hfew]
      · simp [escapeText_quote_full hfew]
    · rw [escapeText_cons_of_ne true quotes hquote]
      rcases escapeChar_cases true c with ⟨e, he, -⟩ | ⟨he, -, hreturn, -⟩
      · simp [he]
      · simp [he, hc, hreturn]

/-- Two quotes behind a double quote would open a string of several lines. -/
theorem escapeText_not_opening (cs : List Char) {rest : List Char}
    (hdouble : rest.head? ≠ some '"') (more : List Char) :
    escapeText false 0 cs ++ '"' :: rest ≠ '"' :: '"' :: more := by
  intro heq
  cases cs with
  | nil =>
    simp [escapeText] at heq
    simp [heq] at hdouble
  | cons c cs =>
    by_cases hquote : c = '"'
    · subst hquote
      simp [escapeText_quote_basic] at heq
    · rw [escapeText_cons_of_ne false 0 hquote] at heq
      rcases escapeChar_cases false c with ⟨e, he, -⟩ | ⟨he, -⟩
      · simp [he] at heq
      · simp [he, hquote] at heq

/-- A basic string is read as the text that it was written for. -/
theorem readString?_basic (s : String) {rest : List Char} (hdouble : rest.head? ≠ some '"') :
    readString? ('"' :: (escapeText false 0 s.toList ++ ['"']) ++ rest) = some (s, rest) := by
  have hread := readBasic?_escapeText 0 s.toList rest
    (n := (escapeText false 0 s.toList ++ '"' :: rest).length + 1)
    (by simp only [List.length_append, List.length_cons]; omega)
  rw [List.cons_append, List.append_assoc, List.singleton_append, readString?]
  · rw [hread]
    simp
  · exact fun more => escapeText_not_opening s.toList hdouble more

/-- A text without quotes and codes stands between single quotes as it is. -/
theorem readString?_literal {s : String} {rest : List Char}
    (hcodes : s.toList.any needsEscape = false) (hquote : '\'' ∉ s.toList)
    (hline : '\n' ∉ s.toList) (hsingle : rest.head? ≠ some '\'') :
    readString? ('\'' :: (s.toList ++ ['\'']) ++ rest) = some (s, rest) := by
  have hread := readLiteral?_plain rest hquote fun c hc =>
    isControl_eq_false (by simpa using List.any_eq_false.1 hcodes c hc) fun heq => hline (heq ▸ hc)
  rw [List.cons_append, List.append_assoc, List.singleton_append, readString?]
  · rw [hread]
    simp
  · intro more heq
    cases hs : s.toList with
    | nil =>
      rw [hs] at heq
      simp at heq
      simp [heq] at hsingle
    | cons c cs =>
      rw [hs] at heq hquote
      simp at heq
      exact hquote (heq.1 ▸ List.mem_cons_self)

/-- A long basic string is read as the text that it was written for, with or without a first
line end. -/
theorem readString?_longBasic (s : String) {rest : List Char} (hdouble : rest.head? ≠ some '"') :
    readString? (['"', '"', '"'] ++ (if s.toList.contains '\n' then ['\n'] else []) ++
      escapeText true 0 s.toList ++ ['"', '"', '"'] ++ rest) = some (s, rest) := by
  have hread := readLong?_escapeText 0 s.toList hdouble
    (n := (escapeText true 0 s.toList ++ (List.replicate 3 '"' ++ rest)).length + 1)
    (by simp only [List.length_append]; omega)
  have hfirst := dropFirstLineEnd_first s.toList (escapeText_head 0 ('"' :: '"' :: rest))
  simp only [List.cons_append, List.append_assoc, List.nil_append, readString?]
  rw [hfirst]
  exact (congrArg (Option.map _) hread).trans (by simp)

/-- A text without codes and with short runs of quotes stands between three single quotes as it
is. -/
theorem readString?_longLiteral {s : String} {rest : List Char}
    (hcodes : s.toList.any needsEscape = false) (hrun : longestRun '\'' s.toList ≤ 2)
    (hsingle : rest.head? ≠ some '\'') :
    readString? (['\'', '\'', '\''] ++ (if s.toList.contains '\n' then ['\n'] else []) ++
      s.toList ++ ['\'', '\'', '\''] ++ rest) = some (s, rest) := by
  have hplain (c : Char) (hc : c ∈ s.toList) : c ≠ '\r' ∧ (isControl c = false ∨ c = '\n') := by
    have hneeds : needsEscape c = false := by simpa using List.any_eq_false.1 hcodes c hc
    refine ⟨fun heq => by rw [heq] at hneeds; exact absurd hneeds (by decide), ?_⟩
    by_cases hline : c = '\n'
    · exact .inr hline
    · exact .inl (isControl_eq_false hneeds hline)
  have hshort (before after : List Char) :
      s.toList ≠ before ++ (List.replicate 3 '\'' ++ after) := by
    intro heq
    have := le_longestRun '\'' before 3 after
    rw [← heq] at this
    omega
  have hread := readLong?_plain (by decide) (by decide) hplain hshort hsingle
    (n := (s.toList ++ (List.replicate 3 '\'' ++ rest)).length + 1)
    (by simp only [List.length_append]; omega)
  have hhead (hline : '\n' ∉ s.toList) :
      ∀ c ∈ (s.toList ++ '\'' :: '\'' :: '\'' :: rest).head?, c ≠ '\n' ∧ c ≠ '\r' := by
    cases hs : s.toList with
    | nil => simp
    | cons d more =>
      have hd : d ∈ s.toList := hs ▸ List.mem_cons_self
      simpa using ⟨fun heq : d = '\n' => hline (heq ▸ hd), (hplain d hd).1⟩
  have hfirst := dropFirstLineEnd_first s.toList hhead
  simp only [List.cons_append, List.append_assoc, List.nil_append, readString?]
  rw [hfirst]
  exact (congrArg (Option.map _) hread).trans (by simp)

/-- **Written strings are read back.**  In front of anything but a quote, the written form of a
text is read as that text, and nothing more is taken. -/
theorem readString?_writeString (s : String) {rest : List Char} (hdouble : rest.head? ≠ some '"')
    (hsingle : rest.head? ≠ some '\'') :
    readString? (writeString s ++ rest) = some (s, rest) := by
  unfold writeString
  simp only
  split
  · exact readString?_basic s hdouble
  · next hform =>
    obtain ⟨hcodes, hnone, hline⟩ := StringForm.choose_eq_literal hform
    exact readString?_literal hcodes (not_mem_of_longestRun_eq_zero hnone) hline hsingle
  · exact readString?_longBasic s hdouble
  · next hform =>
    obtain ⟨hcodes, hrun⟩ := StringForm.choose_eq_longLiteral hform
    exact readString?_longLiteral hcodes hrun hsingle

end SessionHost.Toml
