import SessionHost.Launch.Script

/-!
# The banner's literal

The banner of two lines stands in double quotes.  A shell reads such a literal up to the first quote
that is not escaped, and a backtick makes the character behind it stand for itself.  The quotes of
the banner are escaped, its backticks are not: a backtick that is already in front of a quote takes
the escape for itself, and the quote ends the literal.

Main definitions:

- `doubleQuoted?`, `doubleLiteral?`: a double-quoted literal, and what stands behind it.
- `QuotesGuarded`: no quote of a text stands behind an odd number of backticks.
- `EditorArguments.beforeBanner`, `EditorArguments.behindBanner`: the arguments around the banner.

Main results:

- Theorem `banner_literal`: the literal always ends, it ends at its own closing quote exactly if the
  quotes of the title are guarded, and it says the banner exactly if the title has no backtick.
-/

namespace SessionHost.Launch

/-! ## Reading -/

/-- Reads the characters of a literal behind its first quote: its value, and what stands behind the
quote that ends it.  A dollar sign counts as any other character. -/
def doubleQuoted? : List Char → Option (List Char × List Char)
  | [] => none
  | c :: rest =>
    if c = '"' then some ([], rest)
    else if c = '`' then
      match rest with
      | [] => none
      | d :: behind => (doubleQuoted? behind).map fun p => (d :: p.1, p.2)
    else (doubleQuoted? rest).map fun p => (c :: p.1, p.2)

/-- The value of the double-quoted literal that a text begins with, and the text behind it. -/
def doubleLiteral? (text : String) : Option (String × String) :=
  match text.toList with
  | '"' :: rest => (doubleQuoted? rest).map fun p => (String.ofList p.1, String.ofList p.2)
  | _ => none

/-- A quote ends the literal. -/
theorem doubleQuoted?_quote (rest : List Char) : doubleQuoted? ('"' :: rest) = some ([], rest) := by
  rw [doubleQuoted?.eq_def]
  exact if_pos rfl

/-- A backtick takes the next character as it is. -/
theorem doubleQuoted?_escape (c : Char) (rest : List Char) :
    doubleQuoted? ('`' :: c :: rest) = (doubleQuoted? rest).map fun p => (c :: p.1, p.2) := by
  rw [doubleQuoted?, if_neg (by decide), if_pos rfl]

/-- The character is neither a quote nor a backtick. -/
def IsPlain (c : Char) : Prop := c ≠ '"' ∧ c ≠ '`'

/-- A plain character stands for itself. -/
theorem doubleQuoted?_plain {c : Char} (hc : IsPlain c) (rest : List Char) :
    doubleQuoted? (c :: rest) = (doubleQuoted? rest).map fun p => (c :: p.1, p.2) := by
  rw [doubleQuoted?.eq_def]
  simp only [if_neg hc.1, if_neg hc.2]

/-- Plain characters in a row stand for themselves. -/
theorem doubleQuoted?_append {cs : List Char} (hcs : ∀ c ∈ cs, IsPlain c) (rest : List Char) :
    doubleQuoted? (cs ++ rest) = (doubleQuoted? rest).map fun p => (cs ++ p.1, p.2) := by
  induction cs with
  | nil => simp
  | cons c cs ih =>
    obtain ⟨hc, hcs⟩ := List.forall_mem_cons.1 hcs
    rw [List.cons_append, doubleQuoted?_plain hc, ih hcs, Option.map_map]
    rfl

/-! ## Guarded quotes -/

/-- How many backticks stand at the end. -/
def ticksAtEnd (cs : List Char) : Nat := (cs.reverse.takeWhile (· = '`')).length

/-- Every quote stands directly behind an even number of backticks. -/
def QuotesGuarded (cs : List Char) : Prop :=
  ∀ before after, cs = before ++ '"' :: after → ticksAtEnd before % 2 = 0

/-- No more backticks are at the end than there are characters. -/
theorem ticksAtEnd_le (cs : List Char) : ticksAtEnd cs ≤ cs.length := by
  rw [← List.length_reverse]
  exact (List.takeWhile_sublist _).length_le

/-- A character in front counts only if all behind it are backticks. -/
theorem ticksAtEnd_cons (c : Char) (cs : List Char) :
    ticksAtEnd (c :: cs) =
      if ticksAtEnd cs = cs.length ∧ c = '`' then cs.length + 1 else ticksAtEnd cs := by
  simp only [ticksAtEnd, List.reverse_cons, List.takeWhile_append, List.length_reverse]
  by_cases hall : (cs.reverse.takeWhile (· = '`')).length = cs.length
  · by_cases hc : c = '`'
    · simp [hall, hc]
    · simp [hall, hc]
  · simp [hall]

/-- Another character in front does not count. -/
theorem ticksAtEnd_of_ne {c : Char} (hc : c ≠ '`') (cs : List Char) :
    ticksAtEnd (c :: cs) = ticksAtEnd cs := by
  rw [ticksAtEnd_cons, if_neg fun h => hc h.2]

/-- A backtick and the character that it escapes leave the parity behind them alone. -/
theorem ticksAtEnd_pair (c : Char) (cs : List Char) :
    ticksAtEnd ('`' :: c :: cs) % 2 = ticksAtEnd cs % 2 := by
  have hle := ticksAtEnd_le cs
  have houter := ticksAtEnd_cons '`' (c :: cs)
  have hinner := ticksAtEnd_cons c cs
  simp only [List.length_cons, and_true] at houter
  -- The first backtick counts only if the rest is backticks, and then both of them do.
  split at houter <;> split at hinner <;> omega

theorem quotesGuarded_nil : QuotesGuarded [] := fun before after h => by
  cases before <;> cases h

theorem quotesGuarded_tick : QuotesGuarded ['`'] := fun before after h => by
  rcases before with _ | ⟨c, _ | ⟨d, before⟩⟩ <;> simp at h

/-- Another character in front does not matter to the quotes. -/
theorem quotesGuarded_cons {c : Char} (hc : c ≠ '`') (cs : List Char) :
    QuotesGuarded (c :: cs) ↔ QuotesGuarded cs := by
  constructor
  · intro h before after hcs
    rw [← ticksAtEnd_of_ne hc]
    exact h (c :: before) after (by rw [hcs]; rfl)
  · intro h before after hcs
    cases before with
    | nil => rfl
    | cons d before =>
      obtain ⟨rfl, hbefore⟩ := List.cons.inj hcs
      rw [ticksAtEnd_of_ne hc]
      exact h before after hbefore

/-- A backtick before a character that is no quote does not matter to the quotes. -/
theorem quotesGuarded_pair {c : Char} (hc : c ≠ '"') (cs : List Char) :
    QuotesGuarded ('`' :: c :: cs) ↔ QuotesGuarded cs := by
  constructor
  · intro h before after hcs
    rw [← ticksAtEnd_pair c]
    exact h ('`' :: c :: before) after (by rw [hcs]; rfl)
  · intro h before after hcs
    rcases before with _ | ⟨d, _ | ⟨e, before⟩⟩
    · rfl
    · exact absurd (List.cons.inj (List.cons.inj hcs).2).1 hc
    · obtain ⟨hd, hrest⟩ := List.cons.inj hcs
      obtain ⟨he, hbefore⟩ := List.cons.inj hrest
      rw [← hd, ← he, ticksAtEnd_pair]
      exact h before after hbefore

/-- A backtick before a quote takes its guard away. -/
theorem not_quotesGuarded (cs : List Char) : ¬QuotesGuarded ('`' :: '"' :: cs) := fun h => by
  have hodd := h ['`'] cs rfl
  revert hodd
  decide

/-- Without backticks every quote is guarded. -/
theorem quotesGuarded_of_notMem {cs : List Char} (h : '`' ∉ cs) : QuotesGuarded cs := by
  induction cs with
  | nil => exact quotesGuarded_nil
  | cons c cs ih =>
    obtain ⟨hc, hcs⟩ := not_or.1 (mt List.mem_cons.2 h)
    exact (quotesGuarded_cons (Ne.symm hc) cs).2 (ih hcs)

/-! ## Escaped quotes -/

/-- The characters with a backtick in front of each quote. -/
def escapeQuotes (cs : List Char) : List Char :=
  cs.flatMap fun c => if c = '"' then ['`', '"'] else [c]

/-- The characters that escaped ones are read as: a backtick is lost, and what it escapes stays. -/
def shown : List Char → List Char
  | [] => []
  | c :: rest =>
    if c = '`' then
      match rest with
      | [] => []
      | d :: behind => d :: shown behind
    else c :: shown rest

/-- A quote gets a backtick. -/
theorem escapeQuotes_quote (cs : List Char) :
    escapeQuotes ('"' :: cs) = '`' :: '"' :: escapeQuotes cs := rfl

/-- Other characters stay. -/
theorem escapeQuotes_cons {c : Char} (hc : c ≠ '"') (cs : List Char) :
    escapeQuotes (c :: cs) = c :: escapeQuotes cs := by
  simp [escapeQuotes, hc]

/-- Two halves are escaped one by one. -/
theorem escapeQuotes_append (cs ds : List Char) :
    escapeQuotes (cs ++ ds) = escapeQuotes cs ++ escapeQuotes ds := List.flatMap_append

/-- Plain characters stay. -/
theorem escapeQuotes_of_plain {cs : List Char} (hcs : ∀ c ∈ cs, IsPlain c) :
    escapeQuotes cs = cs := by
  induction cs with
  | nil => rfl
  | cons c cs ih =>
    obtain ⟨hc, hcs⟩ := List.forall_mem_cons.1 hcs
    rw [escapeQuotes_cons hc.1, ih hcs]

/-- Guarded quotes do not end a literal. -/
theorem doubleQuoted?_guarded {cs : List Char} (h : QuotesGuarded cs) {c : Char} (hc : IsPlain c)
    (rest : List Char) :
    doubleQuoted? (escapeQuotes cs ++ c :: rest) =
      (doubleQuoted? (c :: rest)).map fun p => (shown cs ++ p.1, p.2) := by
  fun_induction shown cs with
  | case1 => simp [escapeQuotes]
  | case2 =>
    -- The backtick at the end escapes a character that stands for itself anyhow.
    rw [escapeQuotes_cons (by decide), List.cons_append]
    change doubleQuoted? ('`' :: c :: rest) = (doubleQuoted? (c :: rest)).map id
    rw [doubleQuoted?_escape, doubleQuoted?_plain hc, Option.map_id]
    rfl
  | case3 d behind ih =>
    have hd : d ≠ '"' := by
      rintro rfl
      exact not_quotesGuarded behind h
    rw [escapeQuotes_cons (by decide), escapeQuotes_cons hd, List.cons_append, List.cons_append,
      doubleQuoted?_escape, ih ((quotesGuarded_pair hd behind).1 h), Option.map_map]
    rfl
  | case4 d behind hd ih =>
    have hbehind := (quotesGuarded_cons hd behind).1 h
    by_cases hquote : d = '"'
    · subst hquote
      rw [escapeQuotes_quote, List.cons_append, List.cons_append, doubleQuoted?_escape, ih hbehind,
        Option.map_map]
      rfl
    · rw [escapeQuotes_cons hquote, List.cons_append, doubleQuoted?_plain ⟨hquote, hd⟩, ih hbehind,
        Option.map_map]
      rfl

/-- A quote that is not guarded ends a literal. -/
theorem doubleQuoted?_unguarded {cs : List Char} (h : ¬QuotesGuarded cs) (rest : List Char) :
    ∃ value before after, cs = before ++ '"' :: after ∧
      doubleQuoted? (escapeQuotes cs ++ rest) = some (value, escapeQuotes after ++ rest) := by
  fun_induction shown cs with
  | case1 => exact absurd quotesGuarded_nil h
  | case2 => exact absurd quotesGuarded_tick h
  | case3 d behind ih =>
    by_cases hd : d = '"'
    · subst hd
      refine ⟨['`'], ['`'], behind, rfl, ?_⟩
      rw [escapeQuotes_cons (by decide), escapeQuotes_quote, List.cons_append, List.cons_append,
        List.cons_append, doubleQuoted?_escape, doubleQuoted?_quote]
      rfl
    · obtain ⟨value, before, after, hsplit, hread⟩ :=
        ih fun hbehind => h ((quotesGuarded_pair hd behind).2 hbehind)
      refine ⟨d :: value, '`' :: d :: before, after, by rw [hsplit]; rfl, ?_⟩
      rw [escapeQuotes_cons (by decide), escapeQuotes_cons hd, List.cons_append, List.cons_append,
        doubleQuoted?_escape, hread]
      rfl
  | case4 d behind hd ih =>
    obtain ⟨value, before, after, hsplit, hread⟩ :=
      ih fun hbehind => h ((quotesGuarded_cons hd behind).2 hbehind)
    refine ⟨d :: value, d :: before, after, by rw [hsplit]; rfl, ?_⟩
    by_cases hquote : d = '"'
    · subst hquote
      rw [escapeQuotes_quote, List.cons_append, List.cons_append, doubleQuoted?_escape, hread]
      rfl
    · rw [escapeQuotes_cons hquote, List.cons_append, doubleQuoted?_plain ⟨hquote, hd⟩, hread]
      rfl

/-- Other characters than backticks are shown as they are. -/
theorem shown_cons {c : Char} (hc : c ≠ '`') (cs : List Char) :
    shown (c :: cs) = c :: shown cs := by
  rw [shown.eq_def]
  exact if_neg hc

/-- What is shown is no longer than the text. -/
theorem length_shown_le (cs : List Char) : (shown cs).length ≤ cs.length := by
  fun_induction shown cs with
  | case1 => exact Nat.le_refl _
  | case2 => exact Nat.zero_le _
  | case3 d behind ih =>
    simp only [List.length_cons]
    omega
  | case4 d behind hd ih =>
    simp only [List.length_cons]
    omega

/-- Escaped characters are read as they are exactly if there is no backtick among them. -/
theorem shown_eq_iff (cs : List Char) : shown cs = cs ↔ '`' ∉ cs := by
  constructor
  · intro h
    induction cs with
    | nil => simp
    | cons c cs ih =>
      have hc : c ≠ '`' := by
        rintro rfl
        have hlength := congrArg List.length h
        cases cs with
        | nil => simp [shown] at h
        | cons d cs =>
          rw [shown, if_pos rfl] at hlength
          have := length_shown_le cs
          simp only [List.length_cons] at hlength
          omega
      rw [shown_cons hc] at h
      exact mt List.mem_cons.1 (not_or.2 ⟨Ne.symm hc, ih (List.cons.inj h).2⟩)
  · intro h
    induction cs with
    | nil => rfl
    | cons c cs ih =>
      obtain ⟨hc, hcs⟩ := not_or.1 (mt List.mem_cons.2 h)
      rw [shown_cons (Ne.symm hc), ih hcs]

/-! ## The banner -/

/-- The arguments in front of the banner's. -/
def EditorArguments.beforeBanner (a : EditorArguments) : String :=
  "-HostName '" ++ quoteSingle a.hostName ++
  "' -HostProfileId '" ++ quoteSingle a.hostProfileId ++
  "' -HostVersion '" ++ quoteSingle a.hostVersion ++
  "' -BundledModulesPath '" ++ quoteSingle a.modulesPath.text ++ "' -EnableConsoleRepl "

/-- The arguments behind the banner's, with the blank in front of them. -/
def EditorArguments.behindBanner (a : EditorArguments) : String :=
  " " ++ (if a.waitForDebugger then "-WaitForDebugger " else "") ++
  "-LogLevel '" ++ quoteSingle a.logLevel ++ "' " ++
  (if a.debugServiceOnly then "-DebugServiceOnly " else "")

/-- The banner is neither suppressed nor a single line. -/
structure WholeBanner (a : EditorArguments) (exe : Executable) (platform : Platform) : Prop where
  given : a.suppressBanner = false
  lines : (platform.os.isWindows && !exe.properArguments) = false

/-- The banner's second line, with the line ends around it. -/
def helpLine : List Char := "\nType 'help' to get help.\n".toList

theorem helpLine_eq : helpLine = '\n' :: helpLine.tail := rfl

theorem isPlain_helpLine : ∀ c ∈ helpLine, IsPlain c := by
  have hall : (helpLine.all fun c => c ≠ '"' ∧ c ≠ '`') = true := rfl
  intro c hc
  have hplain := of_decide_eq_true (List.all_eq_true.1 hall c hc)
  exact hplain

/-- The banner's literal behind its first quote, with the arguments behind it. -/
def EditorArguments.bannerChars (a : EditorArguments) : List Char :=
  escapeQuotes a.title.toList ++ helpLine ++ '"' :: a.behindBanner.toList

/-- The banner is its title with the line of help. -/
theorem EditorArguments.toList_banner (a : EditorArguments) :
    a.banner.toList = a.title.toList ++ helpLine := by
  rw [banner, String.toList_append]
  rfl

/-- The banner with its quotes escaped. -/
theorem EditorArguments.replaceChar_banner (a : EditorArguments) :
    Text.replaceChar '"' "`\"" a.banner =
      String.ofList (escapeQuotes a.title.toList ++ helpLine) := by
  have hhelp := escapeQuotes_append a.title.toList helpLine
  rw [escapeQuotes_of_plain isPlain_helpLine, ← a.toList_banner] at hhelp
  rw [← hhelp]
  rfl

/-- The banner's argument: quotes in the title escaped, and what stands behind the literal. -/
theorem EditorArguments.ofList_bannerChars (a : EditorArguments) :
    String.ofList ('"' :: a.bannerChars) =
      "\"" ++ (String.ofList (escapeQuotes a.title.toList ++ helpLine) ++
        ("\"" ++ a.behindBanner)) := by
  have hquote : "\"" = String.ofList ['"'] := rfl
  rw [hquote, ← String.ofList_toList (s := a.behindBanner), ← String.ofList_append,
    ← String.ofList_append, ← String.ofList_append]
  simp only [bannerChars, List.cons_append, List.nil_append]

/-- The arguments are those in front of the banner, the banner's literal and those behind it. -/
theorem EditorArguments.render_eq {a : EditorArguments} {exe : Executable} {platform : Platform}
    (h : WholeBanner a exe platform) :
    a.render exe platform =
      a.beforeBanner ++ "-StartupBanner " ++ String.ofList ('"' :: a.bannerChars) := by
  have hargument : a.bannerArgument exe platform =
      "-StartupBanner \"" ++ Text.replaceChar '"' "`\"" a.banner ++ "\" " := by
    simp only [bannerArgument, h.given, h.lines, Bool.false_eq_true, if_false]
  have cuts : "-StartupBanner \"" = "-StartupBanner " ++ "\"" ∧ "\" " = "\"" ++ " " := ⟨rfl, rfl⟩
  delta render beforeBanner
  rw [hargument, a.replaceChar_banner, a.ofList_bannerChars]
  delta behindBanner
  simp only [cuts, String.append_assoc, -String.reduceAppend]

/-- **The banner's literal.**  It always ends, no later than at its own closing quote; it ends there
exactly if every quote of the title is guarded, and it says the banner exactly if the title has no
backtick. -/
theorem banner_literal {a : EditorArguments} {exe : Executable} {platform : Platform}
    (h : WholeBanner a exe platform) :
    ∃ text value behind,
      a.render exe platform = a.beforeBanner ++ "-StartupBanner " ++ text ∧
      doubleLiteral? text = some (value, behind) ∧
      a.behindBanner.toList <:+ behind.toList ∧
      (behind = a.behindBanner ↔ QuotesGuarded a.title.toList) ∧
      (value = a.banner ∧ behind = a.behindBanner ↔ '`' ∉ a.title.toList) := by
  have hclosed : doubleQuoted? (helpLine ++ '"' :: a.behindBanner.toList) =
      some (helpLine, a.behindBanner.toList) := by
    rw [doubleQuoted?_append isPlain_helpLine, doubleQuoted?_quote]
    simp
  have hliteral {value behind : List Char}
      (hread : doubleQuoted? a.bannerChars = some (value, behind)) :
      doubleLiteral? (String.ofList ('"' :: a.bannerChars)) =
        some (String.ofList value, String.ofList behind) := by
    simp only [doubleLiteral?, String.toList_ofList, hread, Option.map_some]
  by_cases hguarded : QuotesGuarded a.title.toList
  · have hread : doubleQuoted? a.bannerChars =
        some (shown a.title.toList ++ helpLine, a.behindBanner.toList) := by
      rw [EditorArguments.bannerChars, List.append_assoc, helpLine_eq, List.cons_append,
        doubleQuoted?_guarded hguarded (isPlain_helpLine _ (by rw [helpLine_eq]; simp)),
        ← List.cons_append, ← helpLine_eq, hclosed]
      rfl
    refine ⟨_, _, _, EditorArguments.render_eq h, hliteral hread, ?_, ?_, ?_⟩
    · simp only [String.toList_ofList, List.suffix_rfl]
    · exact iff_of_true String.ofList_toList hguarded
    · rw [String.ofList_toList, and_iff_left rfl, ← shown_eq_iff, ← String.toList_inj,
        String.toList_ofList, a.toList_banner, List.append_left_inj]
  · obtain ⟨value, before, after, -, hread⟩ := doubleQuoted?_unguarded hguarded
      (helpLine ++ '"' :: a.behindBanner.toList)
    rw [← List.append_assoc] at hread
    have hearly : String.ofList (escapeQuotes after ++ (helpLine ++ '"' :: a.behindBanner.toList)) ≠
        a.behindBanner := fun heq => by
      have hlength := congrArg (fun s : String => s.toList.length) heq
      simp only [String.toList_ofList, List.length_append, List.length_cons] at hlength
      omega
    refine ⟨_, _, _, EditorArguments.render_eq h, hliteral hread, ?_, ?_, ?_⟩
    · rw [String.toList_ofList]
      exact ⟨escapeQuotes after ++ (helpLine ++ ['"']), by simp⟩
    · exact iff_of_false hearly hguarded
    · exact iff_of_false (fun hboth => hearly hboth.2)
        fun hticks => hguarded (quotesGuarded_of_notMem hticks)

/-- A host whose name has a backtick in front of a quote. -/
def tickedArguments : EditorArguments where
  hostName := "a`\"b"
  hostProfileId := "p"
  hostVersion := "1"
  modulesPath := ⟨"/modules"⟩
  suppressBanner := false
  waitForDebugger := false
  logLevel := "Normal"
  debugServiceOnly := false

/-- A backtick in front of a quote ends the literal early. -/
theorem banner_literal_ticked :
    WholeBanner tickedArguments ⟨⟨"/pwsh"⟩, "PowerShell", true⟩ ⟨.linux, true, true⟩ ∧
    ∃ text value behind,
      tickedArguments.render ⟨⟨"/pwsh"⟩, "PowerShell", true⟩ ⟨.linux, true, true⟩ =
        tickedArguments.beforeBanner ++ "-StartupBanner " ++ text ∧
      doubleLiteral? text = some (value, behind) ∧
      tickedArguments.behindBanner.toList <:+ behind.toList ∧
      behind ≠ tickedArguments.behindBanner := by
  have hwhole : WholeBanner tickedArguments ⟨⟨"/pwsh"⟩, "PowerShell", true⟩
      ⟨.linux, true, true⟩ := ⟨rfl, rfl⟩
  obtain ⟨text, value, behind, hrender, hread, hsuffix, hend, -⟩ := banner_literal hwhole
  refine ⟨hwhole, text, value, behind, hrender, hread, hsuffix, fun heq => ?_⟩
  have hodd := hend.1 heq ['a', '`'] "b v1".toList rfl
  revert hodd
  decide

end SessionHost.Launch
