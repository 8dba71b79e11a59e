import SessionHost.Session.Launching

/-!
# Literals of a startup script

A startup script is read as a shell reads it: a single-quoted literal begins at a quote and ends at
the first quote that is not one of a doubled pair, which stands for one quote.  Read so, the script
is its fixed text with one literal for each argument, and every literal says what was given.

Main definitions:

- `outside?`, `inside?`: characters read outside and inside of a literal.
- `literals?`: the literals of a script, each with the text behind it.
- `argument?`: the literal that a script gives for an argument.
- `scriptLiterals`: the literals that a startup script should have.

Main results:

- Theorem `literals?_spell`: literals between texts without quotes are read back.
- Theorem `literals?_script`: a startup script says what it was made of.
-/

namespace SessionHost.Launch

/-! ## Reading -/

/-- A text cut at its literals: the characters before the first one, and each literal's value with
the characters behind it. -/
structure Split where
  head : List Char
  literals : List (List Char × List Char)

mutual

/-- Reads characters outside of literals.  A literal that does not end makes the text unreadable. -/
def outside? : List Char → Option Split
  | [] => some ⟨[], []⟩
  | '\'' :: rest => (inside? rest).map fun p => ⟨[], (p.1, p.2.head) :: p.2.literals⟩
  | c :: rest => (outside? rest).map fun s => { s with head := c :: s.head }

/-- Reads the characters of a literal behind its first quote: its value, and what is outside. -/
def inside? : List Char → Option (List Char × Split)
  | [] => none
  | '\'' :: '\'' :: rest => (inside? rest).map fun p => ('\'' :: p.1, p.2)
  | '\'' :: rest => (outside? rest).map fun s => ([], s)
  | c :: rest => (inside? rest).map fun p => (c :: p.1, p.2)

end

/-- The text before the first literal of a script, and each literal with the text behind it. -/
def literals? (script : String) : Option (String × List (String × String)) :=
  (outside? script.toList).map fun s =>
    (String.ofList s.head, s.literals.map fun l => (String.ofList l.1, String.ofList l.2))

/-- The first of some literals that stands behind an argument's name; `before` is the text in front
of them. -/
def argumentAmong? (name before : String) : List (String × String) → Option String
  | [] => none
  | (value, behind) :: rest =>
    if Text.endsWith before ("-" ++ name ++ " ") then some value
    else argumentAmong? name behind rest

/-- The literal that a script gives for an argument. -/
def argument? (name script : String) : Option String :=
  (literals? script).bind fun s => argumentAmong? name s.1 s.2

/-! ## Spelling -/

/-- The characters that spell a literal's value. -/
def quoteChars (cs : List Char) : List Char :=
  cs.flatMap fun c => if c = '\'' then ['\'', '\''] else [c]

/-- A quoted text, character by character. -/
theorem toList_quoteSingle (s : String) : (quoteSingle s).toList = quoteChars s.toList := by
  rw [quoteSingle, Text.replaceChar, String.toList_ofList]
  rfl

/-- The text that a beginning and literals spell. -/
def spell (head : String) : List (String × String) → String
  | [] => head
  | (value, behind) :: rest => head ++ "'" ++ quoteSingle value ++ "'" ++ spell behind rest

/-- A character other than a quote is read as it stands. -/
theorem outside?_cons {c : Char} (hc : c ≠ '\'') (rest : List Char) :
    outside? (c :: rest) = (outside? rest).map fun s => { s with head := c :: s.head } := by
  rw [outside?]
  exact fun h => hc h

/-- Characters without a quote are read as they stand. -/
theorem outside?_append {cs : List Char} (hcs : '\'' ∉ cs) (rest : List Char) :
    outside? (cs ++ rest) = (outside? rest).map fun s => { s with head := cs ++ s.head } := by
  induction cs with
  | nil => simp
  | cons c cs ih =>
    obtain ⟨hc, hcs⟩ : '\'' ≠ c ∧ '\'' ∉ cs := by simpa using hcs
    rw [List.cons_append, outside?_cons (Ne.symm hc), ih hcs, Option.map_map]
    rfl

/-- Another character inside a literal belongs to its value. -/
theorem inside?_cons {c : Char} (hc : c ≠ '\'') (rest : List Char) :
    inside? (c :: rest) = (inside? rest).map fun p => (c :: p.1, p.2) := by
  rw [inside?]
  · exact fun _ h => absurd h hc
  · exact fun h => hc h

/-- A quote that no other one follows ends a literal. -/
theorem inside?_quote {rest : List Char} (hrest : rest.head? ≠ some '\'') :
    inside? ('\'' :: rest) = (outside? rest).map fun s => ([], s) := by
  rw [inside?]
  rintro cs rfl
  exact hrest rfl

/-- The spelling of a value is read as the value: no quote in it ends the literal. -/
theorem inside?_quoteChars (value : List Char) {rest : List Char}
    (hrest : rest.head? ≠ some '\'') :
    inside? (quoteChars value ++ '\'' :: rest) = (outside? rest).map fun s => (value, s) := by
  induction value with
  | nil => exact inside?_quote hrest
  | cons c cs ih =>
    by_cases hc : c = '\''
    · subst hc
      change inside? ('\'' :: '\'' :: (quoteChars cs ++ '\'' :: rest)) = _
      rw [inside?, ih, Option.map_map]
      rfl
    · have hspelled : quoteChars (c :: cs) = c :: quoteChars cs := by simp [quoteChars, hc]
      rw [hspelled, List.cons_append, inside?_cons hc, ih, Option.map_map]
      rfl

/-- A literal is read back, if no quote follows it. -/
theorem outside?_literal (value : String) {rest : List Char} (hrest : rest.head? ≠ some '\'') :
    outside? ('\'' :: ((quoteSingle value).toList ++ '\'' :: rest)) =
      (outside? rest).map fun s => ⟨[], (value.toList, s.head) :: s.literals⟩ := by
  rw [outside?, toList_quoteSingle, inside?_quoteChars value.toList hrest, Option.map_map]
  rfl

/-! ## Reading what is spelled -/

/-- A text that may stand between two literals. -/
structure Between (text : String) : Prop where
  plain : '\'' ∉ text.toList
  nonempty : text ≠ ""

/-- Literals may stand in front of such texts whatever their values are. -/
def Spaced (literals : List (String × String)) : Prop := ∀ l ∈ literals, Between l.2

theorem spaced_nil : Spaced [] := fun _ h => absurd h List.not_mem_nil

/-- A literal more, with text behind it. -/
theorem spaced_cons {value behind : String} {rest : List (String × String)} (h : Between behind)
    (hrest : Spaced rest) : Spaced ((value, behind) :: rest) :=
  List.forall_mem_cons.2 ⟨h, hrest⟩

/-- Text without quotes may follow text between literals. -/
theorem Between.append {s t : String} (hs : Between s) (ht : '\'' ∉ t.toList) :
    Between (s ++ t) where
  plain := by simpa using ⟨hs.plain, ht⟩
  nonempty h := hs.nonempty (String.append_eq_empty_iff.1 h).1

/-- What follows a literal begins with the text behind it, which is no quote. -/
theorem head?_spell {behind : String} (h : Between behind) (rest : List (String × String)) :
    (spell behind rest).toList.head? ≠ some '\'' := by
  obtain ⟨c, cs, hcs⟩ : ∃ c cs, behind.toList = c :: cs :=
    List.exists_cons_of_ne_nil fun hnil => h.nonempty (String.toList_eq_nil_iff.1 hnil)
  have hc : c ≠ '\'' := fun hc => h.plain (by simp [hcs, hc])
  cases rest with
  | nil => simpa [spell, hcs] using hc
  | cons l rest => simpa [spell, hcs] using hc

/-- Literals that are spelled are read, with the text between them. -/
theorem outside?_spell {head : String} (hhead : '\'' ∉ head.toList)
    {literals : List (String × String)} (h : Spaced literals) :
    outside? (spell head literals).toList =
      some ⟨head.toList, literals.map fun l => (l.1.toList, l.2.toList)⟩ := by
  induction literals generalizing head with
  | nil => simpa [spell, outside?] using outside?_append hhead []
  | cons l rest ih =>
    obtain ⟨value, behind⟩ := l
    obtain ⟨hbehind, hrest⟩ := List.forall_mem_cons.1 h
    have hspelled : (spell head ((value, behind) :: rest)).toList =
        head.toList ++
          '\'' :: ((quoteSingle value).toList ++ '\'' :: (spell behind rest).toList) := by
      simp [spell]
    rw [hspelled, outside?_append hhead, outside?_literal value (head?_spell hbehind rest),
      ih hbehind.plain hrest]
    simp

/-- Literals between texts without quotes are read back. -/
theorem literals?_spell {head : String} (hhead : '\'' ∉ head.toList)
    {literals : List (String × String)} (h : Spaced literals) :
    literals? (spell head literals) = some (head, literals) := by
  rw [literals?, outside?_spell hhead h]
  simp [Function.comp_def]

/-! ## The startup script -/

/-- The literals of feature flags, which stand in a list up to `closing`. -/
def flagLiterals (closing : String) : List String → List (String × String)
  | [] => []
  | [flag] => [(flag, closing)]
  | flag :: rest => (flag, ", ") :: flagLiterals closing rest

/-- What a script ends with behind its feature flags. -/
def scriptEnd (s : LaunchSpec) : String :=
  ") " ++ if s.legacyReadLine then "-UseLegacyReadLine" else ""

/-- The literals that a startup script should have, each with the fixed text behind it. -/
def scriptLiterals (a : EditorArguments) (s : LaunchSpec) : List (String × String) :=
  [((manifestPath s.modulesPath).text, "; Start-EditorServices -HostName "),
    (a.hostName, " -HostProfileId "),
    (a.hostProfileId, " -HostVersion "),
    (a.hostVersion, " -BundledModulesPath "),
    (a.modulesPath.text, " -EnableConsoleRepl -StartupBanner "),
    (if a.suppressBanner then "" else a.title,
      " " ++ ((if a.waitForDebugger then "-WaitForDebugger " else "") ++ "-LogLevel ")),
    (a.logLevel, " " ++ ((if a.debugServiceOnly then "-DebugServiceOnly " else "") ++ "-LogPath ")),
    (s.logFolder.text, " -SessionDetailsPath "),
    (s.sessionFile.text,
      " -FeatureFlags @(" ++ if s.featureFlags.isEmpty then scriptEnd s else "")] ++
  flagLiterals (scriptEnd s) s.featureFlags

/-- The literals of the flags stand apart. -/
theorem spaced_flagLiterals {closing : String} (h : Between closing) (flags : List String) :
    Spaced (flagLiterals closing flags) := by
  induction flags with
  | nil => exact spaced_nil
  | cons flag rest ih =>
    cases rest with
    | nil => exact spaced_cons h spaced_nil
    | cons next rest => exact spaced_cons ⟨by decide, by decide⟩ ih

/-- The end of a script has no quotes. -/
theorem between_scriptEnd (s : LaunchSpec) : Between (scriptEnd s) := by
  refine Between.append ⟨by decide, by decide⟩ ?_
  split <;> decide

/-- All literals of a script stand apart. -/
theorem spaced_scriptLiterals (a : EditorArguments) (s : LaunchSpec) :
    Spaced (scriptLiterals a s) := by
  have hflags : '\'' ∉ (if s.featureFlags.isEmpty then scriptEnd s else "").toList := by
    split
    · exact (between_scriptEnd s).plain
    · decide
  have hswitch (given : Bool) {switch name : String} (hswitch : '\'' ∉ switch.toList)
      (hname : '\'' ∉ name.toList) : Between (" " ++ ((if given then switch else "") ++ name)) := by
    refine Between.append ⟨by decide, by decide⟩ ?_
    cases given <;> simpa using by simp [hswitch, hname]
  refine spaced_cons ⟨by decide, by decide⟩ (spaced_cons ⟨by decide, by decide⟩
    (spaced_cons ⟨by decide, by decide⟩ (spaced_cons ⟨by decide, by decide⟩
    (spaced_cons ⟨by decide, by decide⟩ (spaced_cons (hswitch _ (by decide) (by decide))
    (spaced_cons (hswitch _ (by decide) (by decide)) (spaced_cons ⟨by decide, by decide⟩
    (spaced_cons (Between.append ⟨by decide, by decide⟩ hflags)
    (spaced_flagLiterals (between_scriptEnd s) _)))))))))

/-- Feature flags are spelled in single quotes with commas between them. -/
theorem spell_flagLiterals (head closing : String) (flags : List String) :
    spell (head ++ if flags.isEmpty then closing else "") (flagLiterals closing flags) =
      head ++ Text.joinWith ", " (flags.map fun flag => "'" ++ quoteSingle flag ++ "'") ++
        closing := by
  have hrest (flag : String) (rest : List String) (head : String) :
      spell head (flagLiterals closing (flag :: rest)) =
        head ++
          Text.joinWith ", " ((flag :: rest).map fun flag => "'" ++ quoteSingle flag ++ "'") ++
          closing := by
    induction rest generalizing flag head with
    | nil => simp [flagLiterals, spell, Text.joinWith, String.append_assoc]
    | cons next rest ih =>
      rw [flagLiterals, spell, ih next ", "]
      · simp only [List.map_cons, Text.joinWith, String.append_assoc]
      · exact List.cons_ne_nil _ _
  cases flags with
  | nil => simp [flagLiterals, spell, Text.joinWith]
  | cons flag rest => simpa using hrest flag rest head

/-- The banner is suppressed, or is a single line in single quotes. -/
def SingleQuotedBanner (a : EditorArguments) (exe : Executable) (platform : Platform) : Prop :=
  a.suppressBanner = true ∨ (platform.os.isWindows = true ∧ exe.properArguments = false)

/-- Where the banner stands between single quotes, it is its title or empty. -/
theorem bannerArgument_eq {a : EditorArguments} {exe : Executable} {platform : Platform}
    (h : SingleQuotedBanner a exe platform) :
    a.bannerArgument exe platform =
      "-StartupBanner '" ++ quoteSingle (if a.suppressBanner then "" else a.title) ++ "' " := by
  unfold EditorArguments.bannerArgument
  by_cases hsuppressed : a.suppressBanner = true
  · simp only [hsuppressed, if_true]
    rfl
  · obtain ⟨hwindows, hproper⟩ := h.resolve_left hsuppressed
    simp [hsuppressed, hwindows, hproper]

/-- The startup script as one text. -/
theorem LaunchSpec.script_eq (s : LaunchSpec) : s.script =
    "Import-Module '" ++ quoteSingle (manifestPath s.modulesPath).text ++
    "'; Start-EditorServices " ++ s.editorArguments ++
    "-LogPath '" ++ quoteSingle s.logFolder.text ++
    "' -SessionDetailsPath '" ++ quoteSingle s.sessionFile.text ++
    "' -FeatureFlags @(" ++
    Text.joinWith ", " (s.featureFlags.map fun flag => "'" ++ quoteSingle flag ++ "'") ++
    ") " ++ (if s.legacyReadLine then "-UseLegacyReadLine" else "") := by
  delta LaunchSpec.script
  rfl

/-- A startup script spells its literals. -/
theorem script_eq_spell {a : EditorArguments} {exe : Executable} {platform : Platform}
    (h : SingleQuotedBanner a exe platform) (s : LaunchSpec) :
    { s with editorArguments := a.render exe platform }.script =
      spell "Import-Module " (scriptLiterals a s) := by
  -- Both sides are the same short texts once every text is cut at its quotes.
  have cuts : ("Import-Module '" = "Import-Module " ++ "'" ∧
      "'; Start-EditorServices " = "'" ++ "; Start-EditorServices " ∧
      "; Start-EditorServices -HostName " = "; Start-EditorServices " ++ "-HostName ") ∧
      ("-HostName '" = "-HostName " ++ "'" ∧
      "' -HostProfileId '" = "'" ++ (" -HostProfileId " ++ "'") ∧
      "' -HostVersion '" = "'" ++ (" -HostVersion " ++ "'") ∧
      "' -BundledModulesPath '" = "'" ++ (" -BundledModulesPath " ++ "'")) ∧
      ("' -EnableConsoleRepl " = "'" ++ " -EnableConsoleRepl " ∧
      " -EnableConsoleRepl -StartupBanner " = " -EnableConsoleRepl " ++ "-StartupBanner " ∧
      "-StartupBanner '" = "-StartupBanner " ++ "'" ∧ "' " = "'" ++ " " ∧
      "-LogLevel '" = "-LogLevel " ++ "'") ∧
      "-LogPath '" = "-LogPath " ++ "'" ∧
      "' -SessionDetailsPath '" = "'" ++ (" -SessionDetailsPath " ++ "'") ∧
      "' -FeatureFlags @(" = "'" ++ " -FeatureFlags @(" :=
    ⟨⟨rfl, rfl, rfl⟩, ⟨rfl, rfl, rfl, rfl⟩, ⟨rfl, rfl, rfl, rfl, rfl⟩, rfl, rfl, rfl⟩
  simp only [scriptLiterals, List.cons_append, List.nil_append, spell]
  rw [spell_flagLiterals, LaunchSpec.script_eq]
  delta EditorArguments.render
  rw [bannerArgument_eq h]
  simp only [cuts, scriptEnd, String.append_assoc, -String.reduceAppend]

/-! ## Arguments -/

/-- A literal that another name stands before is passed over. -/
theorem argumentAmong?_skip {name before : String}
    (h : Text.endsWith before ("-" ++ name ++ " ") = false) (value behind : String)
    (rest : List (String × String)) :
    argumentAmong? name before ((value, behind) :: rest) = argumentAmong? name behind rest := by
  rw [argumentAmong?, if_neg (by simp [h])]

/-- A literal that the name stands before is the argument. -/
theorem argumentAmong?_found {name before : String}
    (h : Text.endsWith before ("-" ++ name ++ " ") = true) (value behind : String)
    (rest : List (String × String)) :
    argumentAmong? name before ((value, behind) :: rest) = some value := by
  rw [argumentAmong?, if_pos h]

/-- The session file is the value of its argument, whatever the other values are. -/
theorem argumentAmong?_scriptLiterals (a : EditorArguments) (s : LaunchSpec) :
    argumentAmong? "SessionDetailsPath" "Import-Module " (scriptLiterals a s) =
      some s.sessionFile.text := by
  have hwait : Text.endsWith (" " ++ ((if a.waitForDebugger then "-WaitForDebugger " else "") ++
      "-LogLevel ")) ("-" ++ "SessionDetailsPath" ++ " ") = false := by
    cases a.waitForDebugger <;> decide
  have honly : Text.endsWith (" " ++ ((if a.debugServiceOnly then "-DebugServiceOnly " else "") ++
      "-LogPath ")) ("-" ++ "SessionDetailsPath" ++ " ") = false := by
    cases a.debugServiceOnly <;> decide
  rw [scriptLiterals, List.cons_append, argumentAmong?_skip (by decide),
    List.cons_append, argumentAmong?_skip (by decide),
    List.cons_append, argumentAmong?_skip (by decide),
    List.cons_append, argumentAmong?_skip (by decide),
    List.cons_append, argumentAmong?_skip (by decide),
    List.cons_append, argumentAmong?_skip (by decide),
    List.cons_append, argumentAmong?_skip hwait,
    List.cons_append, argumentAmong?_skip honly,
    List.cons_append, argumentAmong?_found (by decide)]

/-- A startup script whose banner is suppressed or stands in single quotes is its fixed text with
one literal for each argument, and every literal says what was given.  The file that it names for
the session's details is the one that the launch of such a process looks for. -/
theorem literals?_script {a : EditorArguments} {exe : Executable} {platform : Platform}
    (h : SingleQuotedBanner a exe platform) (s : LaunchSpec) :
    let given := { s with editorArguments := a.render exe platform }
    literals? given.script = some ("Import-Module ", scriptLiterals a s) ∧
      ∃ file, argument? "SessionDetailsPath" given.script = some file ∧
        ∀ (w : World) (p : Nat) (q : ServerProcess), w.processes[p]? = some q → q.spec = given →
          (q.disposed = false → ∃ v console, w.beginLaunch p = .going v (.answer console) ∧
            .launched console (given.command q.exe w.config.platform) given.script ∈ v.log) ∧
          ∀ attempt, w.arrival? p (.file attempt) = some (.turn attempt (w.files.read ⟨file⟩)) := by
  intro given
  have hread : literals? given.script = some ("Import-Module ", scriptLiterals a s) := by
    rw [script_eq_spell h s]
    exact literals?_spell (by decide) (spaced_scriptLiterals a s)
  refine ⟨hread, s.sessionFile.text, ?_, fun w p q hq hspec => ⟨fun hdisposed => ?_, fun n => ?_⟩⟩
  · rw [argument?, hread, Option.bind_some]
    exact argumentAmong?_scriptLiterals a s
  · have hgoing : w.beginLaunch p = w.askForConsole p q := by
      simp [World.beginLaunch, hq, hdisposed]
    have hconfig : (w.deleteSessionFile q.spec.sessionFile).config = w.config := by
      unfold World.deleteSessionFile
      split <;> rfl
    refine ⟨_, _, hgoing, ?_⟩
    rw [← hspec, ← hconfig]
    exact List.mem_concat_self
  · simp [World.arrival?, hq, hspec, given]

/-- Arguments that are full of quotes. -/
def quotedArguments : EditorArguments where
  hostName := "'it''s'"
  hostProfileId := "'"
  hostVersion := ""
  modulesPath := ⟨"/m'"⟩
  suppressBanner := false
  waitForDebugger := true
  logLevel := "''"
  debugServiceOnly := true

/-- A launch with quotes in its paths and flags. -/
def quotedSpec : LaunchSpec where
  modulesPath := ⟨"/it's"⟩
  editorArguments := ""
  logFolder := ⟨"'/logs'"⟩
  sessionFile := ⟨"/'; exit '"⟩
  featureFlags := ["'", "a'b"]
  setExecutionPolicy := false
  loginShell := false
  legacyReadLine := true
  showOnStartup := false
  startInBackground := false
  cwd := none
  temporary := false

/-- Values that begin, end or consist of quotes are read back. -/
theorem literals?_script_quoted :
    SingleQuotedBanner quotedArguments ⟨⟨"pwsh.exe"⟩, "pwsh", false⟩ ⟨.windows, true, true⟩ ∧
      literals? { quotedSpec with
          editorArguments := quotedArguments.render ⟨⟨"pwsh.exe"⟩, "pwsh", false⟩
            ⟨.windows, true, true⟩ }.script =
        some ("Import-Module ",
          [("/it's/PowerShellEditorServices/PowerShellEditorServices.psd1",
              "; Start-EditorServices -HostName "),
            ("'it''s'", " -HostProfileId "), ("'", " -HostVersion "),
            ("", " -BundledModulesPath "), ("/m'", " -EnableConsoleRepl -StartupBanner "),
            ("'it''s' v", " -WaitForDebugger -LogLevel "),
            ("''", " -DebugServiceOnly -LogPath "), ("'/logs'", " -SessionDetailsPath "),
            ("/'; exit '", " -FeatureFlags @("), ("'", ", "),
            ("a'b", ") -UseLegacyReadLine")]) := by
  have hbanner : SingleQuotedBanner quotedArguments ⟨⟨"pwsh.exe"⟩, "pwsh", false⟩
      ⟨.windows, true, true⟩ := .inr ⟨rfl, rfl⟩
  refine ⟨hbanner, ((literals?_script hbanner quotedSpec).1).trans ?_⟩
  decide +kernel

end SessionHost.Launch
