import SessionHost.Proofs.Discovery.Looks
import SessionHost.Proofs.Text.Endings
import SessionHost.Proofs.Text.Spelling

/-!
# Configured paths

A path that the user has configured may have blanks and quotes around it, may begin with the home
folder, and may name a folder that holds the program.  Outside of Windows, discovery looks at the
path itself and then at `pwsh` below it, but below it only if the path does not already end in the
letters of `pwsh`, in whatever letter case.  So a folder is searched unless its name ends in these
letters.

Main definitions:

- `Unquoted`, `Expands`, `Means`: the path that a configured text means.
- `LeadsTo`: the program that a configured path leads to outside of Windows.

Main results:

- Theorem `means_iff`: a text means one path, unless nothing is left of it.
- Theorem `Finder.additional_found`: which runtime a configured path adds, and which warning.
-/

namespace SessionHost.Discovery

variable {f : Finder} {probe : Probe} {name raw : String} {home : Option Path}
  {p p' program : Path} {cs inner : List Char}

/-! ## What a text means -/

/-- A pair of like quotes around characters. -/
def Quoted (inner cs : List Char) : Prop :=
  ∃ q, (q = '"' ∨ q = '\'') ∧ cs = q :: (inner ++ [q])

/-- What is left of characters without the one pair of quotes around them, if there is one. -/
def Unquoted (inner cs : List Char) : Prop :=
  Quoted inner cs ∨ (inner = cs ∧ ∀ other, ¬Quoted other cs)

/-- The path of characters in which a leading `~` stands for the home folder. -/
inductive Expands : Option Path → List Char → Path → Prop where
  | homeless {cs : List Char} : Expands none cs ⟨String.ofList cs⟩
  | home {h : Path} : Expands (some h) ['~'] h
  | below {h : Path} {sep : Char} {rest : List Char} (hsep : sep = '/' ∨ sep = '\\') :
      Expands (some h) ('~' :: sep :: rest) (h.join (String.ofList rest))
  | plain {h : Path} {cs : List Char} (hhome : cs ≠ ['~'])
      (hbelow : ∀ sep rest, cs = '~' :: sep :: rest → sep ≠ '/' ∧ sep ≠ '\\') :
      Expands (some h) cs ⟨String.ofList cs⟩

/-- The path that a configured text means: without the blanks and the quotes around it, of which
something is left, and with the home folder in the place of a leading `~`. -/
def Means (home : Option Path) (raw : String) (p : Path) : Prop :=
  ∃ core inner, Text.Padded core raw.toList ∧ Text.Tight core ∧ Unquoted inner core ∧
    inner ≠ [] ∧ Expands home inner p

theorem quoted_cons_iff {q : Char} {rest : List Char} : Quoted inner (q :: rest) ↔
    ((q = '"' ∨ q = '\'') ∧ rest.getLast? = some q) ∧ inner = rest.dropLast := by
  constructor
  · rintro ⟨q', hq, heq⟩
    obtain ⟨rfl, rfl⟩ := List.cons.inj heq
    exact ⟨⟨hq, List.getLast?_concat⟩, List.dropLast_concat.symm⟩
  · rintro ⟨⟨hq, hlast⟩, rfl⟩
    exact ⟨q, hq, congrArg (q :: ·) (List.dropLast_append_getLast? q hlast).symm⟩

/-- Quotes are stripped where they stand at both ends. -/
theorem stripQuotes_eq_iff : stripQuotes cs = inner ↔ Unquoted inner cs := by
  cases cs with
  | nil =>
    have hnone (other : List Char) : ¬Quoted other [] := fun ⟨_, _, h⟩ => by cases h
    exact ⟨fun h => .inr ⟨h.symm, hnone⟩, fun h => h.elim (absurd · (hnone inner)) (·.1.symm)⟩
  | cons q rest =>
    simp only [stripQuotes, Unquoted, quoted_cons_iff, not_and]
    split
    · next hquotes =>
      refine ⟨fun h => .inl ⟨hquotes, h.symm⟩, fun h => ?_⟩
      rcases h with ⟨-, rfl⟩ | ⟨-, hnone⟩
      · rfl
      · exact absurd rfl (hnone rest.dropLast hquotes)
    · next hquotes =>
      refine ⟨fun h => .inr ⟨h.symm, fun _ h => absurd h hquotes⟩, fun h => ?_⟩
      rcases h with ⟨h, -⟩ | ⟨rfl, -⟩
      · exact absurd h hquotes
      · rfl

/-- A tilde is expanded as it should be. -/
theorem expands_expandHome (home : Option Path) (cs : List Char) :
    Expands home cs (expandHome home (String.ofList cs)) := by
  unfold expandHome
  cases home with
  | none => exact .homeless
  | some h =>
    simp only [String.toList_ofList]
    split
    · exact .home
    · exact .below (.inl rfl)
    · exact .below (.inr rfl)
    · next hhome hslash hback =>
      refine .plain hhome fun sep rest hcs => ⟨?_, ?_⟩
      · rintro rfl
        exact hslash rest hcs
      · rintro rfl
        exact hback rest hcs

/-- There is one way to expand a path. -/
theorem Expands.unique (h : Expands home cs p) (h' : Expands home cs p') : p = p' := by
  cases h with
  | homeless => cases h'; rfl
  | home =>
    cases h' with
    | home => rfl
    | plain hhome => exact absurd rfl hhome
  | below hsep =>
    cases h' with
    | below => rfl
    | plain _ hbelow => exact absurd hsep (not_or.2 (hbelow _ _ rfl))
  | plain hhome hbelow =>
    cases h' with
    | home => exact absurd rfl hhome
    | below hsep => exact absurd hsep (not_or.2 (hbelow _ _ rfl))
    | plain => rfl

/-- The function gives what the relation says. -/
theorem expandHome_eq_iff : expandHome home (String.ofList cs) = p ↔ Expands home cs p :=
  ⟨fun h => h ▸ expands_expandHome home cs, (expands_expandHome home cs).unique⟩

/-- What a text means, as discovery reads it. -/
theorem means_iff : Means home raw p ↔ stripQuotes (Text.trimChars raw.toList) ≠ [] ∧
    expandHome home (String.ofList (stripQuotes (Text.trimChars raw.toList))) = p := by
  constructor
  · rintro ⟨core, inner, hpadded, htight, hunquoted, hne, hexpands⟩
    rw [Text.trimChars_eq_iff.2 ⟨hpadded, htight⟩, stripQuotes_eq_iff.2 hunquoted]
    exact ⟨hne, expandHome_eq_iff.2 hexpands⟩
  · rintro ⟨hne, hexpand⟩
    exact ⟨_, _, Text.padded_trimChars _, Text.tight_trimChars _, stripQuotes_eq_iff.1 rfl, hne,
      expandHome_eq_iff.1 hexpand⟩

/-! ## The program at a path -/

/-- The program that a configured path leads to outside of Windows: the file itself, or `pwsh` below
it if the path does not end in these letters. -/
inductive LeadsTo (probe : Probe) (p : Path) : Path → Prop where
  | itself (hfile : probe.isFile p = true) : LeadsTo probe p p
  | below (hfile : probe.isFile p = false) (hname : ¬Text.EndsIn "pwsh".toList p.text)
      (hbelow : probe.isFile (p.join "pwsh") = true) : LeadsTo probe p (p.join "pwsh")

/-- Elsewhere than on Windows a path is tried itself, then with the program's name behind it. -/
theorem programsAt_unix (p : Path) : programsAt false p =
    if Text.EndsIn "pwsh".toList p.text then [p] else [p, p.join "pwsh"] := by
  have hplain : ∀ x ∈ "pwsh".toList, Text.IsPlainSmall x :=
    List.forall_iff_forall_mem.1 (by decide)
  simp only [programsAt, Bool.false_eq_true, if_false, Text.endsWith_lowercase_iff hplain]

/-- The first program that is a file is the one that the path leads to. -/
theorem find?_programsAt_iff :
    (programsAt false p).find? probe.isFile = some program ↔ LeadsTo probe p program := by
  rw [programsAt_unix]
  constructor
  · intro h
    by_cases hname : Text.EndsIn "pwsh".toList p.text
    · rw [if_pos hname, List.find?_singleton] at h
      obtain ⟨hfile, rfl⟩ : probe.isFile p = true ∧ p = program := by simpa using h
      exact .itself hfile
    · rw [if_neg hname] at h
      cases hfile : probe.isFile p with
      | true =>
        obtain rfl : p = program := by simpa [hfile] using h
        exact .itself hfile
      | false =>
        obtain ⟨hbelow, rfl⟩ : probe.isFile (p.join "pwsh") = true ∧ p.join "pwsh" = program := by
          simpa [hfile, List.find?_singleton] using h
        exact .below hfile hname hbelow
  · intro h
    cases h with
    | itself hfile => split <;> simp [hfile]
    | below hfile hname hbelow =>
      rw [if_neg hname]
      simp [hfile, hbelow]

/-- No program at a path is a file exactly if the path leads nowhere. -/
theorem find?_programsAt_eq_none_iff :
    (programsAt false p).find? probe.isFile = none ↔ ∀ program, ¬LeadsTo probe p program := by
  simp only [Option.eq_none_iff_forall_ne_some, ne_eq, find?_programsAt_iff]

/-! ## Configured runtimes -/

namespace Finder

/-- A configured path looks for the first program that it may mean. -/
theorem resolveAdditional_eq (h : Means f.environment.home raw p) :
    f.resolveAdditional probe name raw =
      (probe.firstFile (programsAt f.platform.os.isWindows p)).bind fun found =>
        match found with
        | some program => .pure (some { path := program, name := name })
        | none => (Traced.warn (missingWarning name p)).bind fun _ => .pure none := by
  obtain ⟨hne, rfl⟩ := means_iff.1 h
  unfold resolveAdditional
  split
  · next hnil => exact absurd hnil hne
  · rfl

/-- **Configured paths.**  Outside of Windows, a configured text that means a path adds the program
that the path leads to, under the configured name and without a warning; if it leads to none, it
adds nothing and one warning. -/
theorem additional_found (hos : f.platform.os ≠ .windows) (ha : (name, raw) ∈ f.additional)
    (hp : Means f.environment.home raw p) :
    (∀ program, LeadsTo probe p program →
      (f.resolveAdditional probe name raw).value = some { path := program, name := name } ∧
        (f.resolveAdditional probe name raw).warnings = [] ∧
        { path := program, name := name } ∈ (f.all probe).value) ∧
    ((∀ program, ¬LeadsTo probe p program) →
      (f.resolveAdditional probe name raw).value = none ∧
        (f.resolveAdditional probe name raw).warnings = [missingWarning name p] ∧
        missingWarning name p ∈ (f.all probe).warnings) := by
  have hwindows : f.platform.os.isWindows = false := decide_eq_false hos
  have hstep : f.resolveAdditional probe name raw = _ := resolveAdditional_eq hp
  rw [hwindows] at hstep
  have hvalue := firstFile_value probe (programsAt false p)
  refine ⟨fun program hleads => ?_, fun hnowhere => ?_⟩
  · rw [find?_programsAt_iff.2 hleads] at hvalue
    have hfound : (f.resolveAdditional probe name raw).value =
        some { path := program, name := name } := by
      rw [hstep, Traced.bind_value, hvalue]
      rfl
    refine ⟨hfound, ?_, ?_⟩
    · rw [hstep, Traced.bind_warnings, hvalue, firstFile_warnings]
      rfl
    · rw [all_value, List.mem_append]
      exact .inr (List.mem_filterMap.2 ⟨_, ha, hfound⟩)
  · rw [find?_programsAt_eq_none_iff.2 hnowhere] at hvalue
    have hwarned : (f.resolveAdditional probe name raw).warnings = [missingWarning name p] := by
      rw [hstep, Traced.bind_warnings, hvalue, firstFile_warnings]
      rfl
    refine ⟨?_, hwarned, ?_⟩
    · rw [hstep, Traced.bind_value, hvalue]
      rfl
    · rw [all_warnings]
      exact List.mem_flatMap.2 ⟨_, ha, hwarned ▸ List.mem_singleton_self _⟩

/-- Two folders hold a `pwsh`.  The one in the home folder is searched; the other one is not, as its
own name ends in these letters. -/
theorem additional_found_linux :
    let f : Finder :=
      ⟨⟨.linux, true, true⟩, { Environment.none with home := some ⟨"/home/u"⟩ },
        [("Lost", "/opt/PWSH"), ("Tools", " '~/tools' ")]⟩
    let probe : Probe :=
      ⟨fun p => p.text ∈ ["/home/u/tools/pwsh", "/opt/PWSH/pwsh"], fun _ => false, fun _ => none⟩
    (f.resolveAdditional probe "Tools" " '~/tools' ").value =
        some { path := ⟨"/home/u/tools/pwsh"⟩, name := "Tools" } ∧
      missingWarning "Lost" ⟨"/opt/PWSH"⟩ ∈ (f.all probe).warnings := by
  intro f probe
  have hos : f.platform.os ≠ .windows := by decide
  have htools : Means f.environment.home " '~/tools' " ⟨"/home/u/tools"⟩ :=
    means_iff.2 (by decide +kernel)
  have hlost : Means f.environment.home "/opt/PWSH" ⟨"/opt/PWSH"⟩ := means_iff.2 (by decide +kernel)
  have hfound : LeadsTo probe ⟨"/home/u/tools"⟩ ⟨"/home/u/tools/pwsh"⟩ :=
    find?_programsAt_iff.1 (by decide +kernel)
  have hnowhere : ∀ program, ¬LeadsTo probe ⟨"/opt/PWSH"⟩ program :=
    find?_programsAt_eq_none_iff.1 (by decide +kernel)
  exact ⟨((additional_found hos (.tail _ (.head _)) htools).1 _ hfound).1,
    ((additional_found hos (.head _) hlost).2 hnowhere).2.2⟩

end Finder

end SessionHost.Discovery
