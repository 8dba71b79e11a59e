import SessionHost.Settings.ColdRestart

/-!
# Comparing settings

Two versions of the settings are compared by the values of the settings that need a restart; of
paths, the parts that count.  Such a comparison of values is an equivalence, so nothing gets lost
between two versions that are far apart: if they differ, one of the changes that lead from the one
to the other changes such a setting, too.

Main definitions:

- `ColdField`, `coldFields`: the settings that need a restart, with their values.
- `ColdAlike`: no such setting differs.
- `FirstChanged`: the first such setting that differs.
- `Chained`: changes of which each one begins where the one before it has ended.
- `Prompted`: the names that are told for changes.

Main results:

- Theorems `coldChange?_eq_none_iff`, `coldChange?_eq_some_iff`: what a comparison tells.
- Theorem `Chained.exists_changed`: a difference between the ends of a chain is one of its changes.
- Theorem `prompted_iff`: the names that comparisons tell for changes.
-/

namespace SessionHost

/-! ## Values -/

/-- The value of a setting that needs a restart. -/
inductive ColdValue where
  | flag (value : Bool)
  | level (value : LogLevel)
  | text (value : Option String)
  | location (value : StartLocation)
  | parts (value : Option (List Path.Part))
deriving DecidableEq

/-- A setting that needs a restart, by its name. -/
structure ColdField where
  name : String
  value : Settings → ColdValue

/-- The value of a path, if there is one: its parts. -/
def ColdValue.path (p : Option Path) : ColdValue := .parts (p.map Path.parts)

/-- The settings that need a restart, in the order in which they are looked at. -/
def coldFields : List ColdField :=
  [⟨"developer.traceLsp", fun s => .flag s.developer.traceLanguage⟩,
    ⟨"developer.traceDap", fun s => .flag s.developer.traceDebug⟩,
    ⟨"developer.editorServicesLogLevel", fun s => .level s.developer.logLevel⟩,
    ⟨"cwd", fun s => .path s.cwd⟩,
    ⟨"powerShellDefaultVersion", fun s => .text s.defaultVersion⟩,
    ⟨"developer.bundledModulesPath", fun s => .path s.developer.modulesPath⟩,
    ⟨"developer.editorServicesWaitForDebugger", fun s => .flag s.developer.waitForDebugger⟩,
    ⟨"developer.setExecutionPolicy", fun s => .flag s.developer.setExecutionPolicy⟩,
    ⟨"integratedConsole.useLegacyReadLine", fun s => .flag s.console.legacyReadLine⟩,
    ⟨"integratedConsole.startInBackground", fun s => .flag s.console.startInBackground⟩,
    ⟨"integratedConsole.startLocation", fun s => .location s.console.startLocation⟩]

/-- Paths are alike if they have the same parts. -/
theorem pathsAlike_iff {p q : Option Path} :
    pathsAlike p q = true ↔ ColdValue.path p = ColdValue.path q := by
  cases p <;> cases q <;> simp [pathsAlike, ColdValue.path, Path.alike]

/-- The comparison of a setting is the comparison of its values. -/
def ColdField.setting (f : ColdField) : ColdSetting :=
  ⟨f.name, fun a b => f.value a != f.value b⟩

/-- The settings that need a restart are the fields listed here. -/
theorem coldSettings_eq : coldSettings = coldFields.map ColdField.setting := by
  have hpath (p q : Option Path) :
      (!pathsAlike p q) = (ColdValue.path p != ColdValue.path q) := by
    rw [Bool.eq_iff_iff, Bool.not_eq_true', bne_iff_ne, Bool.eq_false_iff, Ne, pathsAlike_iff]
  have hvalue {α : Type} [BEq α] [LawfulBEq α] (wrap : α → ColdValue)
      (hwrap : ∀ x y, wrap x = wrap y → x = y) (x y : α) : (x != y) = (wrap x != wrap y) := by
    rw [Bool.eq_iff_iff, bne_iff_ne, bne_iff_ne]
    exact not_congr ⟨congrArg wrap, hwrap x y⟩
  have hflag := hvalue .flag fun _ _ => ColdValue.flag.inj
  have hlevel := hvalue .level fun _ _ => ColdValue.level.inj
  have htext := hvalue .text fun _ _ => ColdValue.text.inj
  have hlocation := hvalue .location fun _ _ => ColdValue.location.inj
  simp only [coldSettings, coldFields, ColdField.setting, List.map_cons, List.map_nil, hpath,
    hflag, hlevel, htext, hlocation]

/-! ## Comparisons -/

variable {a b : Settings} {name : String}

/-- No setting differs that needs a restart. -/
def ColdAlike (a b : Settings) : Prop := ∀ f ∈ coldFields, f.value a = f.value b

/-- The first setting that differs and needs a restart. -/
def FirstChanged (a b : Settings) (name : String) : Prop :=
  ∃ before f after, coldFields = before ++ f :: after ∧ f.name = name ∧ f.value a ≠ f.value b ∧
    ∀ g ∈ before, g.value a = g.value b

/-- The first field that differs is the one that is named. -/
theorem coldChange?_eq : coldChange? a b =
    (coldFields.find? fun f => f.value a != f.value b).map ColdField.name := by
  rw [coldChange?, coldSettings_eq, List.find?_map, Option.map_map]
  rfl

/-- Nothing is told exactly if no setting differs that needs a restart. -/
theorem coldChange?_eq_none_iff : coldChange? a b = none ↔ ColdAlike a b := by
  simp [coldChange?_eq, ColdAlike]

/-- What is told is the name of the first setting that differs. -/
theorem coldChange?_eq_some_iff : coldChange? a b = some name ↔ FirstChanged a b name := by
  rw [coldChange?_eq, Option.map_eq_some_iff]
  constructor
  · rintro ⟨f, hf, rfl⟩
    obtain ⟨hchanged, before, after, hfields, hbefore⟩ := List.find?_eq_some_iff_append.1 hf
    exact ⟨before, f, after, hfields, rfl, bne_iff_ne.1 hchanged,
      fun g hg => by simpa using hbefore g hg⟩
  · rintro ⟨before, f, after, hfields, rfl, hchanged, hbefore⟩
    refine ⟨f, List.find?_eq_some_iff_append.2 ⟨bne_iff_ne.2 hchanged, before, after, hfields, ?_⟩,
      rfl⟩
    exact fun g hg => by simpa using hbefore g hg

theorem ColdAlike.refl (a : Settings) : ColdAlike a a :=
  fun _ _ => rfl

/-- Settings that are alike twice are alike. -/
theorem ColdAlike.trans {c : Settings} (h : ColdAlike a b) (h' : ColdAlike b c) : ColdAlike a c :=
  fun f hf => (h f hf).trans (h' f hf)

/-- Where a setting differs first, the settings are not alike. -/
theorem FirstChanged.not_coldAlike (h : FirstChanged a b name) : ¬ColdAlike a b := by
  obtain ⟨before, f, after, hfields, -, hchanged, -⟩ := h
  exact fun halike => hchanged (halike f (by simp [hfields]))

/-! ## Chains of changes -/

/-- Changes of the settings, the old ones and the new ones, lead from the first settings to the last
ones. -/
inductive Chained : Settings → List (Settings × Settings) → Settings → Prop where
  | nil (a : Settings) : Chained a [] a
  | cons {a b c : Settings} {changes : List (Settings × Settings)} (h : Chained b changes c) :
      Chained a ((a, b) :: changes) c

/-- The names that are told for changes: none for one that changes no setting that needs a restart,
and else the first one of those that it changes. -/
inductive Prompted : List (Settings × Settings) → List String → Prop where
  | nil : Prompted [] []
  | quiet {a b : Settings} {changes : List (Settings × Settings)} {names : List String}
      (h : ColdAlike a b) (rest : Prompted changes names) : Prompted ((a, b) :: changes) names
  | named {a b : Settings} {name : String} {changes : List (Settings × Settings)}
      {names : List String} (h : FirstChanged a b name) (rest : Prompted changes names) :
      Prompted ((a, b) :: changes) (name :: names)

variable {changes : List (Settings × Settings)} {names : List String}

/-- Settings are changed one by one: what differs at the ends is changed somewhere. -/
theorem Chained.exists_changed (h : Chained a changes b) (hne : ¬ColdAlike a b) :
    ∃ p ∈ changes, ¬ColdAlike p.1 p.2 := by
  induction h with
  | nil a => exact absurd (.refl a) hne
  | @cons a b c changes _ ih =>
    by_cases halike : ColdAlike a b
    · obtain ⟨p, hp, hchanged⟩ := ih fun hrest => hne (halike.trans hrest)
      exact ⟨p, List.mem_cons_of_mem _ hp, hchanged⟩
    · exact ⟨(a, b), List.mem_cons_self, halike⟩

/-- The names that are told are those that comparisons give. -/
theorem prompted_iff :
    Prompted changes names ↔ names = changes.filterMap fun p => coldChange? p.1 p.2 := by
  constructor
  · intro h
    induction h with
    | nil => rfl
    | quiet h _ ih =>
      simp only [List.filterMap_cons, coldChange?_eq_none_iff.2 h]
      exact ih
    | named h _ ih =>
      simp only [List.filterMap_cons, coldChange?_eq_some_iff.2 h]
      exact congrArg _ ih
  · rintro rfl
    induction changes with
    | nil => exact .nil
    | cons p rest ih =>
      obtain ⟨a, b⟩ := p
      cases hcold : coldChange? a b with
      | none =>
        simp only [List.filterMap_cons, hcold]
        exact .quiet (coldChange?_eq_none_iff.1 hcold) ih
      | some name =>
        simp only [List.filterMap_cons, hcold]
        exact .named (coldChange?_eq_some_iff.1 hcold) ih

namespace Prompted

/-- Nothing is told exactly if no change concerns a setting that needs a restart. -/
theorem eq_nil_iff (h : Prompted changes names) :
    names = [] ↔ ∀ p ∈ changes, ColdAlike p.1 p.2 := by
  obtain rfl := prompted_iff.1 h
  rw [List.filterMap_eq_nil_iff]
  exact forall₂_congr fun _ _ => coldChange?_eq_none_iff

/-- Each name that is told is the first one of those that a change concerns. -/
theorem exists_change (h : Prompted changes names) (hname : name ∈ names) :
    ∃ p ∈ changes, FirstChanged p.1 p.2 name := by
  obtain rfl := prompted_iff.1 h
  obtain ⟨p, hp, hcold⟩ := List.mem_filterMap.1 hname
  exact ⟨p, hp, coldChange?_eq_some_iff.1 hcold⟩

end Prompted

end SessionHost
