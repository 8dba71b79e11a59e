import SessionHost.Proofs.Discovery.Looks
import SessionHost.Proofs.Lifecycle.Sound

/-!
# Selecting a runtime

A selection looks for a runtime by name and falls back to the first one.  The program of what it
finds is there, and it has asked for that.  For the Windows PowerShell of the other width it gives
the one of this process's width instead, and whether that one is there it does not ask.

Main definitions:

- `preferred`: the runtime that a selection finds.
- `Finder.Narrows`: a runtime takes the place of the one of the other width.
- `World.wanted`: the name that a start looks for.
- `World.Found`: what a selection has found for what it gives.

Main results:

- Theorem `Finder.choose_value`: a selection among all runtimes.
- Theorem `Finder.choose_asked`: what a selection finds was asked for.
- Theorem `World.choice_eq_none_iff`: when nothing is selected.
- Theorem `World.choice_found`: what is selected was found, or takes the place of what was.
-/

namespace SessionHost

namespace Discovery

variable {f : Finder} {probe : Probe} {exe found : Executable} {name : Option String}

/-! ## Selections -/

/-- The runtime that a selection finds: the first one of the wanted name, in any letter case, or
else the first one of all. -/
def preferred (exes : List Executable) : Option String → Option Executable
  | none => exes.head?
  | some wanted =>
    (exes.find? fun exe => Text.equalIgnoringCase exe.name wanted).or exes.head?

/-- A choice fails only among none. -/
theorem preferred_eq_none_iff {exes : List Executable} :
    preferred exes name = none ↔ exes = [] := by
  cases name with
  | none => exact List.head?_eq_none_iff
  | some wanted =>
    rw [preferred, Option.or_eq_none_iff, List.head?_eq_none_iff]
    exact and_iff_right_of_imp fun h => by rw [h, List.find?_nil]

/-- What is chosen is among those to choose from. -/
theorem mem_of_preferred {exes : List Executable} (h : preferred exes name = some found) :
    found ∈ exes := by
  cases name with
  | none => exact List.mem_of_head? h
  | some wanted =>
    rcases Option.or_eq_some_iff.1 h with h | ⟨-, h⟩
    · exact List.mem_of_find?_eq_some h
    · exact List.mem_of_head? h

namespace Finder

/-- The runtime takes the place of one that is found: under that one's name, the Windows PowerShell
of this process's width takes the place of the one of the other width. -/
inductive Narrows (f : Finder) (found : Executable) : Executable → Prop where
  | intro {alternate native : Executable} (halternate : f.windowsPowerShell? true = some alternate)
      (hnative : f.windowsPowerShell? false = some native)
      (hequal : Text.equalIgnoringCase alternate.path.text found.path.text = true) :
      Narrows f found { path := native.path, name := found.name }

variable (f probe)

/-- The first runtime is the first of all. -/
theorem first_eq_head? : (f.first probe).value = (f.all probe).value.head? := by
  rw [first, findFound_value, all, allFound_value]
  cases foundBy (f.steps probe) <;> rfl

/-- The runtime of a name is the first of all with that name, in whichever case. -/
theorem named_eq_find? (wanted : String) : (f.named probe wanted).value =
    (f.all probe).value.find? fun exe => Text.equalIgnoringCase exe.name wanted := by
  rw [named, findFound_value, all, allFound_value]

variable {f probe}

/-- The first runtime was asked for. -/
theorem first_asked (h : (f.first probe).value = some found) :
    .isFile found.path ∈ (f.first probe).queries := by
  rw [first, findFound_value] at h
  exact (findFound_stops h).asked fun _ => f.asked_of_mem_steps probe

/-- The runtime of a name was asked for. -/
theorem named_asked {wanted : String} (h : (f.named probe wanted).value = some found) :
    .isFile found.path ∈ (f.named probe wanted).queries := by
  rw [named, findFound_value] at h
  exact (findFound_stops h).asked fun _ => f.asked_of_mem_steps probe

variable (f probe)

/-- The search of a selection. -/
def sought (name : Option String) : Find :=
  match name with
  | none => f.first probe
  | some wanted =>
    (f.named probe wanted).bind fun found =>
      match found with
      | some exe => .pure (some exe)
      | none => (Traced.warn (notInstalledWarning wanted)).bind fun _ => f.first probe

/-- The runtime that is started for the one that is found. -/
def fitted (exe : Executable) : Executable :=
  let path := f.nativePath exe.path
  if path.alike exe.path then exe else { path := path, name := exe.name }

/-- A choice looks for a runtime and fits it to the platform. -/
theorem choose_eq (name : Option String) :
    f.choose probe name = (f.sought probe name).bind fun found => .pure (found.map f.fitted) := by
  cases name <;> rfl

/-- What is looked for is preferred among all. -/
theorem sought_value (name : Option String) :
    (f.sought probe name).value = preferred (f.all probe).value name := by
  cases name with
  | none => exact f.first_eq_head? probe
  | some wanted =>
    rw [sought, Traced.bind_value, preferred, ← named_eq_find?, ← first_eq_head?]
    cases (f.named probe wanted).value <;> rfl

/-- **Selections.**  A selection gives what it finds among all runtimes, or the Windows PowerShell
of this process's width for the one of the other width. -/
theorem choose_value (name : Option String) :
    (f.choose probe name).value = (preferred (f.all probe).value name).map f.fitted := by
  rw [choose_eq, Traced.bind_value, sought_value]
  rfl

variable {f probe}

/-- What a selection finds was asked for. -/
theorem choose_asked (h : preferred (f.all probe).value name = some found) :
    .isFile found.path ∈ (f.choose probe name).queries := by
  rw [choose_eq]
  refine List.mem_append_left _ ?_
  rw [← sought_value] at h
  cases name with
  | none => exact first_asked h
  | some wanted =>
    rw [sought, Traced.bind_value] at h
    rw [sought, Traced.bind_queries]
    cases hnamed : (f.named probe wanted).value with
    | some exe =>
      rw [hnamed] at h
      obtain rfl := Option.some.inj h
      exact List.mem_append_left _ (named_asked hnamed)
    | none =>
      rw [hnamed] at h
      exact List.mem_append_right _ (first_asked h)

/-- Every runtime that is found is a file. -/
theorem isFile_of_mem_all (h : exe ∈ (f.all probe).value) : probe.isFile exe.path = true := by
  rw [all_value, List.mem_append] at h
  rcases h with h | h
  · obtain ⟨c, -, hc⟩ := List.mem_filterMap.1 h
    exact resolve_isFile hc
  · obtain ⟨a, -, ha⟩ := List.mem_filterMap.1 h
    exact (resolveAdditional_some ha).2

/-- A runtime is started as it was found, unless another one takes its place. -/
theorem fitted_cases (f : Finder) (found : Executable) :
    f.fitted found = found ∨ f.Narrows found (f.fitted found) := by
  unfold fitted
  simp only
  split
  · exact .inl rfl
  · next hdiffers =>
    unfold nativePath at hdiffers ⊢
    split at hdiffers
    · next alternate native halternate hnative =>
      split at hdiffers
      · next hequal =>
        rw [if_pos hequal]
        exact .inr (.intro halternate hnative hequal)
      · exact absurd (by simp [Path.alike]) hdiffers
    · exact absurd (by simp [Path.alike]) hdiffers

/-- Where a runtime takes the place of the one that is found, the path of that one is started. -/
theorem Narrows.fitted_alike {native : Executable} (h : f.Narrows found native) :
    (f.fitted found).path.alike native.path = true := by
  cases h with
  | @intro alternate native halternate hnative hequal =>
    have hpath : f.nativePath found.path = native.path := by
      rw [nativePath, halternate, hnative]
      exact if_pos hequal
    unfold fitted
    simp only [hpath]
    split
    · next halike => exact beq_iff_eq.2 (beq_iff_eq.1 halike).symm
    · exact beq_self_eq_true _

end Finder

end Discovery

open Discovery

namespace World

variable (w : World) (s : Settings) (name : Option String)

/-- All runtimes that there are for settings. -/
def runtimes : List Executable := ((w.finder s).all w.config.probe).value

/-- The name that a start looks for: the one that was asked for, or else the default one. -/
def wanted (s : Settings) (name : Option String) : Option String :=
  name.orElse fun _ => s.defaultVersion

/-- A selection gives a runtime for the one that it has found. -/
structure Found (exe found : Executable) : Prop where
  mem : found ∈ w.runtimes s
  preferred : preferred (w.runtimes s) (wanted s name) = some found
  /-- The program that is found is there, and the selection has asked for it. -/
  isFile : w.config.probe.isFile found.path = true
  asked : .isFile found.path ∈ (w.choice s name).queries
  /-- It is given itself, or another one takes its place. -/
  given : exe = found ∨ (w.finder s).Narrows found exe
  narrowed : ∀ native, (w.finder s).Narrows found native → exe.path.alike native.path = true

/-- A session's choice is the preferred runtime of its settings, fitted. -/
theorem choice_eq (w : World) (s : Settings) (name : Option String) : (w.choice s name).value =
    (Discovery.preferred (w.runtimes s) (wanted s name)).map (w.finder s).fitted :=
  (w.finder s).choose_value w.config.probe _

/-- Nothing is selected exactly if there is no runtime. -/
theorem choice_eq_none_iff : (w.choice s name).value = none ↔ w.runtimes s = [] := by
  rw [choice_eq, Option.map_eq_none_iff, preferred_eq_none_iff]

/-- What is selected was found, or it takes the place of what was. -/
theorem choice_found {exe : Executable} (h : (w.choice s name).value = some exe) :
    ∃ found, w.Found s name exe found := by
  rw [choice_eq] at h
  obtain ⟨found, hfound, rfl⟩ := Option.map_eq_some_iff.1 h
  have hmem := mem_of_preferred hfound
  exact ⟨found, hmem, hfound, Finder.isFile_of_mem_all hmem, Finder.choose_asked hfound,
    (w.finder s).fitted_cases found, fun _ => Finder.Narrows.fitted_alike⟩

end World

end SessionHost
