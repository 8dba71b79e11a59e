import SessionHost.Proofs.Discovery.Searches

/-!
# What a look leaves behind

Discovery looks at every place in silence, and it has asked for the program of a runtime that it
finds there.  It asks for the program at a configured path, too; only of such a path it warns.

Main definitions:

- `Asked`: what is found was asked for.
- `IsLook`: a look at a place.

Main results:

- Theorem `Finder.isLook_resolve`: discovery looks at every place.
- Theorem `Finder.all_warnings`: full discovery warns of configured paths only.
- Theorem `StopsAt.asked`: what a search has found was asked for when it stopped.
-/

namespace SessionHost.Discovery

variable {probe : Probe} {exe : Executable} {α : Type}

/-- What is found, if anything, was asked for. -/
def Asked (t : Find) : Prop := ∀ exe, t.value = some exe → .isFile exe.path ∈ t.queries

/-- A look at a place: nothing is said, and what is found was asked for. -/
structure IsLook (t : Find) : Prop where
  silent : t.warnings = []
  asked : Asked t

/-- A search warns of what both of its parts warn of. -/
@[simp]
theorem Traced.bind_warnings {β : Type} (t : Traced β) (next : β → Traced α) :
    (t.bind next).warnings = t.warnings ++ (next t.value).warnings := rfl

/-- A search asks what both of its parts ask. -/
@[simp]
theorem Traced.bind_queries {β : Type} (t : Traced β) (next : β → Traced α) :
    (t.bind next).queries = t.queries ++ (next t.value).queries := rfl

theorem Asked.pure_none : Asked (.pure none) := fun _ h => by cases h

/-- What is found was asked for, whatever was learned before. -/
theorem Asked.bind {t : Traced α} {next : α → Find} (h : Asked (next t.value)) :
    Asked (t.bind next) :=
  fun exe hexe => List.mem_append_right _ (h exe hexe)

theorem IsLook.pure_none : IsLook (.pure none) := ⟨rfl, .pure_none⟩

/-- A look goes on with a look, if it is silent so far. -/
theorem IsLook.bind {t : Traced α} {next : α → Find} (hsilent : t.warnings = [])
    (h : IsLook (next t.value)) : IsLook (t.bind next) where
  silent := by rw [Traced.bind_warnings, hsilent, h.silent, List.append_nil]
  asked := h.asked.bind

/-! ## Places -/

theorem isLook_ifInstalled (probe : Probe) (e : Executable) :
    IsLook (Finder.ifInstalled probe e) where
  silent := rfl
  asked exe h := by
    have hfound : (if probe.isFile e.path = true then some e else none) = some exe := h
    obtain ⟨-, hsome⟩ := Option.ite_none_right_eq_some.1 hfound
    obtain rfl := Option.some.inj hsome
    exact List.mem_cons_self

/-- Comparing installs is silent. -/
theorem bestInstall_warnings (probe : Probe) (base : Path) (preview : Bool)
    (best : Option (Nat × Path)) (names : List String) :
    (bestInstall probe base preview best names).warnings = [] := by
  induction names generalizing best with
  | nil => rfl
  | cons name rest ih =>
    rw [bestInstall]
    split
    · exact ih best
    · split
      · rw [Traced.bind_warnings, ih]
        rfl
      · exact ih best

/-- The best install was the best one before, or was asked for. -/
theorem bestInstall_asked {base : Path} {preview : Bool} {best : Option (Nat × Path)}
    {names : List String} {b : Nat × Path}
    (h : (bestInstall probe base preview best names).value = some b) :
    best = some b ∨ .isFile b.2 ∈ (bestInstall probe base preview best names).queries := by
  induction names generalizing best with
  | nil => exact .inl h
  | cons name rest ih =>
    rw [bestInstall] at h ⊢
    split at h
    · exact ih h
    · split at h
      · next number _ himproves =>
        rw [if_pos himproves]
        rw [Traced.bind_value] at h
        rcases ih h with hbest | hasked
        · split at hbest
          · obtain rfl := Option.some.inj hbest
            exact .inr (List.mem_append_left _ List.mem_cons_self)
          · exact .inl hbest
        · exact .inr (List.mem_append_right _ hasked)
      · next himproves =>
        rw [if_neg himproves]
        exact ih h

namespace Finder

variable (f : Finder) (probe : Probe)

/-- A numbered install is looked for silently. -/
theorem isLook_numberedInstall (alternate preview : Bool) :
    IsLook (f.numberedInstall probe alternate preview) := by
  unfold numberedInstall
  split
  · exact .pure_none
  · refine .bind rfl ⟨?_, fun exe hexe => ?_⟩
    · rw [Traced.bind_warnings, bestInstall_warnings]
      rfl
    · obtain ⟨b, hb, rfl⟩ := Option.map_eq_some_iff.1 hexe
      rcases bestInstall_asked hb with hnone | hasked
      · cases hnone
      · exact List.mem_append_left _ hasked

/-- An install from the Store is looked for silently. -/
theorem isLook_storeInstall (preview : Bool) : IsLook (f.storeInstall probe preview) := by
  unfold storeInstall
  split
  · exact .pure_none
  · refine .bind rfl ?_
    split
    · refine .bind rfl ?_
      split
      · exact .pure_none
      · exact isLook_ifInstalled probe _
    · exact .pure_none

/-- A program at a fixed path is looked for silently. -/
theorem isLook_fixedPath (linux macOS name : String) :
    IsLook (f.fixedPath probe linux macOS name) := by
  unfold fixedPath
  split
  · exact isLook_ifInstalled probe _
  · exact isLook_ifInstalled probe _
  · exact .pure_none

/-- The global tool is looked for silently. -/
theorem isLook_globalTool : IsLook (f.globalTool probe) := by
  unfold globalTool
  split
  · exact .pure_none
  · exact isLook_ifInstalled probe _

/-- Discovery looks at every place. -/
theorem isLook_resolve (c : Candidate) : IsLook (f.resolve probe c) := by
  cases c with
  | stable | preview =>
    simp only [resolve]
    split
    · exact f.isLook_numberedInstall probe _ _
    · exact f.isLook_fixedPath probe _ _ _
  | stableAlternateBitness | previewAlternateBitness => exact f.isLook_numberedInstall probe _ _
  | stableSnap | stableHomebrew | previewSnap => exact isLook_ifInstalled probe _
  | stableStore | previewStore => exact f.isLook_storeInstall probe _
  | globalTool => exact f.isLook_globalTool probe
  | windowsPowerShell | windowsPowerShellAlternateBitness =>
    simp only [resolve]
    split
    · exact isLook_ifInstalled probe _
    · exact .pure_none

end Finder

/-! ## Configured paths -/

/-- The first file is the first path that is one. -/
theorem firstFile_value (probe : Probe) (paths : List Path) :
    (probe.firstFile paths).value = paths.find? probe.isFile := by
  induction paths with
  | nil => rfl
  | cons path rest ih =>
    rw [Probe.firstFile, Traced.bind_value, List.find?_cons]
    cases hfile : probe.isFile path with
    | true => simp [Probe.askFile, hfile, Traced.pure]
    | false => simpa [Probe.askFile, hfile] using ih

/-- Looking for the first file is silent. -/
theorem firstFile_warnings (probe : Probe) (paths : List Path) :
    (probe.firstFile paths).warnings = [] := by
  induction paths with
  | nil => rfl
  | cons path rest ih =>
    rw [Probe.firstFile, Traced.bind_warnings]
    split
    · rfl
    · exact ih

/-- The first file was asked for. -/
theorem firstFile_asked {paths : List Path} {p : Path}
    (h : (probe.firstFile paths).value = some p) :
    .isFile p ∈ (probe.firstFile paths).queries := by
  induction paths with
  | nil => cases h
  | cons path rest ih =>
    simp only [Probe.firstFile, Traced.bind] at h ⊢
    split at h
    · obtain rfl : path = p := Option.some.inj h
      exact List.mem_append_left _ List.mem_cons_self
    · next hfile =>
      rw [if_neg hfile]
      exact List.mem_append_right _ (ih h)

namespace Finder

variable (f : Finder) (probe : Probe)

/-- A runtime that is found at a configured path was asked for. -/
theorem asked_resolveAdditional (name raw : String) :
    Asked (f.resolveAdditional probe name raw) := by
  unfold resolveAdditional
  split
  · exact .pure_none
  · intro exe h
    rw [Traced.bind_value] at h
    split at h
    · next program hprogram =>
      obtain rfl := Option.some.inj h
      exact List.mem_append_left _ (firstFile_asked hprogram)
    · cases h

/-- Whatever a step of the search finds, it has asked for. -/
theorem asked_of_mem_steps {step : Find} (h : step ∈ f.steps probe) : Asked step := by
  rcases List.mem_append.1 h with h | h
  · obtain ⟨c, -, rfl⟩ := List.mem_map.1 h
    exact (f.isLook_resolve probe c).asked
  · obtain ⟨a, -, rfl⟩ := List.mem_map.1 h
    exact f.asked_resolveAdditional probe a.1 a.2

/-- Full discovery warns of configured paths only, in their order. -/
theorem all_warnings : (f.all probe).warnings =
    f.additional.flatMap fun a => (f.resolveAdditional probe a.1 a.2).warnings := by
  rw [all, (allFound_ran _).warnings_eq, steps, List.flatMap_append, List.flatMap_map,
    List.flatMap_map]
  simp [fun c => (f.isLook_resolve probe c).silent]

end Finder

/-- What a search that has stopped has found was asked for by then. -/
theorem StopsAt.asked {steps : List Find} {search : Traced α} {earlier : List Executable}
    {hit : Executable} (h : StopsAt steps search earlier hit)
    (hsteps : ∀ step ∈ steps, Asked step) : .isFile hit.path ∈ search.queries := by
  obtain ⟨before, step, after, rfl, -, hhit, hran⟩ := h
  rw [hran.queries_eq, List.flatMap_append, List.flatMap_singleton]
  exact List.mem_append_right _ (hsteps step (by simp) hit hhit)

end SessionHost.Discovery
