import SessionHost.Discovery.Finder
import SessionHost.Text.Utf8

/-!
# Lazy searches

A search runs the steps of discovery one after the other and stops at its hit.  What it finds is
what the list of all runtimes says, and what it asks and warns of on the way is the beginning of
what is asked and warned of for the whole list.

Main definitions:

- `Ran`: the trace of a search is that of some steps.
- `StopsAt`: a search has run its steps up to a hit, and none behind it.
- `Finder.Searches`: how the searches of a finder agree with the list of all runtimes.

Main results:

- Theorems `takeFound_runs`, `findFound_runs`: where a search stops.
- Theorem `Finder.resolve_isFile`: a runtime that is found has its program.
- Theorem `Finder.lazy_agrees`: lazy discovery agrees with full discovery.
-/

namespace SessionHost.Discovery

/-- A step of discovery, with what it may find. -/
abbrev Find := Traced (Option Executable)

/-! ## Traces -/

/-- What some steps find. -/
def foundBy (steps : List Find) : List Executable := steps.filterMap Traced.value

/-- The trace of a search is that of steps that ran one after the other. -/
structure Ran {α : Type} (search : Traced α) (steps : List Find) : Prop where
  queries_eq : search.queries = steps.flatMap Traced.queries
  warnings_eq : search.warnings = steps.flatMap Traced.warnings

/-- A search has run its steps up to the one that found `hit`, behind `earlier`, and no further. -/
def StopsAt {α : Type} (steps : List Find) (search : Traced α) (earlier : List Executable)
    (hit : Executable) : Prop :=
  ∃ before step after, steps = before ++ step :: after ∧ foundBy before = earlier ∧
    step.value = some hit ∧ Ran search (before ++ [step])

section Ran

variable {α β : Type} {x : Traced α}

@[simp]
theorem Traced.bind_value (t : Traced β) (next : β → Traced α) :
    (t.bind next).value = (next t.value).value := rfl

theorem Ran.pure (a : α) : Ran (Traced.pure a) [] := ⟨rfl, rfl⟩

/-- One step, and then what goes on with what it found. -/
theorem Ran.bind {step : Find} {next : Option Executable → Traced α} {steps : List Find}
    (h : Ran (next step.value) steps) : Ran (step.bind next) (step :: steps) where
  queries_eq := by simp [Traced.bind, h.queries_eq]
  warnings_eq := by simp [Traced.bind, h.warnings_eq]

/-- What becomes of the value leaves no trace. -/
theorem Ran.map {steps : List Find} (h : Ran x steps) (g : α → β) :
    Ran (x.bind fun a => Traced.pure (g a)) steps where
  queries_eq := by simp [Traced.bind, Traced.pure, h.queries_eq]
  warnings_eq := by simp [Traced.bind, Traced.pure, h.warnings_eq]

/-- The trace of the first of some steps is the beginning of the trace of all. -/
theorem Ran.begins {all : Traced β} {steps rest : List Find} (h : Ran x steps)
    (hall : Ran all (steps ++ rest)) : x.queries <+: all.queries ∧ x.warnings <+: all.warnings := by
  rw [h.queries_eq, h.warnings_eq, hall.queries_eq, hall.warnings_eq, List.flatMap_append,
    List.flatMap_append]
  exact ⟨List.prefix_append _ _, List.prefix_append _ _⟩

end Ran

/-! ## Searches over steps -/

@[simp]
theorem foundBy_nil : foundBy [] = [] := rfl

/-- A step in vain finds nothing. -/
@[simp]
theorem foundBy_cons_none {step : Find} (h : step.value = none) (steps : List Find) :
    foundBy (step :: steps) = foundBy steps := by
  simp [foundBy, h]

/-- A step that finds something puts it first. -/
@[simp]
theorem foundBy_cons_some {step : Find} {exe : Executable} (h : step.value = some exe)
    (steps : List Find) : foundBy (step :: steps) = exe :: foundBy steps := by
  simp [foundBy, h]

/-- All steps find what each of them finds. -/
theorem allFound_value (steps : List Find) : (allFound steps).value = foundBy steps := by
  induction steps with
  | nil => rfl
  | cons step rest ih =>
    simp only [allFound, Traced.bind, Traced.pure, ih]
    cases h : step.value with
    | none => simp [h]
    | some exe => simp [h]

/-- A search for all runs every step. -/
theorem allFound_ran (steps : List Find) : Ran (allFound steps) steps := by
  induction steps with
  | nil => exact Ran.pure []
  | cons step rest ih => exact Ran.bind (ih.map _)

/-- A limited search finds the first runtimes. -/
theorem takeFound_value (n : Nat) (steps : List Find) :
    (takeFound n steps).value = (foundBy steps).take n := by
  induction steps generalizing n with
  | nil => simp [takeFound, Traced.pure, foundBy]
  | cons step rest ih =>
    cases n with
    | zero => simp [takeFound, Traced.pure]
    | succ n =>
      simp only [takeFound, Nat.succ_ne_zero, if_false, Traced.bind]
      cases h : step.value with
      | none => simpa [h] using ih (n + 1)
      | some exe => simp [h, Traced.pure, ih n]

/-- A limited search runs some of the steps: none behind the one that finds the last runtime that
is wanted. -/
theorem takeFound_runs (n : Nat) (steps : List Find) :
    ∃ ran rest, steps = ran ++ rest ∧ Ran (takeFound n steps) ran := by
  induction steps generalizing n with
  | nil => exact ⟨[], [], rfl, Ran.pure []⟩
  | cons step rest ih =>
    cases n with
    | zero => exact ⟨[], step :: rest, rfl, Ran.pure []⟩
    | succ n =>
      simp only [takeFound, Nat.succ_ne_zero, if_false]
      cases h : step.value with
      | none =>
        obtain ⟨ran, behind, hsteps, hran⟩ := ih (n + 1)
        exact ⟨step :: ran, behind, by rw [hsteps, List.cons_append], .bind (by rwa [h])⟩
      | some exe =>
        obtain ⟨ran, behind, hsteps, hran⟩ := ih n
        exact ⟨step :: ran, behind, by rw [hsteps, List.cons_append],
          .bind (by rw [h]; exact hran.map _)⟩

/-! ## Where a search stops -/

section Steps

variable {α : Type} {step : Find} {next : Option Executable → Traced α} {steps : List Find}
  {earlier : List Executable} {hit : Executable}

/-- A search that goes on behind a step without a runtime stops where its continuation stops. -/
theorem StopsAt.cons_none (hvalue : step.value = none)
    (h : StopsAt steps (next none) earlier hit) :
    StopsAt (step :: steps) (step.bind next) earlier hit := by
  obtain ⟨before, last, after, rfl, rfl, hlast, hran⟩ := h
  exact ⟨step :: before, last, after, rfl, foundBy_cons_none hvalue before, hlast,
    .bind (by rwa [hvalue])⟩

/-- So does one that goes on behind a step with a runtime. -/
theorem StopsAt.cons_some {exe : Executable} (hvalue : step.value = some exe)
    (h : StopsAt steps (next (some exe)) earlier hit) :
    StopsAt (step :: steps) (step.bind next) (exe :: earlier) hit := by
  obtain ⟨before, last, after, rfl, rfl, hlast, hran⟩ := h
  exact ⟨step :: before, last, after, rfl, foundBy_cons_some hvalue before, hlast,
    .bind (by rwa [hvalue])⟩

end Steps

/-- Where a search stops does not depend on what is made of its result. -/
theorem StopsAt.map {α β : Type} {steps : List Find} {search : Traced α}
    {earlier : List Executable} {hit : Executable} (h : StopsAt steps search earlier hit)
    (g : α → β) : StopsAt steps (search.bind fun a => Traced.pure (g a)) earlier hit := by
  obtain ⟨before, last, after, hsteps, hearlier, hlast, hran⟩ := h
  exact ⟨before, last, after, hsteps, hearlier, hlast, hran.map g⟩

/-- A search that ends with its first step stops there. -/
theorem StopsAt.head {α : Type} {step : Find} {hit : Executable} (h : step.value = some hit)
    {next : Option Executable → Traced α} (hnext : Ran (next (some hit)) [])
    (steps : List Find) : StopsAt (step :: steps) (step.bind next) [] hit :=
  ⟨[], step, steps, rfl, rfl, h, .bind (by rwa [h])⟩

/-- A limited search that has found what it wants does not look further. -/
theorem takeFound_stops {n : Nat} {steps : List Find} {hit : Executable}
    (h : (foundBy steps)[n]? = some hit) :
    StopsAt steps (takeFound (n + 1) steps) ((foundBy steps).take n) hit := by
  induction steps generalizing n with
  | nil => simp at h
  | cons step rest ih =>
    rw [takeFound, if_neg (Nat.succ_ne_zero n), Nat.add_sub_cancel]
    cases hvalue : step.value with
    | none =>
      rw [foundBy_cons_none hvalue] at h ⊢
      exact .cons_none hvalue (ih h)
    | some exe =>
      rw [foundBy_cons_some hvalue] at h ⊢
      cases n with
      | zero =>
        obtain rfl : exe = hit := by simpa using h
        refine StopsAt.head hvalue ?_ rest
        cases rest <;> exact ⟨rfl, rfl⟩
      | succ n => exact .cons_some hvalue ((ih (n := n) (by simpa using h)).map _)

/-- A search for a runtime finds the first one that passes the test. -/
theorem findFound_value (test : Executable → Bool) (steps : List Find) :
    (findFound test steps).value = (foundBy steps).find? test := by
  induction steps with
  | nil => rfl
  | cons step rest ih =>
    simp only [findFound, Traced.bind]
    cases h : step.value with
    | none => simpa [h] using ih
    | some exe =>
      rw [foundBy_cons_some h, List.find?_cons]
      cases htest : test exe with
      | true => simp [htest, Traced.pure]
      | false => simpa [h, htest] using ih

/-- A search for a runtime that has found it does not look further. -/
theorem findFound_stops {test : Executable → Bool} {steps : List Find} {hit : Executable}
    (h : (foundBy steps).find? test = some hit) :
    StopsAt steps (findFound test steps) ((foundBy steps).takeWhile fun exe => !test exe) hit := by
  induction steps with
  | nil => simp at h
  | cons step rest ih =>
    rw [findFound]
    cases hvalue : step.value with
    | none =>
      rw [foundBy_cons_none hvalue] at h ⊢
      exact .cons_none hvalue (ih h)
    | some exe =>
      rw [foundBy_cons_some hvalue] at h ⊢
      rw [List.find?_cons] at h
      cases htest : test exe with
      | true =>
        obtain rfl : exe = hit := by simpa [htest] using h
        simp only [List.takeWhile_cons, htest]
        exact StopsAt.head hvalue (by simpa [htest] using Ran.pure _) rest
      | false =>
        rw [List.takeWhile_cons, htest]
        refine .cons_some hvalue ?_
        simp only [htest]
        exact ih (by simpa [htest] using h)

/-! ## What is found is installed -/

section Installed

variable {f : Finder} {probe : Probe} {exe : Executable}

/-- What is found at a known path is a file. -/
theorem ifInstalled_isFile {e : Executable} (h : (Finder.ifInstalled probe e).value = some exe) :
    probe.isFile exe.path = true := by
  have hfound : (if probe.isFile e.path = true then some e else none) = some exe := h
  obtain ⟨hfile, hsome⟩ := Option.ite_none_right_eq_some.1 hfound
  obtain rfl := Option.some.inj hsome
  exact hfile

/-- The best install so far has its program, and stays with it as more names are looked at. -/
theorem bestInstall_isFile {base : Path} {preview : Bool} {best : Option (Nat × Path)}
    (hbest : ∀ b, best = some b → probe.isFile b.2 = true) {names : List String} {b : Nat × Path}
    (h : (bestInstall probe base preview best names).value = some b) :
    probe.isFile b.2 = true := by
  induction names generalizing best with
  | nil => exact hbest b h
  | cons name rest ih =>
    rw [bestInstall] at h
    split at h
    · exact ih hbest h
    · rename_i number _
      split at h
      · rw [Traced.bind_value] at h
        refine ih (fun b hb => ?_) h
        split at hb
        · rename_i hfile
          obtain rfl := Option.some.inj hb
          exact hfile
        · exact hbest b hb
      · exact ih hbest h

/-- A numbered install is a file. -/
theorem numberedInstall_isFile {alternate preview : Bool}
    (h : (f.numberedInstall probe alternate preview).value = some exe) :
    probe.isFile exe.path = true := by
  unfold Finder.numberedInstall at h
  split at h
  · cases h
  · obtain ⟨b, hb, rfl⟩ := Option.map_eq_some_iff.1 h
    exact bestInstall_isFile (fun b hb => by cases hb) hb

/-- An install from the Store is a file. -/
theorem storeInstall_isFile {preview : Bool}
    (h : (f.storeInstall probe preview).value = some exe) : probe.isFile exe.path = true := by
  unfold Finder.storeInstall at h
  split at h
  · cases h
  · simp only [Traced.bind_value] at h
    split at h
    · rw [Traced.bind_value] at h
      split at h
      · cases h
      · exact ifInstalled_isFile h
    · cases h

/-- A program at a fixed path is a file. -/
theorem fixedPath_isFile {linux macOS name : String}
    (h : (f.fixedPath probe linux macOS name).value = some exe) :
    probe.isFile exe.path = true := by
  unfold Finder.fixedPath at h
  split at h
  · exact ifInstalled_isFile h
  · exact ifInstalled_isFile h
  · cases h

/-- The global tool is a file. -/
theorem globalTool_isFile (h : (f.globalTool probe).value = some exe) :
    probe.isFile exe.path = true := by
  unfold Finder.globalTool at h
  split at h
  · cases h
  · exact ifInstalled_isFile h

/-- A runtime that is found at a place has its program there. -/
theorem Finder.resolve_isFile {c : Candidate} (h : (f.resolve probe c).value = some exe) :
    probe.isFile exe.path = true := by
  cases c with
  | stable | preview =>
    simp only [Finder.resolve] at h
    split at h
    · exact numberedInstall_isFile h
    · exact fixedPath_isFile h
  | stableAlternateBitness | previewAlternateBitness => exact numberedInstall_isFile h
  | stableSnap | stableHomebrew | previewSnap => exact ifInstalled_isFile h
  | stableStore | previewStore => exact storeInstall_isFile h
  | globalTool => exact globalTool_isFile h
  | windowsPowerShell | windowsPowerShellAlternateBitness =>
    simp only [Finder.resolve] at h
    split at h
    · exact ifInstalled_isFile h
    · cases h

/-- The first file is one. -/
theorem firstFile_isFile {paths : List Path} {p : Path}
    (h : (probe.firstFile paths).value = some p) : probe.isFile p = true := by
  induction paths with
  | nil => cases h
  | cons path rest ih =>
    rw [Probe.firstFile, Traced.bind_value] at h
    split at h
    · rename_i hfile
      obtain rfl : path = p := Option.some.inj h
      exact hfile
    · exact ih h

/-- A runtime at a configured path has the configured name, and its program is there. -/
theorem Finder.resolveAdditional_some {name raw : String}
    (h : (f.resolveAdditional probe name raw).value = some exe) :
    exe.name = name ∧ probe.isFile exe.path = true := by
  unfold Finder.resolveAdditional at h
  split at h
  · cases h
  · rw [Traced.bind_value] at h
    split at h
    · rename_i program hprogram
      obtain rfl := Option.some.inj h
      exact ⟨rfl, firstFile_isFile hprogram⟩
    · cases h

end Installed

/-! ## The order of discovery -/

/-- Names in ascending order of their bytes, each at most once. -/
def ByteAscending (names : List String) : Prop :=
  (names.map Text.utf8Bytes).Pairwise (· < ·)

instance (names : List String) : Decidable (ByteAscending names) :=
  inferInstanceAs (Decidable ((names.map Text.utf8Bytes).Pairwise (· < ·)))

/-- No place is looked at twice. -/
theorem candidates_nodup (os : OperatingSystem) : (candidates os).Nodup := by
  cases os <;> decide

namespace Finder

variable (f : Finder) (probe : Probe)

/-- The runtimes at the places of the operating system, in the order of the places. -/
def defaults : List Executable :=
  (candidates f.platform.os).filterMap fun c => (f.resolve probe c).value

/-- The runtimes at configured paths, in the order of their names. -/
def configured : List Executable :=
  f.additional.filterMap fun a => (f.resolveAdditional probe a.1 a.2).value

/-- All runtimes are the known ones, then the configured ones. -/
theorem all_value : (f.all probe).value = f.defaults probe ++ f.configured probe := by
  rw [Finder.all, allFound_value, foundBy, Finder.steps, List.filterMap_append,
    List.filterMap_map, List.filterMap_map]
  rfl

/-- The names of the configured runtimes are some of those that were configured, in their order. -/
theorem configured_names : ((f.configured probe).map Executable.name).Sublist
    (f.additional.map Prod.fst) := by
  unfold configured
  induction f.additional with
  | nil => exact List.Sublist.refl _
  | cons a rest ih =>
    rw [List.filterMap_cons]
    cases h : (f.resolveAdditional probe a.1 a.2).value with
    | none => exact ih.cons _
    | some exe =>
      simp only [List.map_cons, (resolveAdditional_some h).1]
      exact ih.cons_cons _

/-- How the searches of a finder agree with the list of all runtimes, and how that list is made
up. -/
structure Searches : Prop where
  take_value : ∀ n, (f.take probe n).value = (f.all probe).value.take n
  take_begins : ∀ n, (f.take probe n).queries <+: (f.all probe).queries ∧
    (f.take probe n).warnings <+: (f.all probe).warnings
  take_stops : ∀ n hit, (f.all probe).value[n]? = some hit →
    StopsAt (f.steps probe) (f.take probe (n + 1)) ((f.all probe).value.take n) hit
  first_value : (f.first probe).value = (f.all probe).value.head?
  first_stops : ∀ hit, (f.first probe).value = some hit →
    StopsAt (f.steps probe) (f.first probe) [] hit
  named_value : ∀ name, (f.named probe name).value =
    (f.all probe).value.find? fun exe => Text.lowercase exe.name == Text.lowercase name
  named_stops : ∀ name hit, (f.named probe name).value = some hit →
    StopsAt (f.steps probe) (f.named probe name)
      ((f.all probe).value.takeWhile fun exe => Text.lowercase exe.name != Text.lowercase name) hit
  installed : ∀ exe ∈ (f.all probe).value, probe.isFile exe.path = true
  ordered : (f.all probe).value = f.defaults probe ++ f.configured probe
  places_once : (candidates f.platform.os).Nodup
  names_ascend : ByteAscending ((f.configured probe).map Executable.name)

/-- Lazy discovery agrees with full discovery, for every file system and configured paths in
ascending order of their names. -/
theorem lazy_agrees (h : ByteAscending (f.additional.map Prod.fst)) : f.Searches probe where
  take_value n := by rw [Finder.take, takeFound_value, Finder.all, allFound_value]
  take_begins n := by
    obtain ⟨ran, rest, hsteps, hran⟩ := takeFound_runs n (f.steps probe)
    have hall : Ran (f.all probe) (ran ++ rest) := hsteps ▸ allFound_ran (f.steps probe)
    exact hran.begins hall
  take_stops n hit hhit := by
    rw [Finder.all, allFound_value] at hhit ⊢
    exact takeFound_stops hhit
  first_value := by
    rw [Finder.first, findFound_value, Finder.all, allFound_value]
    cases foundBy (f.steps probe) <;> rfl
  first_stops hit hhit := by
    rw [Finder.first, findFound_value] at hhit
    have hstops := findFound_stops hhit
    rwa [show ((foundBy (f.steps probe)).takeWhile fun exe => !true) = [] by
      cases foundBy (f.steps probe) <;> rfl] at hstops
  named_value name := by
    rw [Finder.named, findFound_value, Finder.all, allFound_value]
    rfl
  named_stops name hit hhit := by
    rw [Finder.named, findFound_value] at hhit
    rw [Finder.all, allFound_value]
    exact findFound_stops hhit
  installed exe hexe := by
    rw [all_value, List.mem_append] at hexe
    rcases hexe with hexe | hexe
    · obtain ⟨c, -, hc⟩ := List.mem_filterMap.1 hexe
      exact resolve_isFile hc
    · obtain ⟨a, -, ha⟩ := List.mem_filterMap.1 hexe
      exact (resolveAdditional_some ha).2
  ordered := f.all_value probe
  places_once := candidates_nodup f.platform.os
  names_ascend := h.sublist ((f.configured_names probe).map Text.utf8Bytes)

/-- The first of two configured runtimes of a Linux host comes third, behind the stable install
and the snap, and a search for it does not look at the second one. -/
theorem lazy_agrees_linux :
    let f : Finder :=
      ⟨⟨.linux, true, true⟩, .none, [("Daily", "'/opt/daily/pwsh'"), ("Old", "/opt/old")]⟩
    let probe : Probe :=
      ⟨fun p => p.text ∈ ["/usr/bin/pwsh", "/snap/bin/pwsh", "/opt/daily/pwsh"], fun _ => false,
        fun _ => none⟩
    ByteAscending (f.additional.map Prod.fst) ∧
      (f.all probe).value.map (fun exe => exe.path.text) =
        ["/usr/bin/pwsh", "/snap/bin/pwsh", "/opt/daily/pwsh"] ∧
      (f.named probe "DAILY").value = (f.all probe).value[2]? ∧
      (f.named probe "DAILY").warnings = [] ∧
      (f.all probe).warnings = [missingWarning "Old" ⟨"/opt/old"⟩] := by
  intro f probe
  have hnames : ByteAscending (f.additional.map Prod.fst) := by decide +kernel
  have hagree := lazy_agrees f probe hnames
  refine ⟨hnames, by decide +kernel, ?_, by decide +kernel, by decide +kernel⟩
  rw [hagree.named_value]
  decide +kernel

end Finder

end SessionHost.Discovery
