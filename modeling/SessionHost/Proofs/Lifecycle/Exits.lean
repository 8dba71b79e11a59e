import SessionHost.Proofs.Lifecycle.Supervision

/-!
# Exits of consoles

The exit of a console reaches its process once, and only once the console belongs to it.  What a
process knows of its exit therefore never changes, and it is what the console has reported,
unless the process was disposed of before.

Main definitions:

- `Outcome`, `Report`: what a process knows of its exit, and what a console says of it.
- `Exits`: the exits of processes and consoles.
- `Outline.Lasts`: what lasts of the processes.

Main results:

- Theorem `Rule.exits`: every rule keeps the exits.
- Theorem `Rule.lasts`: what a process knows of its exit does not change.
-/

namespace SessionHost

/-! ## Exits as processes and consoles know them -/

/-- What a process knows of its exit. -/
structure Outcome where
  exit : Option ConsoleExit
  console : Option Nat
  disposed : Bool

/-- What a console says of its exit. -/
structure Report where
  owner : Nat
  watched : Bool
  passedOn : Bool
  ending : Option Ending

def ServerProcess.outcome (q : ServerProcess) : Outcome := ⟨q.exit, q.console, q.disposed⟩

def Console.report (k : Console) : Report := ⟨k.owner, k.watched, k.passedOn, k.ending⟩

/-- The exits that the processes know of. -/
def Outline.outcomes (o : Outline) : List Outcome := o.processes.map ServerProcess.outcome

/-- The exits that the consoles report. -/
def Outline.reports (o : Outline) : List Report := o.consoles.map Console.report

/-- The outcome of a process is read off the process. -/
theorem Outline.outcomes_of_some {o : Outline} {p : Nat} {q : ServerProcess}
    (h : o.processes[p]? = some q) : o.outcomes[p]? = some q.outcome := by
  simp [outcomes, h]

/-- What a console has reported is read off the console. -/
theorem Outline.reports_of_some {o : Outline} {c : Nat} {k : Console}
    (h : o.consoles[c]? = some k) : o.reports[c]? = some k.report := by
  simp [reports, h]

/-- Every report is that of a console. -/
theorem Outline.exists_of_report {o : Outline} {c : Nat} {x : Report}
    (h : o.reports[c]? = some x) : ∃ k, o.consoles[c]? = some k ∧ k.report = x := by
  simpa [reports] using h

/-- What a console is told does not change what it says of its exit. -/
theorem Outline.tell_reports (o : Outline) (c : Nat) (command : ConsoleCommand) :
    (o.tell c command).reports = o.reports :=
  map_modify_of_eq (fun k => by cases command <;> rfl) o.consoles c

/-- The exit of a process that is disposed of. -/
def Outcome.retired (b : Outcome) : Outcome where
  exit := if b.console.isSome then b.exit else b.exit.orElse fun _ => some .silent
  console := none
  disposed := true

/-- The exits of processes and consoles. -/
structure Exits (o : Outline) : Prop where
  passed : ∀ {c : Nat} {x : Report}, o.reports[c]? = some x → x.passedOn = true →
    x.watched = true ∧ ∃ e, x.ending = some e
  watched : ∀ {c : Nat} {x : Report}, o.reports[c]? = some x → x.watched = true →
    ∃ b, o.outcomes[x.owner]? = some b ∧ (b.disposed = true ∨ b.console = some c)
  pending : ∀ {c : Nat} {x : Report} {b : Outcome}, o.reports[c]? = some x → x.watched = true →
    x.passedOn = false → o.outcomes[x.owner]? = some b → b.exit = none
  reported : ∀ {p : Nat} {b : Outcome} {e : ConsoleExit}, o.outcomes[p]? = some b →
    b.exit = some e → b.disposed = true ∨ ∃ (c : Nat) (x : Report) (n : Ending),
      o.reports[c]? = some x ∧ x.owner = p ∧ x.passedOn = true ∧ x.ending = some n ∧ n.exit = e

namespace Exits

variable {o o' : Outline}

/-- The exits depend on processes and consoles. -/
theorem of_eq (w : Exits o) (hb : o'.outcomes = o.outcomes) (hr : o'.reports = o.reports) :
    Exits o' where
  passed h := w.passed (hr ▸ h)
  watched h hx := by
    rw [hb]
    exact w.watched (hr ▸ h) hx
  pending h hx hp hb' := w.pending (hr ▸ h) hx hp (hb ▸ hb')
  reported h he := by
    rw [hr]
    exact w.reported (hb ▸ h) he

/-- A console that has not ended has passed on no exit. -/
theorem passedOn_eq_false (w : Exits o) {c : Nat} {x : Report} (hc : o.reports[c]? = some x)
    (hx : x.ending = none) : x.passedOn = false := by
  cases h : x.passedOn with
  | false => rfl
  | true =>
    obtain ⟨-, e, he⟩ := w.passed hc h
    rw [hx] at he
    cases he

/-- A process that knows of its exit has a console that was watched before. -/
theorem exit_eq_none (w : Exits o) {c : Nat} {b : Outcome} {x : Report}
    (hp : o.outcomes[x.owner]? = some b) (hd : b.disposed = false) (hc : o.reports[c]? = some x)
    (hx : x.watched = false)
    (hsingle : ∀ {j : Nat} {y : Report}, o.reports[j]? = some y → y.owner = x.owner → j = c) :
    b.exit = none := by
  cases he : b.exit with
  | none => rfl
  | some e =>
    rcases w.reported hp he with h | ⟨j, y, n, hy, hyo, hpass, -⟩
    · rw [hd] at h
      cases h
    · obtain rfl := hsingle hy hyo
      rw [hc, Option.some.injEq] at hy
      subst hy
      rw [(w.passed hc hpass).1] at hx
      cases hx

/-- A process is disposed of. -/
theorem retire (w : Exits o) {p : Nat} {b : Outcome} (hp : o.outcomes[p]? = some b)
    (hd : b.disposed = false) (hb : o'.outcomes = o.outcomes.set p b.retired)
    (hr : o'.reports = o.reports) : Exits o' where
  passed h := w.passed (hr ▸ h)
  watched {c x} h hx := by
    rw [hr] at h
    rw [hb]
    obtain ⟨b', hb', hor⟩ := w.watched h hx
    rcases getElem?_set_or hp hb' b.retired with ⟨heq, -⟩ | hb'
    · exact ⟨b.retired, heq ▸ getElem?_set_at hp _, .inl rfl⟩
    · exact ⟨b', hb', hor⟩
  pending {c x b'} h hx hpass hb' := by
    rw [hr] at h
    rw [hb] at hb'
    rcases getElem?_set_cases hb' with ⟨heq, rfl⟩ | ⟨-, hb'⟩
    · obtain ⟨b', hb'', hor⟩ := w.watched h hx
      rw [heq, hp, Option.some.injEq] at hb''
      subst hb''
      have hnone : b.exit = none := w.pending h hx hpass (heq ▸ hp)
      rcases hor with hdis | hc
      · rw [hd] at hdis
        cases hdis
      · simp [Outcome.retired, hc, hnone]
    · exact w.pending h hx hpass hb'
  reported {p' b' e} h he := by
    rw [hb] at h
    rw [hr]
    rcases getElem?_set_cases h with ⟨-, rfl⟩ | ⟨-, h⟩
    · exact .inl rfl
    · exact w.reported h he

/-- A disposal keeps exits what they are. -/
theorem dispose (w : Exits o) (p : Nat) : Exits (o.dispose p) := by
  rcases o.dispose_cases p with h | ⟨q, hq, hd, h⟩
  · rwa [h]
  · rw [h]
    refine w.retire (Outline.outcomes_of_some hq) hd ?_ ?_
    · simp only [Outline.retire, Outline.outcomes, List.map_set]
      rfl
    · simp only [Outline.retire, Outline.reports]
      cases q.console with
      | none => rfl
      | some c => exact o.tell_reports c .kill

/-- A new process knows of no exit. -/
theorem create (w : Exits o) {b : Outcome} (he : b.exit = none)
    (hb : o'.outcomes = o.outcomes ++ [b]) (hr : o'.reports = o.reports) : Exits o' where
  passed h := w.passed (hr ▸ h)
  watched h hx := by
    obtain ⟨b', hb', hor⟩ := w.watched (hr ▸ h) hx
    rw [hb]
    exact ⟨b', getElem?_append_of_some hb' b, hor⟩
  pending {c x b'} h hx hp hb' := by
    rw [hb] at hb'
    rcases getElem?_append_cases hb' with hb' | ⟨-, rfl⟩
    · exact w.pending (hr ▸ h) hx hp hb'
    · exact he
  reported {p b' e} h he' := by
    rw [hb] at h
    rw [hr]
    rcases getElem?_append_cases h with h | ⟨-, rfl⟩
    · exact w.reported h he'
    · rw [he] at he'
      cases he'

/-- A console that was just launched says nothing. -/
theorem launch (w : Exits o) {x : Report} (hx : x.watched = false) (hp : x.passedOn = false)
    (hb : o'.outcomes = o.outcomes) (hr : o'.reports = o.reports ++ [x]) : Exits o' where
  passed {c y} h hy := by
    rw [hr] at h
    rcases getElem?_append_cases h with h | ⟨-, rfl⟩
    · exact w.passed h hy
    · rw [hp] at hy
      cases hy
  watched {c y} h hy := by
    rw [hr] at h
    rw [hb]
    rcases getElem?_append_cases h with h | ⟨-, rfl⟩
    · exact w.watched h hy
    · rw [hx] at hy
      cases hy
  pending {c y b} h hy hpass hb' := by
    rw [hr] at h
    rw [hb] at hb'
    rcases getElem?_append_cases h with h | ⟨-, rfl⟩
    · exact w.pending h hy hpass hb'
    · rw [hx] at hy
      cases hy
  reported {p b e} h he := by
    rw [hr]
    rcases w.reported (hb ▸ h) he with h | ⟨c, y, n, hy, hrest⟩
    · exact .inl h
    · exact .inr ⟨c, y, n, getElem?_append_of_some hy x, hrest⟩

/-- A console belongs to its process from now on. -/
theorem hold (w : Exits o) {p c : Nat} {b : Outcome} {x : Report} (hp : o.outcomes[p]? = some b)
    (hd : b.disposed = false) (hc : o.reports[c]? = some x) (hx : x.watched = false)
    (ho : x.owner = p)
    (hsingle : ∀ {j : Nat} {y : Report}, o.reports[j]? = some y → y.owner = p → j = c)
    (hb : o'.outcomes = o.outcomes.set p { b with console := some c })
    (hr : o'.reports = o.reports.set c { x with watched := true }) : Exits o' := by
  subst ho
  have hexit : b.exit = none := w.exit_eq_none hp hd hc hx hsingle
  have hother : ∀ {j : Nat} {y : Report}, o'.reports[j]? = some y → j ≠ c →
      o.reports[j]? = some y ∧ y.owner ≠ x.owner := by
    intro j y hj hne
    rw [hr] at hj
    rcases getElem?_set_cases hj with ⟨rfl, -⟩ | ⟨-, hj⟩
    · exact absurd rfl hne
    · exact ⟨hj, fun h => hne (hsingle hj h)⟩
  have hself : o'.reports[c]? = some { x with watched := true } := by
    rw [hr]
    exact getElem?_set_at hc _
  constructor
  case passed =>
    intro j y hj hy
    by_cases hne : j = c
    · subst hne
      rw [hself, Option.some.injEq] at hj
      subst hj
      exact ⟨rfl, (w.passed hc hy).2⟩
    · exact w.passed (hother hj hne).1 hy
  case watched =>
    intro j y hj hy
    rw [hb]
    by_cases hne : j = c
    · subst hne
      rw [hself, Option.some.injEq] at hj
      subst hj
      exact ⟨_, getElem?_set_at hp _, .inr rfl⟩
    · obtain ⟨hj, hyo⟩ := hother hj hne
      rw [List.getElem?_set_ne (Ne.symm hyo)]
      exact w.watched hj hy
  case pending =>
    intro j y b' hj hy hpass hb'
    rw [hb] at hb'
    by_cases hne : j = c
    · subst hne
      rw [hself, Option.some.injEq] at hj
      subst hj
      rw [getElem?_set_at hp, Option.some.injEq] at hb'
      subst hb'
      exact hexit
    · obtain ⟨hj, hyo⟩ := hother hj hne
      rw [List.getElem?_set_ne (Ne.symm hyo)] at hb'
      exact w.pending hj hy hpass hb'
  case reported =>
    intro p' b' e h he
    rw [hb] at h
    rcases getElem?_set_cases h with ⟨-, rfl⟩ | ⟨hne, h⟩
    · rw [hexit] at he
      cases he
    · rcases w.reported h he with h | ⟨j, y, n, hy, hyo, hrest⟩
      · exact .inl h
      · have hjc : j ≠ c := by
          rintro rfl
          rw [hc, Option.some.injEq] at hy
          exact hne (by rw [← hyo, ← hy])
        refine .inr ⟨j, y, n, ?_, hyo, hrest⟩
        rw [hr, List.getElem?_set_ne (Ne.symm hjc)]
        exact hy

/-- A console ends. -/
theorem ending (w : Exits o) {c : Nat} {x : Report} {n : Ending} (hc : o.reports[c]? = some x)
    (hx : x.ending = none) (hb : o'.outcomes = o.outcomes)
    (hr : o'.reports = o.reports.set c { x with ending := some n }) : Exits o' := by
  have hpass : x.passedOn = false := w.passedOn_eq_false hc hx
  have hback : ∀ {j : Nat} {y : Report}, o'.reports[j]? = some y → ∃ z, o.reports[j]? = some z ∧
      y.owner = z.owner ∧ y.watched = z.watched ∧ y.passedOn = z.passedOn ∧
      (y.passedOn = true → y = z) := by
    intro j y hj
    rw [hr] at hj
    rcases getElem?_set_cases hj with ⟨rfl, rfl⟩ | ⟨-, hj⟩
    · exact ⟨x, hc, rfl, rfl, rfl, fun h => by rw [hpass] at h; cases h⟩
    · exact ⟨y, hj, rfl, rfl, rfl, fun _ => rfl⟩
  constructor
  case passed =>
    intro j y hj hy
    obtain ⟨z, hz, -, -, -, h⟩ := hback hj
    obtain rfl := h hy
    exact w.passed hz hy
  case watched =>
    intro j y hj hy
    obtain ⟨z, hz, ho, hw, -⟩ := hback hj
    rw [hb, ho]
    exact w.watched hz (hw ▸ hy)
  case pending =>
    intro j y b hj hy hp hb'
    obtain ⟨z, hz, ho, hw, hpz, -⟩ := hback hj
    rw [hb, ho] at hb'
    exact w.pending hz (hw ▸ hy) (hpz ▸ hp) hb'
  case reported =>
    intro p b e h he
    rcases w.reported (hb ▸ h) he with h | ⟨j, y, m, hy, hyo, hyp, hrest⟩
    · exact .inl h
    · refine .inr ⟨j, y, m, ?_, hyo, hyp, hrest⟩
      rw [hr]
      rcases getElem?_set_or hc hy { x with ending := some n } with ⟨-, rfl⟩ | hy
      · rw [hpass] at hyp
        cases hyp
      · exact hy

/-- The exit of a console reaches its process. -/
theorem passOn (w : Exits o) {c : Nat} {x : Report} {b : Outcome} {n : Ending}
    (hc : o.reports[c]? = some x) (hw : x.watched = true) (hpass : x.passedOn = false)
    (hn : x.ending = some n) (hp : o.outcomes[x.owner]? = some b)
    (hsingle : ∀ {j : Nat} {y : Report}, o.reports[j]? = some y → y.owner = x.owner → j = c)
    (hb : o'.outcomes = o.outcomes.set x.owner { b with exit := some n.exit })
    (hr : o'.reports = o.reports.set c { x with passedOn := true }) : Exits o' := by
  have hself : o'.reports[c]? = some { x with passedOn := true } := by
    rw [hr]
    exact getElem?_set_at hc _
  have hback : ∀ {j : Nat} {y : Report}, o'.reports[j]? = some y →
      (j = c ∧ y = { x with passedOn := true }) ∨ (y.owner ≠ x.owner ∧ o.reports[j]? = some y) := by
    intro j y hj
    rw [hr] at hj
    rcases getElem?_set_cases hj with h | ⟨hne, hj⟩
    · exact .inl h
    · exact .inr ⟨fun h => hne (hsingle hj h), hj⟩
  constructor
  case passed =>
    intro j y hj hy
    rcases hback hj with ⟨-, rfl⟩ | ⟨-, hj⟩
    · exact ⟨hw, n, hn⟩
    · exact w.passed hj hy
  case watched =>
    intro j y hj hy
    rw [hb]
    rcases hback hj with ⟨rfl, rfl⟩ | ⟨hne, hj⟩
    · obtain ⟨b', hb', hor⟩ := w.watched hc hw
      rw [hp, Option.some.injEq] at hb'
      subst hb'
      exact ⟨_, getElem?_set_at hp _, hor⟩
    · rw [List.getElem?_set_ne (Ne.symm hne)]
      exact w.watched hj hy
  case pending =>
    intro j y b' hj hy hpy hb'
    rcases hback hj with ⟨-, rfl⟩ | ⟨hne, hj⟩
    · cases hpy
    · rw [hb, List.getElem?_set_ne (Ne.symm hne)] at hb'
      exact w.pending hj hy hpy hb'
  case reported =>
    intro p b' e h he
    rw [hb] at h
    rcases getElem?_set_cases h with ⟨rfl, rfl⟩ | ⟨-, h⟩
    · exact .inr ⟨c, _, n, hself, rfl, rfl, hn, by simpa using he⟩
    · rcases w.reported h he with h | ⟨j, y, m, hy, hyo, hyp, hrest⟩
      · exact .inl h
      · refine .inr ⟨j, y, m, ?_, hyo, hyp, hrest⟩
        rw [hr]
        rcases getElem?_set_or hc hy { x with passedOn := true } with ⟨-, rfl⟩ | hy
        · rw [hpass] at hyp
          cases hyp
        · exact hy

end Exits

/-! ## Every rule keeps the exits -/

/-- A process has one console, as its reports tell. -/
theorem Supervision.report_single {o : Outline} (v : Supervision o) {j c : Nat} {x y : Report}
    (hj : o.reports[j]? = some y) (hc : o.reports[c]? = some x) (h : y.owner = x.owner) :
    j = c := by
  obtain ⟨k, hk, rfl⟩ := Outline.exists_of_report hj
  obtain ⟨k', hk', rfl⟩ := Outline.exists_of_report hc
  exact v.single (Outline.marks_of_some hk) (Outline.marks_of_some hk') h

/-- Every rule keeps the exits. -/
theorem Rule.exits {a : Actor} {o o' : Outline} (h : Rule a o o') (v : Supervision o)
    (w : Exits o) : Exits o' := by
  cases h with
  | drop hr h => exact (w.dispose _).of_eq rfl rfl
  | endDebug h => exact (w.dispose _).of_eq rfl rfl
  | dropWatch hx hv => exact (w.dispose _).of_eq rfl rfl
  | @createMain _ i g q hr hq =>
    have he : q.outcome.exit = none := hq.exit_eq
    exact w.create he (by simp [Outline.outcomes, Outline.setRole]) rfl
  | @createDebug _ i q hr hq =>
    have he : q.outcome.exit = none := hq.exit_eq
    exact w.create he (by simp [Outline.outcomes, Outline.setRole]) rfl
  | adopt hr hq h =>
    rw [Outline.watchExit]
    split
    · exact w.of_eq rfl rfl
    · exact w.of_eq (map_set_of_eq hq rfl) rfl
  | @launch _ i p u q hr hq h =>
    have hnew : ({ owner := p } : Console).report.watched = false := rfl
    exact w.launch hnew rfl rfl (by simp [Outline.reports, Outline.setRole])
  | @hold _ i p c u q k n hr hq h hk ha =>
    obtain ⟨⟨b, hb, hnone⟩, m, hm, ho, -, hwatched⟩ := v.answering hr rfl
    rw [Outline.bonds_of_some hq, Option.some.injEq] at hb
    subst hb
    rw [Outline.marks_of_some hk, Option.some.injEq] at hm
    subst hm
    have hconsole : q.console = none := hnone
    refine w.hold (Outline.outcomes_of_some hq) h (Outline.reports_of_some hk) hwatched ho
      (fun hj hjo => ?_) ?_ ?_
    · exact v.report_single hj (Outline.reports_of_some hk) (hjo.trans ho.symm)
    · simp only [Outline.outcomes, Outline.setRole, Outline.hold, List.map_set]
      rfl
    · simp only [Outline.reports, Outline.setRole, Outline.hold, hconsole]
      rw [modify_eq_set_of_some hk, List.map_set]
      rfl
  | dismiss hr hq h => exact w.of_eq rfl (o.tell_reports _ _)
  | write c h => exact w.of_eq rfl (o.tell_reports _ _)
  | answer hk h => exact w.of_eq rfl (map_set_of_eq hk rfl)
  | @ending _ c k e hk h =>
    have hr : { o with consoles := o.consoles.set c { k with ending := some e } }.reports =
        o.reports.set c { k.report with ending := some e } := by
      simp only [Outline.reports, List.map_set]
      rfl
    exact w.ending (Outline.reports_of_some hk) h rfl hr
  | passOn hk hq he hw hp =>
    refine w.passOn (Outline.reports_of_some hk) hw hp he (Outline.outcomes_of_some hq)
      (fun hj hjo => ?_) ?_ ?_
    · exact v.report_single hj (Outline.reports_of_some hk) hjo
    · simp only [Outline.outcomes, List.map_set]
      rfl
    · simp only [Outline.reports, List.map_set]
      rfl
  | endStop hr | endFailed hr | conclude hr h v =>
    rw [Outline.transition]
    split <;> exact w.of_eq rfl rfl
  | withdraw hr => split <;> exact w.of_eq rfl rfl
  | _ => exact w.of_eq rfl rfl

/-! ## What lasts -/

/-- What a process knows of its exit does not change, and neither does what it is for or the plan of
its launch. -/
def Outline.Lasts (o o' : Outline) : Prop :=
  ∀ (p : Nat) (q : ServerProcess), o.processes[p]? = some q →
    ∃ q', o'.processes[p]? = some q' ∧ (q'.purpose = q.purpose ∧ q'.plan = q.plan) ∧
      ∀ e, q.exit = some e → q'.exit = some e

namespace Outline.Lasts

variable {o o' : Outline}

theorem of_eq (h : o'.processes = o.processes) : o.Lasts o' := fun _ q hq =>
  ⟨q, h ▸ hq, ⟨rfl, rfl⟩, fun _ => id⟩

/-- What lasts twice lasts. -/
theorem trans {o'' : Outline} (h : o.Lasts o') (h' : o'.Lasts o'') : o.Lasts o'' := by
  intro p q hq
  obtain ⟨q', hq', ⟨hp', hl'⟩, he'⟩ := h p q hq
  obtain ⟨q'', hq'', ⟨hp'', hl''⟩, he''⟩ := h' p q' hq'
  exact ⟨q'', hq'', ⟨hp''.trans hp', hl''.trans hl'⟩, fun e he => he'' e (he' e he)⟩

/-- A new process changes no exit. -/
theorem append {q : ServerProcess} (h : o'.processes = o.processes ++ [q]) : o.Lasts o' :=
  fun _ q' hq' => ⟨q', h ▸ getElem?_append_of_some hq' q, ⟨rfl, rfl⟩, fun _ => id⟩

/-- A change of a process that keeps its exit lets exits last. -/
theorem set {p : Nat} {q q' : ServerProcess} (hq : o.processes[p]? = some q)
    (h : o'.processes = o.processes.set p q')
    (hgiven : q'.purpose = q.purpose ∧ q'.plan = q.plan)
    (hexit : ∀ e, q.exit = some e → q'.exit = some e) : o.Lasts o' := by
  intro _ x hx
  rw [h]
  rcases getElem?_set_or hq hx q' with ⟨rfl, rfl⟩ | hx
  · exact ⟨q', getElem?_set_at hq q', hgiven, hexit⟩
  · exact ⟨x, hx, ⟨rfl, rfl⟩, fun _ => id⟩

theorem dispose (o : Outline) (p : Nat) : o.Lasts (o.dispose p) := by
  rcases o.dispose_cases p with h | ⟨q, hq, hd, h⟩
  · exact of_eq (by rw [h])
  · have hset : (o.dispose p).processes = o.processes.set p q.retired := by rw [h]; rfl
    refine set hq hset ⟨rfl, rfl⟩ fun e he => ?_
    simp [ServerProcess.retired, he]

end Outline.Lasts

/-- What a process knows of its exit does not change, and neither does what it was given. -/
theorem Rule.lasts {a : Actor} {o o' : Outline} (h : Rule a o o') (w : Exits o) : o.Lasts o' := by
  cases h with
  | drop hr h => exact Outline.Lasts.dispose o _
  | endDebug h => exact Outline.Lasts.dispose o _
  | dropWatch hx hv => exact Outline.Lasts.dispose o _
  | createMain hr hq => exact .append rfl
  | createDebug hr hq => exact .append rfl
  | adopt hr hq h =>
    rw [Outline.watchExit]
    split
    · exact .of_eq rfl
    · exact .set hq rfl ⟨rfl, rfl⟩ fun _ => id
  | hold hr hq h hk ha => exact .set hq rfl ⟨rfl, rfl⟩ fun _ => id
  | passOn hk hq he hw hp =>
    refine .set hq rfl ⟨rfl, rfl⟩ fun e hexit => ?_
    have hnone : ServerProcess.exit _ = none :=
      w.pending (Outline.reports_of_some hk) hw hp (Outline.outcomes_of_some hq)
    rw [hnone] at hexit
    cases hexit
  | endStop hr | endFailed hr | conclude hr h v =>
    rw [Outline.transition]
    split <;> exact .of_eq rfl
  | withdraw hr => split <;> exact .of_eq rfl
  | _ => exact .of_eq rfl

end SessionHost
