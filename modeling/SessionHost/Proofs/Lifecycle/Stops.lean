import SessionHost.Proofs.Ledger.Changes
import SessionHost.Proofs.Lifecycle.Moments
import SessionHost.Proofs.Lifecycle.Storage

/-!
# The way of a stop

A call that stops the session does so before everything else: from its first piece on, the session
is empty already, or the status stands for a stop until it is.  When the stop returns, everything
up to the generation that it has found has left the session for good.

Main definitions:

- `Job.MayStop`: the call may still come to a stop.
- `World.StopUnderWay`: how far a stop's call is, and what holds of the session meanwhile.
- `World.StopReturns`: a stop is about to return, not because its time for waiting is over.

Main results:

- Theorem `World.StopUnderWay.step`: every move leaves the call at a place that fits the session.
- Theorem `World.StopUnderWay.swept`: a stop that returns has swept the session.
-/

namespace SessionHost

/-- An activity with a continuation waits in its own part or in what follows. -/
theorem Progress.andThen_eq_going {ω σ τ α β : Type} {p : Progress ω σ α} {wrap : σ → τ}
    {next : ω → α → Progress ω τ β} {w : ω} {t : τ} (h : p.andThen wrap next = .going w t) :
    (∃ s, p = .going w s ∧ wrap s = t) ∨
      ∃ u a, p = .finished u a ∧ next u a = .going w t := by
  cases p with
  | blocked => cases h
  | going u s =>
    cases h
    exact .inl ⟨s, rfl, rfl⟩
  | finished u a => exact .inr ⟨u, a, rfl, h⟩

namespace World

variable {u v w : World}

/-! ## A stop and its call -/

/-- A part of a call waits where its first piece has led. -/
theorem beginPhase_going {p : Phase} {place : PhasePlace} (h : w.beginPhase p = .going v place) :
    (p = .stop ∧ ∃ q, place = .stopping q ∧ w.beginStop = .going v q) ∨
      ∃ name q, p = .start name ∧ place = .starting q ∧ w.beginStart name = .going v q := by
  cases p with
  | announce name => cases h
  | stop =>
    obtain ⟨q, hq, rfl⟩ | ⟨u, r, -, hnext⟩ := Progress.andThen_eq_going h
    · exact .inl ⟨rfl, q, rfl, hq⟩
    · cases hnext
  | start name =>
    obtain ⟨q, hq, rfl⟩ | ⟨u, r, -, hnext⟩ := Progress.andThen_eq_going h
    · exact .inr ⟨name, q, rfl, rfl, hq⟩
    · cases hnext
  | settle => cases h

/-- The parts of a call run up to one that waits. -/
theorem runPhases_going {next : List Phase} {job : Job} (h : w.runPhases next = .going v job) :
    ∃ p rest place u, job = .phased place rest ∧ p :: rest <:+ next ∧
      World.beginPhase u p = .going v place := by
  induction next generalizing w with
  | nil => cases h
  | cons p rest ih =>
    rw [runPhases_cons] at h
    obtain ⟨place, hbegin, rfl⟩ | ⟨u, r, -, hafter⟩ := Progress.andThen_eq_going h
    · exact ⟨p, rest, place, w, rfl, List.suffix_refl _, hbegin⟩
    · cases r with
      | done =>
        obtain ⟨p', rest', place, u', hjob, hsuffix, hbegin⟩ := ih hafter
        exact ⟨p', rest', place, u', hjob, hsuffix.trans (List.suffix_cons _ _), hbegin⟩
      | aborted => cases hafter

/-- A stop waits for nothing but its lock, or the status stands for a stop. -/
theorem beginStop_going {q : Stopping} (h : w.beginStop = .going v q) :
    (q = .endingDebug ∧ v.status = .notStarted) ∨ (q ≠ .endingDebug ∧ v.status = .stopping) := by
  have hclaim : ((w.setStatus .stopping).cancel (.start w.generation)).status = .stopping :=
    congrArg Outline.status (w.outline_setStatus .stopping)
  unfold beginStop at h
  generalize w.beginWait? = wait? at h
  cases hs : w.status with
  | notStarted =>
    rw [hs] at h
    cases h
    exact .inl ⟨rfl, hs⟩
  | stopping =>
    rw [hs] at h
    cases wait? with
    | none => cases h
    | some p =>
      cases h
      exact .inr ⟨by simp, hs⟩
  | _ =>
    rw [hs] at h
    cases h
    exact .inr ⟨by simp, hclaim⟩

/-- The end of a stop comes without a suspension. -/
theorem finishStop_ne_going {p d : Option Nat} {q : Stopping} :
    w.finishStop p d ≠ .going v q := by
  simp [finishStop]

/-- A stop that has seen something to stop goes on with that. -/
theorem stop_going {place q : Stopping} (h : w.stop place = .going v q) : q ≠ .endingDebug := by
  cases place with
  | waiting p =>
    obtain ⟨p', -, rfl⟩ | ⟨u, r, -, hnext⟩ := Progress.andThen_eq_going h
    · simp
    · cases hnext
  | endingDebug => cases h
  | taking =>
    simp only [stop] at h
    split at h
    · exact absurd h finishStop_ne_going
    · split at h
      · exact absurd h finishStop_ne_going
      · cases h
        simp
  | closing c p d s =>
    obtain ⟨s', -, rfl⟩ | ⟨u, r, -, hnext⟩ := Progress.andThen_eq_going h
    · simp
    · exact absurd hnext finishStop_ne_going

/-- When a stop is over, the status is no longer its own. -/
theorem finishStop_status {p d : Option Nat} {r : PhaseEnd} (h : w.finishStop p d = .finished v r) :
    v.status ≠ .stopping := by
  unfold finishStop at h
  cases h
  generalize (disposeAny _ p) = u
  have hout := congrArg Outline.status (u.outline_transition u.generation [.stopping] .notStarted)
  intro hs
  rw [show (u.transition u.generation [.stopping] .notStarted).1.outline.status = .stopping from hs]
    at hout
  by_cases hu : u.status = .stopping
  · rw [Outline.transition, if_pos ⟨rfl, by simp [outline, hu]⟩] at hout
    cases hout
  · rw [Outline.transition, if_neg (by simp [outline, hu])] at hout
    exact hu hout.symm

/-- A stop that returns without having given up leaves no stop under way. -/
theorem stop_status {place : Stopping} {r : PhaseEnd} (h : w.stop place = .finished v r)
    (hwait : ∀ p, place = .waiting p → p.looks ≠ 0) (hplace : place ≠ .endingDebug) :
    v.status ≠ .stopping := by
  cases place with
  | waiting p =>
    have hlooks : p.looks ≠ 0 := hwait p rfl
    obtain ⟨n, wake⟩ := p
    obtain ⟨k, rfl⟩ := Nat.exists_eq_succ_of_ne_zero hlooks
    simp only [stop, wait, look] at h
    split at h
    · split at h
      · cases h
      · rename_i hs
        cases h
        intro hv
        rw [hv] at hs
        exact hs rfl
    · cases h
  | endingDebug => exact absurd rfl hplace
  | taking =>
    simp only [stop] at h
    split at h
    · exact finishStop_status h
    · split at h
      · exact finishStop_status h
      · cases h
  | closing c p d s =>
    simp only [stop] at h
    cases hs : w.onClient c fun k => s.step w.now k with
    | blocked | going =>
      rw [hs] at h
      cases h
    | finished u b =>
      rw [hs] at h
      exact finishStop_status h

end World

/-- The call may still come to a stop. -/
def Job.MayStop : Job → Prop
  | .fresh _ => True
  | .phased (.stopping _) _ => True
  | .phased (.starting _) next => .stop ∈ next
  | _ => False

/-- A call stops first of all: once it has waited for something, it comes to no stop. -/
def StopsFirst (next : List Phase) : Prop :=
  ∀ p rest, p :: rest <:+ next → (p = .stop ∨ ∃ name, p = .start name) → .stop ∉ rest

theorem StopsFirst.cons {next : List Phase} (h : .stop ∉ next) (p : Phase) :
    StopsFirst (p :: next) := by
  intro p' rest hsuffix _ hrest
  rcases List.suffix_cons_iff.1 hsuffix with heq | hsuffix
  · cases heq
    exact h hrest
  · exact h (hsuffix.subset (List.mem_cons_of_mem _ hrest))

/-- Parts without a stop have none behind another part. -/
theorem StopsFirst.of_not_mem {next : List Phase} (h : .stop ∉ next) : StopsFirst next :=
  fun _ _ hsuffix _ hrest => h (hsuffix.subset (List.mem_cons_of_mem _ hrest))

theorem StopsFirst.announce {next : List Phase} (h : StopsFirst next) (name : String) :
    StopsFirst (.announce name :: next) := by
  intro p rest hsuffix hp
  rcases List.suffix_cons_iff.1 hsuffix with heq | hsuffix
  · cases heq
    rcases hp with hp | ⟨_, hp⟩ <;> cases hp
  · exact h p rest hsuffix hp

namespace World

variable {u v w : World}

/-- A call waits for a stop when the status stands for one, or there is nothing to stop. -/
def AwaitsStop (v : World) (job : Job) : Prop :=
  ∃ q rest, job = .phased (.stopping q) rest ∧ .stop ∉ rest ∧
    ((q = .endingDebug ∧ v.status = .notStarted) ∨ (q ≠ .endingDebug ∧ v.status = .stopping))

/-- Parts come to a stop only if there is one among them. -/
theorem runPhases_mayStop {next : List Phase} {job : Job} (hnext : StopsFirst next)
    (h : w.runPhases next = .going v job) (hjob : job.MayStop) :
    .stop ∈ next ∧ v.AwaitsStop job := by
  obtain ⟨p, rest, place, u, rfl, hsuffix, hbegin⟩ := runPhases_going h
  rcases beginPhase_going hbegin with ⟨rfl, q, rfl, hstop⟩ | ⟨name, q, rfl, rfl, -⟩
  · have hrest := hnext _ _ hsuffix (.inl rfl)
    exact ⟨hsuffix.subset (List.mem_cons_self ..), q, rest, rfl, hrest, beginStop_going hstop⟩
  · exact absurd hjob (hnext _ _ hsuffix (.inr ⟨name, rfl⟩))

/-- The first piece of a call that is going to stop something waits for that. -/
theorem beginCall_mayStop {command : Command} {job : Job}
    (h : w.beginCall command = .going v job) (hjob : job.MayStop) : v.AwaitsStop job := by
  have hphases : ∀ next, StopsFirst next → w.runPhases next = .going v job → v.AwaitsStop job :=
    fun next hnext h => (runPhases_mayStop hnext h hjob).2
  cases command with
  | start => exact hphases _ (.of_not_mem (by simp)) h
  | stop => exact hphases _ (.cons (by simp) _) h
  | restart name => exact hphases _ (.cons (by simp) _) h
  | changeDefault name => exact hphases _ (.announce (.cons (by simp) _) _) h
  | startDebug name =>
    obtain ⟨q, -, rfl⟩ | ⟨u, r, -, hnext⟩ := Progress.andThen_eq_going h
    · exact absurd hjob id
    · cases hnext
  | launch p =>
    obtain ⟨q, -, rfl⟩ | ⟨u, r, -, hnext⟩ := Progress.andThen_eq_going h
    · exact absurd hjob id
    · cases hnext
  | openClient | askVersion | closeClient =>
    simp only [beginCall, beginExchange] at h
    split at h <;> cases h
    exact absurd hjob id
  | stopDebug =>
    cases h
    exact absurd hjob id
  | _ => cases h

/-- A call waits where its part does, or where a later part has led. -/
theorem call_phased_going {place : PhasePlace} {next : List Phase} {job : Job}
    (h : w.call (.phased place next) = .going v job) :
    (∃ place', w.phase place = .going v place' ∧ job = .phased place' next) ∨
      ∃ u, w.phase place = .finished u .done ∧ u.runPhases next = .going v job := by
  rw [call_phased] at h
  obtain ⟨place', hphase, rfl⟩ | ⟨u, r, hphase, hafter⟩ := Progress.andThen_eq_going h
  · exact .inl ⟨place', hphase, rfl⟩
  · cases r with
    | done => exact .inr ⟨u, hphase, hafter⟩
    | aborted => cases hafter

/-- A stop goes on, or comes to its end, after which its call stops nothing. -/
theorem call_stopping {place : Stopping} {next : List Phase} {job : Job} (hnext : .stop ∉ next)
    (h : w.call (.phased (.stopping place) next) = .going v job) (hjob : job.MayStop) :
    ∃ q, job = .phased (.stopping q) next ∧ q ≠ .endingDebug := by
  obtain ⟨place', hphase, rfl⟩ | ⟨u, -, hrun⟩ := call_phased_going h
  · obtain ⟨q, hstop, rfl⟩ | ⟨u, r, -, hdone⟩ := Progress.andThen_eq_going hphase
    · exact ⟨q, rfl, stop_going hstop⟩
    · cases hdone
  · exact absurd (runPhases_mayStop (.of_not_mem hnext) hrun hjob).1 hnext

/-- A call that comes to no stop any more never does. -/
theorem call_not_mayStop {job job' : Job} (h : w.call job = .going v job') (hjob : ¬job.MayStop) :
    ¬job'.MayStop := by
  intro hjob'
  cases job with
  | fresh command => exact hjob trivial
  | phased place next =>
    cases place with
    | stopping place => exact hjob trivial
    | starting place =>
      obtain ⟨place', hphase, rfl⟩ | ⟨u, -, hrun⟩ := call_phased_going h
      · obtain ⟨q, -, rfl⟩ | ⟨u, r, -, hdone⟩ := Progress.andThen_eq_going hphase
        · exact hjob hjob'
        · cases hdone
      · exact hjob (runPhases_mayStop (.of_not_mem hjob) hrun hjob').1
  | endingDebug => cases h
  | debugging | launching | asking | closing =>
    obtain ⟨q, -, rfl⟩ | ⟨u, r, -, hdone⟩ := Progress.andThen_eq_going h
    · exact hjob'
    · cases hdone
  | opening =>
    obtain ⟨q, -, rfl⟩ | ⟨u, r, -, hdone⟩ := Progress.andThen_eq_going h
    · exact hjob'
    · unfold endOpening at hdone
      split at hdone <;> cases hdone

/-- The work on the file system is done for no stop. -/
theorem performJob_mayStop {job job' : Job} {u : World} (h : w.performJob job = some (u, job')) :
    job.MayStop ↔ job'.MayStop := by
  cases performJob_prepares h <;> exact Iff.rfl

/-! ## From a stop's first piece to its end -/

/-- A call has been asked for while a generation was the present one, or an earlier one was; what
it stops is about to leave the session, or has left it. -/
structure StopUnderWay (g i : Nat) (w : World) : Prop where
  begun : g ≤ w.generation
  stage : ∃ c, w.calls[i]? = some c ∧ ∀ job, c = .active job → job.MayStop →
    (∃ command, job = .fresh command) ∨
      ∃ place next, job = .phased (.stopping place) next ∧ .stop ∉ next ∧ w.outline.Pending g ∧
        (place = .endingDebug → w.outline.Swept g)

/-- The session is swept or about to be when a call waits for a stop. -/
theorem AwaitsStop.pending {g : Nat} {job : Job} (h : w.AwaitsStop job) (s : Sound w.outline)
    (hg : g ≤ w.generation) :
    ∃ place next, job = .phased (.stopping place) next ∧ .stop ∉ next ∧ w.outline.Pending g ∧
      (place = .endingDebug → w.outline.Swept g) := by
  obtain ⟨q, rest, rfl, hrest, hstatus⟩ := h
  rcases hstatus with ⟨rfl, hs⟩ | ⟨hq, hs⟩
  · have hne : w.outline.status ≠ .starting := by
      simp [show w.outline.status = .notStarted from hs]
    have hswept : w.outline.Swept g := .of_vacant s.tenure (s.slots.idle hs) hne hg
    exact ⟨_, rest, rfl, hrest, .inr hswept, fun _ => hswept⟩
  · exact ⟨q, rest, rfl, hrest, .inl ⟨hs, hg⟩, fun h => absurd h hq⟩

/-- What a stop has still to take stays so, by the rule of the actors. -/
theorem pending_of_rule {g : Nat} {a : Actor} {o o' : Outline} (s : Sound o) (h : o.Pending g)
    (hrule : Rule a o o') : o'.Pending g :=
  hrule.pending s.tenure s.slots (hrule.sound s).tenure (hrule.sound s).slots h

/-- What a stop has swept away stays so, by the same rule. -/
theorem swept_of_rule {g : Nat} {a : Actor} {o o' : Outline} (s : Sound o) (h : o.Swept g)
    (hrule : Rule a o o') : o'.Swept g :=
  hrule.swept s.tenure s.slots h

/-- Every move leaves the call of a stop at a place that fits the session. -/
theorem StopUnderWay.step {g i : Nat} {m : Move} (h : w.move? m = some v)
    (hm : m.ofSession = true) (s : Sound w.outline) (hw : StopUnderWay g i w) :
    StopUnderWay g i v := by
  have hleads := move?_leads h hm s.tenure.inside s.present
  have s' : Sound v.outline := hleads.sound s
  have hbegun : g ≤ v.generation :=
    hleads.keeps_of_sound (P := fun o => g ≤ o.generation) s
      (fun _ ho hrule => Nat.le_trans ho hrule.generation_le) hw.begun
  have hpending : w.outline.Pending g → v.outline.Pending g :=
    hleads.keeps_of_sound s pending_of_rule
  have hswept : w.outline.Swept g → v.outline.Swept g :=
    hleads.keeps_of_sound s swept_of_rule
  obtain ⟨c, hc, hstage⟩ := hw.stage
  refine ⟨hbegun, ?_⟩
  rcases calls_of_move? h hm hc with hsame | rfl | rfl
  · refine ⟨c, hsame, fun job hjob hmay => ?_⟩
    rcases hstage job hjob hmay with hfresh | ⟨place, next, hplace, hnext, hp, hs⟩
    · exact .inl hfresh
    · exact .inr ⟨place, next, hplace, hnext, hpending hp, fun h => hswept (hs h)⟩
  · -- The call itself goes on.
    obtain ⟨job, hjob, ⟨u, job', hcall, rfl⟩ | ⟨u, r, hcall, rfl⟩⟩ := call?_cases h
    all_goals
      obtain rfl : c = .active job := Option.some.inj (hc.symm.trans hjob)
      have hcalls := w.call_calls job
      rw [hcall] at hcalls
      have hu : u.calls[i]? = some (.active job) := hcalls.symm ▸ hc
    · refine ⟨.active job', getElem?_set_at hu _, fun job'' hjob'' hmay => ?_⟩
      cases hjob''
      by_cases hold : job.MayStop
      · rcases hstage job rfl hold with ⟨command, rfl⟩ | ⟨place, next, rfl, hnext, hp, hs⟩
        · have hawaits : u.AwaitsStop job' := beginCall_mayStop hcall hmay
          exact .inr (AwaitsStop.pending (w := u.setCall i (.active job')) hawaits s' hbegun)
        · obtain ⟨q, rfl, hq⟩ := call_stopping hnext hcall hmay
          exact .inr ⟨q, next, rfl, hnext, hpending hp, fun h => absurd h hq⟩
      · exact absurd hmay (call_not_mayStop hcall hold)
    · refine ⟨.over r, getElem?_set_at hu _, fun job'' hjob'' => ?_⟩
      cases hjob''
  · obtain ⟨job, u, job', hjob, hperform, rfl⟩ := perform?_cases h
    obtain rfl : c = .active job := Option.some.inj (hc.symm.trans hjob)
    have hcalls : u.calls = w.calls := congrArg Ledger.calls (performJob_ledger hperform)
    have hu : u.calls[i]? = some (.active job) := hcalls.symm ▸ hc
    refine ⟨.active job', getElem?_set_at hu _, fun job'' hjob'' hmay => ?_⟩
    cases hjob''
    have hold : job.MayStop := (performJob_mayStop hperform).2 hmay
    rcases hstage job rfl hold with ⟨command, rfl⟩ | ⟨place, next, rfl, -⟩
    · cases hperform
    · cases hperform

/-- A stop returns, and not because it has looked at the status for the last time. -/
def StopReturns (w : World) (i : Nat) : Prop :=
  ∃ place next u, w.calls[i]? = some (.active (.phased (.stopping place) next)) ∧
    w.stop place = .finished u .done ∧ ∀ p, place = .waiting p → p.looks ≠ 0

/-- A stop that has come to its end has swept the session. -/
theorem swept_of_stop {g i : Nat} {place : Stopping} {next : List Phase} {r : PhaseEnd}
    (hplace : w.calls[i]? = some (.active (.phased (.stopping place) next)))
    (hstop : w.stop place = .finished u r) (hwait : ∀ p, place = .waiting p → p.looks ≠ 0)
    (s : Sound w.outline) (hp : w.outline.Pending g)
    (hs : place = .endingDebug → w.outline.Swept g) :
    (u.outline.setRole i .bystander).Swept g ∧ Sound (u.outline.setRole i .bystander) ∧
      i < u.outline.roles.length := by
  have hobeys := w.stop_obeys i place
  rw [hstop] at hobeys
  obtain ⟨hi, hleads⟩ := hobeys (List.getElem?_eq_some_iff.1 (roles_of_active hplace)).1
  rw [show w.outline.setRole i place.role = w.outline from setRole_of_active hplace] at hleads
  refine ⟨?_, hleads.sound s, hi⟩
  by_cases hend : place = .endingDebug
  · exact hleads.keeps_of_sound s swept_of_rule (hs hend)
  · rcases hleads.keeps_of_sound s pending_of_rule hp with ⟨hstatus, -⟩ | hswept
    · exact absurd hstatus (stop_status hstop hwait hend)
    · exact hswept

/-- Everything up to the generation of a stop's call has left the session for good when the stop
has returned. -/
theorem StopUnderWay.swept {g i : Nat} (h : w.move? (.run (.call i)) = some v)
    (s : Sound w.outline) (hw : StopUnderWay g i w) (hreturn : w.StopReturns i) :
    v.outline.Swept g := by
  obtain ⟨place, next, x, hplace, hstop, hwait⟩ := hreturn
  obtain ⟨c, hc, hstage⟩ := hw.stage
  obtain rfl : c = .active (.phased (.stopping place) next) :=
    Option.some.inj (hc.symm.trans hplace)
  obtain ⟨command, hcommand⟩ | ⟨place', next', hjob, -, hp, hs⟩ := hstage _ rfl trivial
  · cases hcommand
  cases hjob
  obtain ⟨hswept, hsound, hi⟩ := swept_of_stop hplace hstop hwait s hp hs
  -- What the call does after the stop takes nothing back.
  have hcall : w.call (.phased (.stopping place) next) = x.runPhases next := by
    simp [call, phase, hstop]
  have hobeys := x.runPhases_obeys i next
  obtain ⟨job, hjob, ⟨u, job', hrun, rfl⟩ | ⟨u, r, hrun, rfl⟩⟩ := call?_cases h
  all_goals
    obtain rfl : job = .phased (.stopping place) next := by
      have heq := hjob.symm.trans hplace
      simpa using heq
    rw [hcall] at hrun
    rw [hrun] at hobeys
    obtain ⟨-, hleads⟩ := hobeys hi
    rw [outline_setCall]
    exact hleads.keeps_of_sound hsound swept_of_rule hswept

end World

end SessionHost
