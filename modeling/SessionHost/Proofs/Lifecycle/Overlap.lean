import SessionHost.Proofs.Lifecycle.Consistency
import SessionHost.Proofs.Lifecycle.Wrecks

/-!
# Two servers at once

A start that asks the launcher for its console finds an empty session.  The console of an earlier
generation may nevertheless be up: its start has failed, was called off while it clears away, and
still waits for its client to say goodbye before it ends the process.  A console may also still be
on its way from the launcher to a start that was called off.  There is no other case.

Main definitions:

- `World.AboutToLaunch`: a start that is about to ask for its console.
- `World.HeldByFailure`, `World.OnItsWay`: the two cases.

Main results:

- Theorem `World.AboutToLaunch.launches`: it does ask for it.
- Theorem `World.Life.overlap`: which consoles of earlier generations may be up then.
-/

namespace SessionHost

/-! ## Roles and their places -/

/-- A call with the claim of a start is at one of the places of a start. -/
theorem Call.exists_of_start {call : Call} {g : Nat} (h : call.role.claim? = some (.start g)) :
    ∃ place next, call = .active (.phased (.starting place) next) := by
  obtain ⟨place, next, rfl, hplace⟩ := Call.exists_of_claim? h
  cases place with
  | stopping place => simp [PhasePlace.role] at hplace
  | starting place => exact ⟨place, next, rfl⟩

/-- A failed start that has a process in hand waits for its client to say goodbye. -/
theorem Call.exists_of_failing {call : Call} {g p : Nat}
    (h : call.role = .failing g (.holding (some p))) :
    ∃ a failure c closing next,
      call = .active (.phased (.starting (.failing a failure (.closing c (some p) closing))) next) ∧
        a.generation = g := by
  have hclaim : call.role.claim? = some (.start g) := by rw [h]; rfl
  obtain ⟨place, next, rfl⟩ := Call.exists_of_start hclaim
  change place.role = _ at h
  cases place with
  | failing a failure r =>
    cases r with
    | taking => cases h
    | closing c q closing =>
      cases h
      exact ⟨a, failure, c, closing, next, rfl, rfl⟩
  | _ => cases h

/-- A call with a process that nobody else knows is about to put it into the session. -/
theorem Call.exists_of_fresh {call : Call} {g p : Nat}
    (h : call.role.fresh? = some (.main g, p)) :
    ∃ a exe next, call = .active (.phased (.starting (.adopting a exe p)) next) ∧
      a.generation = g := by
  have hrole : call.role = .bringing (.main g) p .fresh := by
    unfold Role.fresh? at h
    split at h
    · rename_i hrole
      cases h
      exact hrole
    · cases h
  have hclaim : call.role.claim? = some (.start g) := by rw [hrole]; rfl
  obtain ⟨place, next, rfl⟩ := Call.exists_of_start hclaim
  change place.role = _ at hrole
  cases place with
  | adopting a exe q =>
    cases hrole
    exact ⟨a, exe, next, rfl, rfl⟩
  | launching a exe q place => cases place <;> cases hrole
  | _ => cases hrole

/-- A call that waits for the console of a main process is at the launch of its start. -/
theorem Call.exists_of_answering {call : Call} {g p c : Nat}
    (h : call.role = .bringing (.main g) p (.answering c)) :
    ∃ a exe next,
      call = .active (.phased (.starting (.launching a exe p (.answer c))) next) ∧
        a.generation = g := by
  have hclaim : call.role.claim? = some (.start g) := by rw [h]; rfl
  obtain ⟨place, next, rfl⟩ := Call.exists_of_start hclaim
  change place.role = _ at h
  cases place with
  | launching a exe q place =>
    cases place with
    | answer c' =>
      cases h
      exact ⟨a, exe, next, rfl, rfl⟩
    | _ => cases h
  | _ => cases h

theorem Grip.eq_of_held? {grip : Grip} {p : Nat} (h : grip.held? = some p) :
    grip = .holding (some p) := by
  cases grip with
  | reaching => cases h
  | holding q => exact congrArg _ h

/-- No call waits between the two processes of a debug session. -/
theorem Call.role_ne_replacing (call : Call) (p q : Nat) : call.role ≠ .replacing p q := by
  intro h
  rcases call with job | r
  · cases job with
    | fresh command =>
      change (if command.ofSession then Role.bystander else .outsider) = _ at h
      split at h <;> cases h
    | phased place next => cases place with
      | stopping place => cases place <;> cases h
      | starting place => cases place <;> cases h
    | debugging place => cases place <;> cases h
    | _ => cases h
  · cases h

/-! ## Consoles of earlier generations -/

section Earlier

variable {o : Outline} {i j g g' : Nat} {r : Role}

/-- Beside a start that was not called off, every other one has an earlier generation and was
called off. -/
theorem Tenure.earlier (t : Tenure o) (hi : o.roles[i]? = some r)
    (hclaim : r.claim? = some (.start g)) (hc : .start g ∉ o.cancelled) {u : Role}
    (hj : o.roles[j]? = some u) (hu : u.claim? = some (.start g')) (hne : u ≠ r) :
    g' < g ∧ .start g' ∈ o.cancelled := by
  obtain ⟨rfl, -⟩ := (t.admits hi hclaim).2 hc
  obtain ⟨hle, hadmits⟩ := t.admits hj hu
  have hg : g' ≠ o.generation := by
    rintro rfl
    obtain rfl := t.alone hj hi hu hclaim
    exact hne (Option.some.inj (hj.symm.trans hi))
  refine ⟨Nat.lt_of_le_of_ne hle hg, ?_⟩
  by_contra h
  exact hg (hadmits h).1

/-- A console whose process knows of its exit, and has it still, has ended. -/
theorem Sound.ending_of_knowsExit (s : Sound o) {c : Nat} {k : Console} {q : ServerProcess}
    (hk : o.consoles[c]? = some k) (hq : o.processes[k.owner]? = some q)
    (hd : q.disposed = false) (h : o.KnowsExit k.owner) : k.ending.isSome = true := by
  obtain ⟨q', e, hq', he⟩ := h
  obtain rfl : q = q' := Option.some.inj (hq.symm.trans hq')
  rcases s.exits.reported (Outline.outcomes_of_some hq) he with
    hdis | ⟨c', x, n, hx, howner, -, hending, -⟩
  · rw [show q.outcome.disposed = false from hd] at hdis
    cases hdis
  · obtain rfl := s.supervision.report_single hx (Outline.reports_of_some hk) howner
    rw [Outline.reports_of_some hk, Option.some.injEq] at hx
    subst hx
    rw [show k.ending = some n from hending]
    rfl

end Earlier

namespace World

variable {start w : World} {ms : List Move} {i c g g' : Nat}

/-- The call is a start that is about to ask the launcher for the console of its generation. -/
def AboutToLaunch (w : World) (i g : Nat) : Prop :=
  ∃ a exe p next, w.calls[i]? = some (.active (.phased (.starting (.adopting a exe p)) next)) ∧
    a.generation = g ∧ .start g ∉ w.cancelled

/-- An earlier start has failed and was called off, and it waits for its client to say goodbye
before it ends the process. -/
def HeldByFailure (w : World) (p g : Nat) : Prop :=
  ∃ (j : Nat) (a : Attempt) (failure : SessionFailure) (c : Nat) (closing : Closing)
    (next : List Phase),
    w.calls[j]? = some (.active
      (.phased (.starting (.failing a failure (.closing c (some p) closing))) next)) ∧
      a.generation < g ∧ .start a.generation ∈ w.cancelled

/-- The start of the generation was called off, and it waits for the console still. -/
def OnItsWay (w : World) (c g : Nat) : Prop :=
  ∃ (j : Nat) (a : Attempt) (exe : Executable) (p : Nat) (next : List Phase),
    w.calls[j]? = some (.active (.phased (.starting (.launching a exe p (.answer c))) next)) ∧
      a.generation = g ∧ .start g ∈ w.cancelled

/-- The watch over a process keeps the process and the consoles as they are. -/
theorem watchExit_keeps {a : Attempt} {p : Nat} {q : ServerProcess} (hq : w.processes[p]? = some q)
    (name : String) : (w.watchExit a p name).consoles = w.consoles ∧
      ∃ q', (w.watchExit a p name).processes[p]? = some q' ∧ q'.purpose = q.purpose ∧
        q'.disposed = q.disposed := by
  unfold watchExit
  rw [hq]
  simp only []
  split
  · exact ⟨rfl, q, hq, rfl, rfl⟩
  · exact ⟨rfl, _, getElem?_set_at hq _, rfl, rfl⟩

/-- A launch begins with a console for a process that was not disposed of. -/
theorem exists_console_of_beginLaunch {p : Nat} {q : ServerProcess}
    (hq : w.processes[p]? = some q) (hd : q.disposed = false) :
    ∃ v place, w.beginLaunch p = .going v place ∧
      v.consoles = w.consoles ++ [({ owner := p } : Console)] ∧ v.processes = w.processes := by
  let u := w.deleteSessionFile q.spec.sessionFile
  have hfile : u.consoles = w.consoles ∧ u.processes = w.processes := by
    simp only [u, deleteSessionFile]
    split <;> exact ⟨rfl, rfl⟩
  have hask : w.beginLaunch p = w.askForConsole p q := by
    simp only [beginLaunch, hq, hd, Bool.false_eq_true, if_false]
  exact ⟨_, _, hask, congrArg (fun l => l ++ [({ owner := p } : Console)]) hfile.1, hfile.2⟩

/-- A start that is about to ask for its console does so with its next piece. -/
theorem AboutToLaunch.launches (h : w.AboutToLaunch i g) (s : Sound w.outline) :
    ∃ v p q, w.move? (.run (.call i)) = some v ∧
      v.consoles = w.consoles ++ [({ owner := p } : Console)] ∧
      v.processes[p]? = some q ∧ q.purpose = .main g := by
  obtain ⟨a, exe, p, next, hi, rfl, hc⟩ := h
  have hrole : w.outline.roles[i]? = some (.bringing (.main a.generation) p .fresh) :=
    roles_of_active hi
  obtain ⟨n, d, hstanding⟩ := s.custody.known hrole rfl
  obtain ⟨q, hq, -⟩ := Outline.exists_of_standing? hstanding
  obtain ⟨hpurpose, hdisposed⟩ := s.upheld hrole hq
  have hd : q.disposed = false := by
    by_contra h
    exact hc (hdisposed (by simpa using h))
  let u : World := { w with session := { w.session with process := some ⟨a.generation, p⟩ } }
  obtain ⟨hconsoles, q', hq', hpurpose', hd'⟩ :=
    watchExit_keeps (w := u) (a := a) hq exe.name
  have hstore : w.storeUnlessCancelled a
      (fun s => { s with process := some ⟨a.generation, p⟩ }) = some u := by
    rw [storeUnlessCancelled, if_neg (by simpa [isCancelled] using hc)]
  obtain ⟨v, place, hv, hvconsoles, hvprocesses⟩ :=
    exists_console_of_beginLaunch hq' (hd'.trans hd)
  have hstep : w.start (.adopting a exe p) = .going v (.launching a exe p place) := by
    rw [start, adoptProcess, hstore]
    simp only []
    rw [hv]
    rfl
  refine ⟨v.setCall i (.active (.phased (.starting (.launching a exe p place)) next)), p, q',
    ?_, ?_, ?_, hpurpose'.trans hpurpose⟩
  · rw [move?, step?, call?, hi]
    simp only [call, phase, hstep, Progress.andThen_going]
  · rw [← hconsoles]
    exact hvconsoles
  · rw [← hq', ← hvprocesses]
    rfl

/-- A process that a start about to launch finds standing, other than its own, knows of its exit
or is in the hands of a start that has failed. -/
theorem AboutToLaunch.kept (h : w.AboutToLaunch i g) (s : Sound w.outline)
    (wrecks : Wrecks w.outline) {p : Nat} {q : ServerProcess} (hq : w.processes[p]? = some q)
    (hp : q.purpose = .main g') (hd : q.disposed = false)
    (hfresh : ∀ {j : Nat} {u : Purpose},
      w.outline.roles[j]? ≠ some (.bringing u p .fresh)) :
    w.outline.KnowsExit p ∨ w.HeldByFailure p g := by
  obtain ⟨a, exe, p', next, hi, rfl, hc⟩ := h
  have hrole : w.outline.roles[i]? = some (.bringing (.main a.generation) p' .fresh) :=
    roles_of_active hi
  obtain ⟨hg, hs⟩ := (s.tenure.admits hrole rfl).2 hc
  have hvacant : w.session.process = none :=
    (s.slots.fits hrole rfl (hg ▸ Outline.claim?_of_starting hs)).1
  have hstanding : w.outline.standing? p = some ⟨.main g', q.noticeTaken, false⟩ := by
    rw [Outline.standing?_of_some (o := w.outline) hq, ServerProcess.standing, hp, hd]
  cases s.custody.kept hstanding with
  | @call j r hr hkeeps =>
    rcases hkeeps with hdropped | ⟨u, hu⟩
    · cases r with
      | emptying x d =>
        rw [show w.outline.status = .stopping from s.tenure.admits hr rfl] at hs
        cases hs
      | clearing g' grip =>
        obtain rfl : grip = .holding (some p) := Grip.eq_of_held? (Option.mem_toList.1 hdropped)
        exact .inl (wrecks.salvaged (.start hr))
      | failing g' grip =>
        obtain rfl : grip = .holding (some p) := Grip.eq_of_held? (Option.mem_toList.1 hdropped)
        obtain ⟨hlt, hoff⟩ := s.tenure.earlier hrole rfl hc hr rfl (by simp)
        obtain ⟨call, hcall, hcr⟩ : ∃ call, w.calls[j]? = some call ∧ call.role = _ := by
          simpa [outline] using hr
        obtain ⟨b, failure, c, closing, next, rfl, rfl⟩ := Call.exists_of_failing hcr
        exact .inr ⟨j, b, failure, c, closing, next, hcall, hlt, hoff⟩
      | replacing x y =>
        obtain ⟨call, -, hcr⟩ : ∃ call, w.calls[j]? = some call ∧ call.role = _ := by
          simpa [outline] using hr
        exact absurd hcr (call.role_ne_replacing x y)
      | _ => cases hdropped
    · cases r with
      | bringing v x stage =>
        cases stage with
        | fresh =>
          cases hu
          exact absurd hr hfresh
        | _ => cases hu
      | _ => cases hu
  | watch hx hdrops => exact .inl (wrecks.salvaged (.watch hx hdrops))
  | process hp =>
    rw [show w.session.process = some _ from hp] at hvacant
    cases hvacant
  | debug h =>
    obtain ⟨n, d, hdebug⟩ := s.custody.debug h
    rw [hstanding] at hdebug
    cases hdebug

/-- A console of an earlier generation that has neither ended nor been told to end, when a start
is about to ask for its own. -/
theorem AboutToLaunch.earlier (hlaunch : w.AboutToLaunch i g) (h : Life start ms w) {k : Console}
    {q : ServerProcess} (hk : w.consoles[c]? = some k) (hq : w.processes[k.owner]? = some q)
    (hp : q.purpose = .main g') (hanswer : ∀ e, k.answer ≠ some (.error e)) :
    k.ending.isSome = true ∨ k.kills = 1 ∨ w.HeldByFailure k.owner g ∨ w.OnItsWay c g' := by
  have s := h.sound
  have hmark := Outline.marks_of_some (o := w.outline) hk
  rcases s.supervision.accounted hmark with hkills | hrefused | ⟨b, hb, hbc⟩ | ⟨j, r, hr, ha⟩
  · exact .inr (.inl hkills)
  · obtain ⟨e, he⟩ := Console.isRefused_iff.1 hrefused
    exact absurd he (hanswer e)
  · -- The process has the console still, so somebody has the process.
    obtain ⟨q', hq', rfl⟩ := Outline.exists_of_bond hb
    obtain rfl : q = q' := Option.some.inj (hq.symm.trans hq')
    have hd : q.disposed = false := (s.supervision.linked hb hbc).1
    have hfresh {j : Nat} {u : Purpose} :
        w.outline.roles[j]? ≠ some (.bringing u k.owner .fresh) := fun hj =>
      s.supervision.unlaunched hj rfl hmark rfl
    rcases hlaunch.kept s h.wrecks hq hp hd hfresh with hexit | hheld
    · exact .inl (s.ending_of_knowsExit hk hq hd hexit)
    · exact .inr (.inr (.inl hheld))
  · -- The console is still on its way to its start.
    obtain ⟨a, exe, p, next, hi, rfl, hc⟩ := hlaunch
    have hrole : w.outline.roles[i]? = some (.bringing (.main a.generation) p .fresh) :=
      roles_of_active hi
    cases r with
    | bringing u p' stage =>
      cases stage with
      | answering c' =>
        cases ha
        obtain ⟨n, d, hstanding⟩ := s.custody.known hr rfl
        change w.outline.standing? k.owner = _ at hstanding
        rw [Outline.standing?_of_some (o := w.outline) hq, Option.some.injEq] at hstanding
        obtain rfl : .main g' = u := hp.symm.trans (congrArg Standing.purpose hstanding)
        obtain ⟨-, hoff⟩ := s.tenure.earlier hrole rfl hc hr rfl (by simp)
        obtain ⟨call, hcall, hcr⟩ : ∃ call, w.calls[j]? = some call ∧ call.role = _ := by
          simpa [outline] using hr
        obtain ⟨b, exe', next', rfl, rfl⟩ := Call.exists_of_answering hcr
        exact .inr (.inr (.inr ⟨j, b, exe', _, next', hcall, rfl, hoff⟩))
      | _ => cases ha
    | _ => cases ha

/-- A start that is about to ask for its console does so with its next piece.  A console of an
earlier generation, which the launcher has not refused, has ended by then or was told to end,
unless its process is in the hands of an earlier start that has failed and was called off, which
waits for its client to say goodbye, or unless an earlier start that was called off waits for
that very console. -/
theorem Life.overlap (h : Life start ms w) (hlaunch : w.AboutToLaunch i g) :
    (∃ v p q, w.move? (.run (.call i)) = some v ∧
      v.consoles = w.consoles ++ [({ owner := p } : Console)] ∧
      v.processes[p]? = some q ∧ q.purpose = .main g) ∧
    ∀ (c g' : Nat) (k : Console) (q : ServerProcess), w.consoles[c]? = some k →
      w.processes[k.owner]? = some q → q.purpose = .main g' →
      (∀ e, k.answer ≠ some (.error e)) →
        k.ending.isSome = true ∨ k.kills = 1 ∨ w.HeldByFailure k.owner g ∨ w.OnItsWay c g' :=
  ⟨hlaunch.launches h.sound, fun _ _ _ _ hk hq hp hanswer =>
    hlaunch.earlier h hk hq hp hanswer⟩

end World

/-- A server never answers the question for its version, its start fails and is stopped while it
clears away, and another start comes up to its launch. -/
def Trial.overlapping : List Move :=
  Trial.launching ++ Trial.connecting.take 13 ++
    [.elapse 2000000000, goOn, goOn, goOn, .ask .stop, .run (.call 1), .run (.call 1),
      .ask .start, .run (.call 2), .run (.call 2), .perform 2, .run (.call 2), .run (.call 2)]

namespace World

/-- A start asks for its console while the console of the start before it is up: that start has
failed and still waits for its client to say goodbye. -/
theorem overlap_trial :
    ∃ w k q, Trial.start.Life Trial.overlapping w ∧ w.AboutToLaunch 2 2 ∧
      w.consoles[0]? = some k ∧ w.processes[k.owner]? = some q ∧ q.purpose = .main 1 ∧
      (∀ e, k.answer ≠ some (.error e)) ∧ k.ending = none ∧ k.kills = 0 ∧
      (w.HeldByFailure k.owner 2 ∨ w.OnItsWay 0 1) := by
  have hrun : (Trial.start.play? Trial.overlapping).any (fun w =>
      w.calls[2]?.any (fun (call : Call) => call.role.fresh? == some (.main 2, 1)) &&
      !w.isCancelled (.start 2) &&
      w.consoles[0]?.any fun k => !k.isRefused && k.ending.isNone && k.kills == 0 &&
        w.processes[k.owner]?.any fun q => q.purpose == .main 1) = true := by decide +kernel
  obtain ⟨w, hplay, hw⟩ := (Option.any_eq_true _ _).1 hrun
  simp only [Bool.and_eq_true, Option.any_eq_true, Bool.not_eq_true', beq_iff_eq,
    Option.isNone_iff_eq_none] at hw
  obtain ⟨⟨⟨call, hcall, hfresh⟩, hc⟩, k, hk, ⟨⟨hanswer, hending⟩, hkills⟩, q, hq, hp⟩ := hw
  have hlife := Trial.life hplay (by decide)
  have hlaunch : w.AboutToLaunch 2 2 := by
    obtain ⟨a, exe, next, rfl, ha⟩ := Call.exists_of_fresh hfresh
    exact ⟨a, exe, 1, next, hcall, ha, by simpa [isCancelled] using hc⟩
  have hok : ∀ e, k.answer ≠ some (.error e) := fun e he => by
    rw [Console.isRefused_iff.2 ⟨e, he⟩] at hanswer
    cases hanswer
  refine ⟨w, k, q, hlife, hlaunch, hk, hq, hp, hok, hending, hkills, ?_⟩
  rcases (hlife.overlap hlaunch).2 0 1 k q hk hq hp hok with h | h | h
  · rw [hending] at h
    cases h
  · rw [hkills] at h
    cases h
  · exact h

end World

end SessionHost
