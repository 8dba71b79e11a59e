import SessionHost.Proofs.Ledger.Changes
import SessionHost.Proofs.Lifecycle.Moments

/-!
# Turns at the session's lock

Many activities wait for the session's lock.  It is given out in the order in which it was asked
for: whoever is let in has waited at least as long as everybody who is still waiting.  An activity
that waits stands where it stood, whatever happens meanwhile.

Main definitions:

- `World.awaitsLock`: an activity stands before the session's lock.
- `World.Queues`: it is in line from one moment to another one.
- `World.InTurn`: the lock is given out in turn.

Main results:

- Theorem `World.Queues.calls_eq`: a call that waits stays as far as it is.
- Theorem `World.inTurn_of_single`: the lock is given out in turn when nobody competes for it.
-/

namespace SessionHost

/-! ## Before the lock -/

/-- Whoever takes the live parts away stands before the lock at first. -/
def Release.awaitsLock : Release → Bool
  | .taking => true
  | .closing _ _ _ => false

/-- The places of a stop before the lock. -/
def Stopping.awaitsLock : Stopping → Bool
  | .endingDebug => true
  | .taking => true
  | _ => false

/-- The places of a start before the lock. -/
def Starting.awaitsLock : Starting → Bool
  | .clearing _ _ r => r.awaitsLock
  | .recording _ _ => true
  | .adopting _ _ _ => true
  | .noting _ _ => true
  | .keeping _ _ => true
  | .concluding _ _ => true
  | .failing _ _ r => r.awaitsLock
  | _ => false

/-- The places of the start of a debug session before the lock. -/
def Debugging.awaitsLock : Debugging → Bool
  | .choosing _ => true
  | .installing _ _ => true
  | .withdrawing _ _ => true
  | _ => false

/-- The call stands before the lock. -/
def Job.awaitsLock : Job → Bool
  | .phased (.stopping p) _ => p.awaitsLock
  | .phased (.starting p) _ => p.awaitsLock
  | .debugging p => p.awaitsLock
  | .endingDebug => true
  | _ => false

/-- A call that is over waits for nothing. -/
def Call.awaitsLock : Call → Bool
  | .active job => job.awaitsLock
  | .over _ => false

/-- The place of a watch before the lock. -/
def WatchPlace.awaitsLock : WatchPlace → Bool
  | .releasing _ r => r.awaitsLock
  | _ => false

/-- The place of a pump before the lock. -/
def PumpPlace.awaitsLock : PumpPlace → Bool
  | .pressing => true
  | _ => false

namespace World

variable {start w v u : World} {ms : List Move} {n k i : Nat}

/-- The activity stands before the session's lock. -/
def awaitsLock (w : World) : Runner → Bool
  | .call i => w.calls[i]?.any Call.awaitsLock
  | .watch j => w.watches[j]?.any fun x => x.place.awaitsLock
  | .pump i => w.pumps[i]?.any fun x => x.place.awaitsLock
  | _ => false

/-- No call waits for the lock and for the file system at the same time. -/
theorem performJob_of_awaitsLock {job : Job} (h : job.awaitsLock = true) :
    w.performJob job = none := by
  cases job with
  | phased place next =>
    cases place with
    | stopping p => rfl
    | starting p => cases p <;> first | rfl | cases h
  | debugging p => cases p <;> first | rfl | cases h
  | launching p l => cases h
  | _ => rfl

/-- Whatever else happens, a call before the lock stays there. -/
theorem calls_of_awaitsLock {m : Move} (hmove : w.move? m = some v) (hof : m.ofSession = true)
    {c : Call} (hi : w.calls[i]? = some c) (hc : c.awaitsLock = true)
    (hm : m ≠ .run (.call i)) : v.calls[i]? = some c := by
  rcases calls_of_move? hmove hof hi with hsame | hrun | rfl
  · exact hsame
  · exact absurd hrun hm
  · obtain ⟨job, u, job', hjob, hperform, -⟩ := perform?_cases hmove
    obtain rfl : c = .active job := Option.some.inj (hi.symm.trans hjob)
    rw [performJob_of_awaitsLock hc] at hperform
    cases hperform

/-! ## Waiting -/

/-- The activity is in the line before the session's lock: from one moment to another one, it
stands there and is not let in. -/
structure Queues (start : World) (ms : List Move) (r : Runner) (k n : Nat) : Prop where
  awaits : ∀ {j : Nat} {v : World}, k ≤ j → j ≤ n → start.Moment ms j v → v.awaitsLock r = true
  stays : ∀ {j : Nat}, k ≤ j → j < n → ms[j]? ≠ some (.run r)

/-- The lock is a fair one, and is given out in the order in which it was asked for: whoever is let
in has waited at least as long as everybody who is still waiting. -/
def InTurn (start : World) (ms : List Move) : Prop :=
  ∀ {n : Nat} {r : Runner} {v : World}, start.Moment ms n v → ms[n]? = some (.run r) →
    v.awaitsLock r = true → ∀ {k : Nat} {r' : Runner}, k ≤ n → start.Queues ms r' k n →
      start.Queues ms r k n

namespace Queues

variable {r : Runner}

/-- Who waits now has begun to wait. -/
theorem now (hn : start.Moment ms n v) (h : v.awaitsLock r = true) : start.Queues ms r n n where
  awaits hj hj' hu := by
    obtain rfl := Nat.le_antisymm hj hj'
    rwa [hu.unique hn]
  stays hj hj' := absurd hj' (Nat.not_lt.2 hj)

theorem of_le {n' : Nat} (h : start.Queues ms r k n) (hle : n' ≤ n) : start.Queues ms r k n' where
  awaits hj hj' := h.awaits hj (Nat.le_trans hj' hle)
  stays hj hj' := h.stays hj (Nat.lt_of_lt_of_le hj' hle)

/-- Who is not let in waits on. -/
theorem succ (h : start.Queues ms r k n) (hn : start.Moment ms (n + 1) v)
    (hv : v.awaitsLock r = true) (hm : ms[n]? ≠ some (.run r)) : start.Queues ms r k (n + 1) where
  awaits hj hj' hu := by
    rcases Nat.lt_or_eq_of_le hj' with hlt | rfl
    · exact h.awaits hj (Nat.le_of_lt_succ hlt) hu
    · rwa [hu.unique hn]
  stays hj hj' := by
    rcases Nat.lt_or_eq_of_le (Nat.le_of_lt_succ hj') with hlt | rfl
    · exact h.stays hj hlt
    · exact hm

/-- A call that waits stays as far as it is. -/
theorem calls_eq (hlife : start.Life ms w) (h : start.Queues ms (.call i) k n)
    (hk : start.Moment ms k u) (hn : start.Moment ms n v) (hle : k ≤ n) :
    v.calls[i]? = u.calls[i]? := by
  induction hle generalizing v with
  | refl => rw [hk.unique hn]
  | @step n hle ih =>
    obtain ⟨a, ha⟩ := hn.pred
    obtain ⟨m, hm, hmove⟩ := ha.step hn
    have hof : m.ofSession = true := hlife.ofSession m (List.mem_of_getElem? hm)
    have hbefore : a.calls[i]? = u.calls[i]? := ih (h.of_le (Nat.le_succ n)) ha
    obtain ⟨c, hc, hawaits⟩ := (Option.any_eq_true _ _).1 (h.awaits hle (Nat.le_succ n) ha)
    have hstays : m ≠ .run (.call i) := fun heq =>
      h.stays hle (Nat.lt_succ_self n) (hm.trans (congrArg some heq))
    rw [← hbefore, hc]
    exact calls_of_awaitsLock hmove hof hc hawaits hstays

end Queues

/-- Who stands before the lock is one of the activities. -/
theorem mem_runners_of_awaitsLock {r : Runner} (h : w.awaitsLock r = true) : r ∈ w.runners := by
  have hlt {α : Type} {l : List α} {j : Nat} {P : α → Bool} (h : l[j]?.any P = true) :
      j < l.length := by
    obtain ⟨x, hx, -⟩ := (Option.any_eq_true _ _).1 h
    exact (List.getElem?_eq_some_iff.1 hx).1
  cases r with
  | call i | watch i | pump i => simpa [runners] using hlt h
  | _ => cases h

/-- When at most one activity at a time stands before the lock, it is given out in turn. -/
theorem inTurn_of_single
    (h : ∀ {n : Nat} {v : World}, start.Moment ms n v →
      (v.runners.filter v.awaitsLock).length ≤ 1) : start.InTurn ms := by
  intro n r v hn hm hr k r' hk hqueues
  have hr' : v.awaitsLock r' = true := hqueues.awaits hk (Nat.le_refl n) hn
  have hmem : r ∈ v.runners.filter v.awaitsLock :=
    List.mem_filter.2 ⟨mem_runners_of_awaitsLock hr, hr⟩
  have hmem' : r' ∈ v.runners.filter v.awaitsLock :=
    List.mem_filter.2 ⟨mem_runners_of_awaitsLock hr', hr'⟩
  obtain ⟨s, hs⟩ : ∃ s, v.runners.filter v.awaitsLock = [s] :=
    List.length_eq_one_iff.1 (Nat.le_antisymm (h hn) (List.length_pos_of_mem hmem))
  rw [hs, List.mem_singleton] at hmem hmem'
  rwa [hmem, ← hmem']

end World

end SessionHost
