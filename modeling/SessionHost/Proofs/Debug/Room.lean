import SessionHost.Proofs.Debug.Pieces
import SessionHost.Proofs.Ledger.Work

/-!
# The room for a debug session's process

The session has room for the process of one debug session.  The start of a debug session puts its
process there, in one piece of its own; everything else leaves the room alone or empties it.

Main definitions:

- `World.SparesDebug`: the room is as it was, or empty.
- `World.BringsDebug`: a start is about to put its process there.

Main results:

- Theorem `World.debug_of_move?`: what a move does to the room.
- Theorem `World.Life.last_brought`: what is there was put there last.
-/

namespace SessionHost

namespace World

/-- The room for the debug session's process is as it was, or empty. -/
def SparesDebug (w v : World) : Prop :=
  v.session.debug = w.session.debug ∨ v.session.debug = none

namespace SparesDebug

variable {w v u : World}

theorem refl (w : World) : w.SparesDebug w :=
  .inl rfl

theorem of_session (h : v.session = w.session) : w.SparesDebug v :=
  .inl (congrArg Session.debug h)

/-- What is done for a session spares the room, except where a debug session installs itself. -/
theorem of_work (h : w.Work False v) : w.SparesDebug v :=
  h.room.imp id fun hroom => hroom.resolve_right id

theorem trans (h : w.SparesDebug v) (h' : v.SparesDebug u) : w.SparesDebug u := by
  rcases h' with h' | h'
  · exact h.imp h'.trans h'.trans
  · exact .inr h'

end SparesDebug

variable (w : World)

/-! ## Calls -/

/-- The call is about to put a process into the room. -/
def BringsDebug (i p : Nat) : Prop :=
  ∃ exe, w.calls[i]? = some (.active (.debugging (.installing exe p)))

theorem beginPhase_spares (p : Phase) : (w.beginPhase p).Ends w.SparesDebug := by
  cases p with
  | announce name =>
    have hledger := w.ledger_announceDefault name
    exact .of_session (congrArg Ledger.session hledger)
  | stop | start => exact (w.beginPhase_works rfl).imp fun _ => .of_work
  | settle => exact .refl w

theorem runPhases_spares (next : List Phase) : (w.runPhases next).Ends w.SparesDebug :=
  w.runPhases_ends (R := SparesDebug) .refl .trans fun p _ v => v.beginPhase_spares p

/-- What a start of a debug session puts into the room is its process. -/
theorem installDebug_session (exe : Executable) (p : Nat) :
    (w.installDebug exe p).Ends (·.session.debug = some p) := by
  have hlaunch : ∀ u : World, u.session.debug = some p →
      ((u.beginLaunch p).andThen (.launching exe p) fun v outcome =>
        v.afterDebugLaunch exe p outcome).Ends (·.session.debug = some p) := by
    intro u hu
    have hsame {v : World} (hv : v.ledger = u.ledger) : v.session.debug = some p :=
      (congrArg (fun l : Ledger => l.session.debug) hv).trans hu
    refine (u.beginLaunch_ledger p).bind (fun v => hsame) fun v outcome hv => ?_
    exact (v.afterDebugLaunch_ledger exe p outcome).imp fun v' hv' => hsame (hv'.trans hv)
  apply hlaunch
  cases w.session.debug with
  | none => rfl
  | some previous => exact congrArg (·.session.debug) (ledger_dispose _ previous)

/-- What a piece of a call does to the room. -/
theorem call_debug (job : Job) :
    (w.call job).Ends fun v => w.SparesDebug v ∨
      ∃ exe p, job = .debugging (.installing exe p) ∧ v.session.debug = some p := by
  have hspares {x : CallProgress} (hx : x.Ends w.SparesDebug) :
      x.Ends fun v => w.SparesDebug v ∨
        ∃ exe p, job = .debugging (.installing exe p) ∧ v.session.debug = some p :=
    hx.imp fun v => .inl
  by_cases hinstalls : ∃ exe p, job = .debugging (.installing exe p)
  · obtain ⟨exe, p, rfl⟩ := hinstalls
    exact (w.installDebug_session exe p).bind (fun v hv => .inr ⟨exe, p, rfl, hv⟩)
      fun v _ hv => .inr ⟨exe, p, rfl, hv⟩
  by_cases hupdate : ∃ s, job = .fresh (.updateSettings s)
  · obtain ⟨s, rfl⟩ := hupdate
    exact .inl (.of_session (congrArg Ledger.session (w.ledger_updateSettings s)))
  refine hspares ?_
  by_cases hphased : job.isPhased = false
  · refine (w.call_works hphased (fun s hs => hupdate ⟨s, hs⟩) fun exe p hp => ?_).imp fun _ =>
      .of_work
    exact hinstalls ⟨exe, p, hp⟩
  · cases job with
    | fresh command =>
      cases command with
      | start | stop | restart | changeDefault => exact w.runPhases_spares _
      | _ => exact absurd rfl hphased
    | phased place next =>
      have hphase : (w.phase place).Ends w.SparesDebug :=
        (w.phase_works place).imp fun _ => .of_work
      refine w.call_phased_ends hphase fun v hv => ?_
      exact (v.runPhases_spares next).imp fun u hu => hv.trans hu
    | _ => exact absurd rfl hphased

/-! ## Moves -/

variable {w} {v : World}

/-- A move leaves the room alone or empties it, or is the one piece of a start that puts its
process there. -/
theorem debug_of_move? {m : Move} (h : w.move? m = some v) (hm : m.ofSession = true) :
    w.SparesDebug v ∨
      ∃ i p, m = .run (.call i) ∧ w.BringsDebug i p ∧ v.session.debug = some p := by
  have hchange := move?_change h hm
  by_cases hcall : ∃ i, m = .run (.call i)
  · obtain ⟨i, rfl⟩ := hcall
    obtain ⟨job, hjob, ⟨u, job', hpiece, rfl⟩ | ⟨u, r, hpiece, rfl⟩⟩ := call?_cases h
    all_goals
      have hdebug := w.call_debug job
      rw [hpiece] at hdebug
      rcases hdebug with hspares | ⟨exe, p, rfl, hp⟩
      · exact .inl hspares
      · exact .inr ⟨i, p, rfl, ⟨exe, hjob⟩, hp⟩
  · refine .inl ?_
    by_cases hwatch : ∃ j, m = .run (.watch j)
    · obtain ⟨j, rfl⟩ := hwatch
      exact .of_work (watch?_work h)
    · change v.ledger.session.debug = w.session.debug ∨ v.ledger.session.debug = none
      generalize v.ledger = l at hchange ⊢
      cases hchange with
      | call hm hi hw c => exact absurd ⟨_, hm⟩ hcall
      | release hm hx hp hl r' => exact absurd ⟨_, hm⟩ hwatch
      | report hm hx hp hl notice => exact absurd ⟨_, hm⟩ hwatch
      | _ => exact .inl rfl

/-! ## The last process -/

variable {start : World} {ms : List Move} {n p : Nat}

/-- The move with this number puts the process into the session. -/
def BroughtAt (start : World) (ms : List Move) (p n : Nat) : Prop :=
  ∃ a b i, start.Moment ms n a ∧ start.Moment ms (n + 1) b ∧ ms[n]? = some (.run (.call i)) ∧
    a.BringsDebug i p

/-- What is about to be put into the session is in it afterwards. -/
theorem BringsDebug.debug_eq {i : Nat} (h : w.BringsDebug i p)
    (hmove : w.move? (.run (.call i)) = some v) : v.session.debug = some p := by
  obtain ⟨exe, hi⟩ := h
  obtain ⟨job, hjob, hpiece⟩ := call?_cases hmove
  cases hi.symm.trans hjob
  have hdebug : (w.call (.debugging (.installing exe p))).Ends (·.session.debug = some p) :=
    (w.installDebug_session exe p).bind (fun _ => id) fun _ _ => id
  rcases hpiece with ⟨u, job', hpiece, rfl⟩ | ⟨u, r, hpiece, rfl⟩ <;>
    (rw [hpiece] at hdebug; exact hdebug)

/-- The process in the session is the one that was put there last. -/
theorem Life.last_brought (h : Life start ms w) (hn : start.Moment ms n v)
    (hp : v.session.debug = some p) :
    ∃ k, k < n ∧ start.BroughtAt ms p k ∧
      ∀ k' q, k < k' → k' < n → ¬start.BroughtAt ms q k' := by
  induction n generalizing v with
  | zero =>
    obtain rfl : start = v := Option.some.inj hn.2
    rw [h.fresh.session] at hp
    cases hp
  | succ n ih =>
    obtain ⟨a, ha⟩ := hn.pred
    obtain ⟨m, hm, hmove⟩ := ha.step hn
    by_cases hbrought : ∃ q, start.BroughtAt ms q n
    · obtain ⟨q, a', b', i, ha', hb', hrun, hbrings⟩ := hbrought
      obtain rfl := ha.unique ha'
      obtain rfl : m = .run (.call i) := Option.some.inj (hm.symm.trans hrun)
      obtain rfl : q = p := Option.some.inj ((hbrings.debug_eq hmove).symm.trans hp)
      exact ⟨n, Nat.lt_succ_self n, ⟨a, v, i, ha, hn, hrun, hbrings⟩, fun k' _ hk hk' => by omega⟩
    · have ha' : a.session.debug = some p := by
        rcases debug_of_move? hmove (h.ofSession m (List.mem_of_getElem? hm)) with
          (heq | hnone) | ⟨i, q, rfl, hbrings, -⟩
        · exact heq.symm.trans hp
        · rw [hp] at hnone
          cases hnone
        · exact absurd ⟨q, a, v, i, ha, hn, hm, hbrings⟩ hbrought
      obtain ⟨k, hk, hat, hlast⟩ := ih ha ha'
      refine ⟨k, Nat.lt_succ_of_lt hk, hat, fun k' q hkk' hk' hq => ?_⟩
      rcases Nat.lt_or_eq_of_le (Nat.le_of_lt_succ hk') with hlt | rfl
      · exact hlast k' q hkk' hlt hq
      · exact hbrought ⟨q, hq⟩

end World

end SessionHost
