import SessionHost.Proofs.Debug.Fates
import SessionHost.Proofs.Debug.Room
import SessionHost.Proofs.Lifecycle.Overlap

/-!
# One debug console

Starts of debug sessions take each other's process out of the session, fail long after that, and
race with two ways to stop.  A process that is taken out is disposed of by whoever has taken it, or
by its own start when that fails; a start that fails looks whether the process in the session is
its own.  So when nobody is at work on a debug session, at most one process has not been disposed
of: the one in the session, which was put there last.

Main definitions:

- `World.StartsDebug`, `World.StopsDebug`: a start with its process, and a stop with the process
  that it has taken.
- `World.RemovedAt`, `World.DisposedAt`, `World.FailsAt`: what a call does at a moment.

Main results:

- Theorem `World.Life.one_debug_console`: what becomes of every process, and which one is left.
-/

namespace SessionHost

/-- A start of a debug session, except where it puts its process into the session. -/
def Job.startsDebug : Job → Bool
  | .fresh (.startDebug _) => true
  | .debugging place => !place.installs
  | _ => false

/-- The process of the start of a debug session. -/
def Job.debug? : Job → Option Nat
  | .debugging place => place.process?
  | _ => none

/-- A call at work on a debug session: a start, or one of the two ways to stop. -/
def Job.onDebug : Job → Bool
  | .debugging _ => true
  | .endingDebug => true
  | .phased (.stopping _) _ => true
  | _ => false

/-- The call is at work on a debug session. -/
def Call.onDebug : Call → Bool
  | .active job => job.onDebug
  | .over _ => false

/-! ## Roles and their places -/

/-- Who tends a debug process is the start of a debug session. -/
theorem Call.startsDebug_of_tends {c : Call} {p : Nat} (h : c.role.tends? = some p) :
    ∃ place, c = .active (.debugging place) ∧ place.process? = some p := by
  rcases c with job | r
  · cases job with
    | fresh command =>
      change (if command.ofSession then Role.bystander else .outsider).tends? = some p at h
      split at h <;> cases h
    | phased place next => cases place with
      | stopping place => cases place <;> cases h
      | starting place => cases place <;> cases h
    | debugging place =>
      refine ⟨place, rfl, ?_⟩
      cases place <;> exact h
    | _ => cases h
  · cases h

/-- Who has removed one is a stop that still says goodbye to the client. -/
theorem Call.stopsDebug_of_removed {c : Call} {p : Nat} (h : c.role.removed? = some p) :
    ∃ k q closing next,
      c = .active (.phased (.stopping (.closing k q (some p) closing)) next) := by
  rcases c with job | r
  · cases job with
    | fresh command =>
      change (if command.ofSession then Role.bystander else .outsider).removed? = some p at h
      split at h <;> cases h
    | phased place next => cases place with
      | stopping place =>
        cases place with
        | closing k q d closing =>
          cases h
          exact ⟨k, q, closing, next, rfl⟩
        | _ => cases h
      | starting place => cases place <;> cases h
    | debugging place => cases place <;> cases h
    | _ => cases h
  · cases h

/-- What is in a call's hands, by the part that the call has in it. -/
theorem Role.Keeps.cases {r : Role} {p : Nat} (h : r.Keeps p) :
    r.seized? = some p ∨ r.removed? = some p ∨ ∃ u, r.brings? = some (u, p) := by
  rcases h with hdropped | ⟨u, hfresh⟩
  · cases r with
    | emptying q d =>
      rcases List.mem_append.1 hdropped with hq | hq
      · exact .inl (Option.mem_toList.1 hq)
      · exact .inr (.inl (Option.mem_toList.1 hq))
    | clearing g grip => exact .inl (Option.mem_toList.1 hdropped)
    | failing g grip => exact .inl (Option.mem_toList.1 hdropped)
    | replacing q d => exact .inr (.inl (congrArg some (List.mem_singleton.1 hdropped).symm))
    | _ => cases hdropped
  · exact .inr (.inr ⟨u, Role.brings?_of_fresh? hfresh⟩)

/-- Who brings a debug process up tends it. -/
theorem Role.tends?_of_brings? {r : Role} {p : Nat} (h : r.brings? = some (.debug, p)) :
    r.tends? = some p := by
  cases r <;> cases h <;> rfl

namespace World

variable {w v : World} {i p : Nat}

/-- The process is for a debug session. -/
def ForDebug (w : World) (p : Nat) : Prop := ∃ q, w.processes[p]? = some q ∧ q.purpose = .debug

/-- The call starts a debug session with the process. -/
def StartsDebug (w : World) (i p : Nat) : Prop :=
  ∃ place, w.calls[i]? = some (.active (.debugging place)) ∧ place.process? = some p

/-- The call is a stop that has taken the process out of the session. -/
def StopsDebug (w : World) (i p : Nat) : Prop :=
  ∃ c q closing next,
    w.calls[i]? = some (.active (.phased (.stopping (.closing c q (some p) closing)) next))

/-- No call is at work on a debug session. -/
def DebugAtRest (w : World) : Prop := ∀ c ∈ w.calls, c.onDebug = false

/-- Every role is that of a call. -/
theorem exists_call_of_role {r : Role} (h : w.outline.roles[i]? = some r) :
    ∃ c : Call, w.calls[i]? = some c ∧ c.role = r := by
  simpa [outline] using h

theorem forDebug_iff : w.outline.purposes[p]? = some .debug ↔ w.ForDebug p := by
  simp [Outline.purposes, ForDebug, outline]

/-- A process is gone in the outline if it has been disposed of. -/
theorem gone_iff : w.outline.Gone p ↔ w.IsDisposed p :=
  Outline.gone_iff

/-- The start of a debug session tends its process. -/
theorem StartsDebug.tends (h : w.StartsDebug i p) : w.outline.Tends i p := by
  obtain ⟨place, hi, hp⟩ := h
  refine ⟨_, roles_of_active hi, ?_⟩
  cases place <;> exact hp

/-- A debug process is tended by the start of its session, and by nobody else. -/
theorem tends_iff : w.outline.Tends i p ↔ w.StartsDebug i p := by
  refine ⟨fun ⟨r, hr, hp⟩ => ?_, StartsDebug.tends⟩
  obtain ⟨c, hc, rfl⟩ := exists_call_of_role hr
  obtain ⟨place, rfl, hplace⟩ := Call.startsDebug_of_tends hp
  exact ⟨place, hc, hplace⟩

/-- Who holds a debug process is the stop that has removed it. -/
theorem holds_iff : w.outline.Holds i p ↔ w.StopsDebug i p := by
  constructor
  · rintro ⟨r, hr, hp⟩
    obtain ⟨c, hc, rfl⟩ := exists_call_of_role hr
    obtain ⟨k, q, closing, next, rfl⟩ := Call.stopsDebug_of_removed hp
    exact ⟨k, q, closing, next, hc⟩
  · rintro ⟨k, q, closing, next, hi⟩
    exact ⟨_, roles_of_active hi, rfl⟩

/-- The start of a debug session brings its process up. -/
theorem BringsDebug.brings (h : w.BringsDebug i p) : w.outline.Brings i p := by
  obtain ⟨exe, hi⟩ := h
  exact roles_of_active hi

/-! ## Debug sessions are tended -/

/-- In a fresh world every debug process is tended: there is none. -/
theorem Fresh.tended (h : w.Fresh) : Tended w.outline := by
  rw [h.outline_eq]
  exact {
    alone := fun ⟨_, hr, _⟩ => by cases hr
    known := fun ⟨_, hr, _⟩ => by cases hr
    unseated := fun hi => by cases hi
    away := fun ⟨_, hr, _⟩ => by cases hr
    single := fun ⟨_, hr, _⟩ => by cases hr
    seized := fun hr => by cases hr
    watched := fun hx => by cases hx }

variable {start a b u : World} {ms : List Move} {n k d j : Nat}

/-- Debug sessions are tended at every moment of a session's life. -/
theorem Life.tended (h : Life start ms w) : Tended w.outline :=
  (play?_keeps (fun s t hrule => hrule.tended s.custody s.exits t) h.play h.ofSession h.fresh.sound
    h.fresh.tended).2

/-- A process that is about to be put into the session has not been disposed of. -/
theorem Life.brings_intact (h : Life start ms w) :
    ∀ i p, w.outline.Brings i p → ¬w.outline.Gone p := by
  have hstart : ∀ i p, start.outline.Brings i p → ¬start.outline.Gone p := by
    intro i p hi
    rw [h.fresh.outline_eq] at hi
    cases hi
  exact (play?_keeps (P := fun o => Tended o ∧ ∀ i p, o.Brings i p → ¬o.Gone p)
    (fun s t hrule => ⟨hrule.tended s.custody s.exits t.1,
      hrule.brings_intact s.custody s.exits t.1 t.2⟩)
    h.play h.ofSession h.fresh.sound ⟨h.fresh.tended, hstart⟩).2.2

/-- One move leads from one moment to the next one, by rules. -/
theorem Life.leads (h : Life start ms w) (ha : start.Moment ms n a)
    (hb : start.Moment ms (n + 1) b) :
    ∃ m, ms[n]? = some m ∧ a.move? m = some b ∧ m.ofSession = true ∧
      Leads m.actor a.outline b.outline := by
  obtain ⟨m, hm, hmove⟩ := ha.step hb
  have hof : m.ofSession = true := h.ofSession m (List.mem_of_getElem? hm)
  have hsound := (h.moment ha).sound
  exact ⟨m, hm, hmove, hof, move?_leads hmove hof hsound.tenure.inside hsound.present⟩

/-- A call acts by its own pieces only. -/
theorem eq_of_actor {m : Move} (h : m.actor = .call i) : m = .run (.call i) := by
  unfold Move.actor at h
  split at h <;> cases h
  rfl

/-! ## What a call does at a moment -/

/-- The call takes the process of a debug session out of the session. -/
def RemovedAt (start : World) (ms : List Move) (i p n : Nat) : Prop :=
  ∃ a b, start.Moment ms n a ∧ start.Moment ms (n + 1) b ∧ ms[n]? = some (.run (.call i)) ∧
    a.session.debug = some p ∧ b.session.debug ≠ some p

/-- The call disposes of the process. -/
def DisposedAt (start : World) (ms : List Move) (i p n : Nat) : Prop :=
  ∃ a b, start.Moment ms n a ∧ start.Moment ms (n + 1) b ∧ ms[n]? = some (.run (.call i)) ∧
    ¬a.IsDisposed p ∧ b.IsDisposed p

/-- The call starts a debug session with the process, and fails. -/
def FailsAt (start : World) (ms : List Move) (i p n : Nat) : Prop :=
  ∃ a b failure, start.Moment ms n a ∧ start.Moment ms (n + 1) b ∧ a.StartsDebug i p ∧
    b.calls[i]? = some (.active (.debugging (.withdrawing p failure)))

namespace Life

/-- What is taken out of the session is disposed of at once, or in the hands of a stop. -/
theorem debug_taken (h : Life start ms w) (ha : start.Moment ms n a)
    (hb : start.Moment ms (n + 1) b) (hp : a.session.debug = some p)
    (hp' : b.session.debug ≠ some p) :
    ∃ i, ms[n]? = some (.run (.call i)) ∧ (b.StopsDebug i p ∨ b.IsDisposed p) := by
  obtain ⟨m, hm, -, -, hleads⟩ := h.leads ha hb
  have hlife := h.moment ha
  rcases hleads.slot_cases hlife.sound hlife.tended hp with hslot | ⟨i, hi, hfate⟩
  · exact absurd hslot hp'
  · rw [eq_of_actor hi] at hm
    exact ⟨i, hm, hfate.imp holds_iff.1 gone_iff.1⟩

/-- A stop holds the debug process that it has removed until it is disposed of. -/
theorem stopsDebug_or (h : Life start ms w) (hn : start.Moment ms n v) (hk : start.Moment ms k u)
    (hle : n ≤ k) (hv : v.StopsDebug i p ∨ v.IsDisposed p) : u.StopsDebug i p ∨ u.IsDisposed p := by
  have hkept : Tended u.outline ∧ (u.outline.Holds i p ∨ u.outline.Gone p) := by
    refine h.keeps (P := fun o => Tended o ∧ (o.Holds i p ∨ o.Gone p)) (fun s ht hrule => ?_)
      hn hk hle ⟨(h.moment hn).tended, hv.imp holds_iff.2 gone_iff.2⟩
    exact ⟨hrule.tended s.custody s.exits ht.1, ht.2.elim (hrule.holds_stays ht.1)
      fun hg => .inr (hrule.gone_stays hg)⟩
  exact hkept.2.imp holds_iff.1 gone_iff.1

/-- A process stays one for debug sessions. -/
theorem forDebug_stays (h : Life start ms w) (hn : start.Moment ms n v)
    (hk : start.Moment ms k u) (hle : n ≤ k) (hv : v.ForDebug p) : u.ForDebug p :=
  forDebug_iff.1 (h.keeps (P := fun o => o.purposes[p]? = some .debug)
    (fun s hp hrule => (hrule.lasts s.exits).purpose hp) hn hk hle (forDebug_iff.2 hv))

/-- A debug process that is out of its room stays out. -/
theorem away_stays (h : Life start ms w) (hn : start.Moment ms n v) (hk : start.Moment ms k u)
    (hle : n ≤ k) (hv : v.outline.Away p) : u.outline.Away p := by
  have hkept : Tended u.outline ∧ u.outline.Away p := by
    refine h.keeps (P := fun o => Tended o ∧ o.Away p) (fun s ht hrule => ?_) hn hk hle
      ⟨(h.moment hn).tended, hv⟩
    exact ⟨hrule.tended s.custody s.exits ht.1, hrule.away s.exits ht.1 ht.2⟩
  exact hkept.2

/-- What was taken out of the session does not come back. -/
theorem away_of_taken (h : Life start ms w) (ha : start.Moment ms n a)
    (hb : start.Moment ms (n + 1) b) (hp : a.session.debug = some p)
    (hp' : b.session.debug ≠ some p) : b.outline.Away p := by
  obtain ⟨m, hm, -, -, hleads⟩ := h.leads ha hb
  have hlife := h.moment ha
  have hknown : a.outline.purposes[p]? = some .debug :=
    Outline.forDebug_iff.1 (hlife.sound.custody.debug hp)
  refine ⟨hleads.purpose hlife.sound hknown, hp', fun i hi => ?_⟩
  exact hlife.tended.unseated (hleads.brings_back hlife.sound hlife.tended hknown hi) hp

/-- A start that disposes of its own process fails. -/
theorem failsAt_of_disposed (h : Life start ms w) (ha : start.Moment ms n a)
    (hb : start.Moment ms (n + 1) b) (hm : ms[n]? = some (.run (.call i))) (hi : a.StartsDebug i p)
    (hd : ¬a.IsDisposed p) (hd' : b.IsDisposed p) : start.FailsAt ms i p n := by
  obtain ⟨m, hm', hmove, -, -⟩ := h.leads ha hb
  obtain rfl : m = .run (.call i) := Option.some.inj (hm'.symm.trans hm)
  obtain ⟨job, hjob, hpiece⟩ := call?_cases hmove
  have hstarts := hi
  obtain ⟨place, hplace, hp⟩ := hi
  cases hplace.symm.trans hjob
  have hseat : a.session.debug ≠ some p ∨ place.installs = false := by
    cases place with
    | installing exe q =>
      cases hp
      have hbrings : a.BringsDebug i p := ⟨exe, hplace⟩
      exact .inl ((h.moment ha).tended.unseated hbrings.brings)
    | _ => exact .inr rfl
  have hfails : (a.call (.debugging place)).Gives
      (fun v job => v.IsDisposed p → ∃ failure, job = .debugging (.withdrawing p failure))
      fun v _ => ¬v.IsDisposed p := by
    refine (a.debug_fails hp hseat hd).andThen (fun v place' hv hdisposed => ?_) fun v _ hv => hv
    obtain ⟨failure, rfl⟩ := hv hdisposed
    exact ⟨failure, rfl⟩
  have hcalls := a.call_calls (.debugging place)
  rcases hpiece with ⟨u, job', hpiece, rfl⟩ | ⟨u, r, hpiece, rfl⟩
  · rw [hpiece] at hfails hcalls
    obtain ⟨failure, rfl⟩ := hfails hd'
    refine ⟨a, _, failure, ha, hb, hstarts, List.getElem?_set_self ?_⟩
    rw [show u.calls = a.calls from hcalls]
    exact (List.getElem?_eq_some_iff.1 hplace).1
  · rw [hpiece] at hfails
    exact absurd hd' hfails

/-- Who disposes of the process of a debug session: its own start, which fails, the stop that has
it, or a call that takes it out of the session. -/
theorem disposed_cases (h : Life start ms w) (ha : start.Moment ms n a)
    (hb : start.Moment ms (n + 1) b) (hp : a.ForDebug p) (hd : ¬a.IsDisposed p)
    (hd' : b.IsDisposed p) :
    ∃ i, ms[n]? = some (.run (.call i)) ∧ (start.FailsAt ms i p n ∨ a.StopsDebug i p ∨
      a.session.debug = some p ∧ b.session.debug ≠ some p) := by
  obtain ⟨m, hm, -, -, hleads⟩ := h.leads ha hb
  have hlife := h.moment ha
  rcases hleads.gone_cases hlife.sound hlife.tended (forDebug_iff.2 hp) (gone_iff.2 hd') with
    hg | ⟨i, hi, hcase⟩
  · exact absurd (gone_iff.1 hg) hd
  · rw [eq_of_actor hi] at hm
    refine ⟨i, hm, ?_⟩
    rcases hcase with htends | hholds | ⟨hslot, haway⟩
    · exact .inl (h.failsAt_of_disposed ha hb hm (tends_iff.1 htends) hd hd')
    · exact .inr (.inl (holds_iff.1 hholds))
    · exact .inr (.inr ⟨hslot, haway.unseated⟩)

/-- What was disposed of between two moments was disposed of by a move between them. -/
theorem exists_disposal (hn : start.Moment ms n v) (hk : start.Moment ms k u) (hle : n ≤ k)
    (hv : ¬v.IsDisposed p) (hu : u.IsDisposed p) :
    ∃ d a b, n ≤ d ∧ d < k ∧ start.Moment ms d a ∧ start.Moment ms (d + 1) b ∧
      ¬a.IsDisposed p ∧ b.IsDisposed p := by
  induction k generalizing u with
  | zero =>
    obtain rfl := Nat.le_zero.1 hle
    exact absurd (hn.unique hk ▸ hu) hv
  | succ k ih =>
    rcases Nat.lt_or_eq_of_le hle with hlt | rfl
    · obtain ⟨a, ha⟩ := hk.pred
      by_cases hd : a.IsDisposed p
      · obtain ⟨d, a', b', hnd, hdk, hrest⟩ := ih ha (Nat.le_of_lt_succ hlt) hd
        exact ⟨d, a', b', hnd, Nat.lt_succ_of_lt hdk, hrest⟩
      · exact ⟨k, a, u, Nat.le_of_lt_succ hlt, Nat.lt_succ_self k, ha, hk, hd, hu⟩
    · exact absurd (hn.unique hk ▸ hu) hv

/-! ## What becomes of a process that is taken out -/

/-- What was taken out of the session is away at every later moment. -/
theorem away_after_removal (h : Life start ms w) (hr : start.RemovedAt ms i p n) (hlt : n < k)
    (hk : start.Moment ms k u) : u.outline.Away p := by
  obtain ⟨a, b, ha, hb, -, hp, hp'⟩ := hr
  exact h.away_stays hb hk hlt (h.away_of_taken ha hb hp hp')

/-- A process is taken out of the session once. -/
theorem removed_once (h : Life start ms w) {n' : Nat} (hi : start.RemovedAt ms i p n)
    (hj : start.RemovedAt ms j p n') : i = j ∧ n = n' := by
  have hnot : ∀ {i j n n' : Nat}, start.RemovedAt ms i p n → start.RemovedAt ms j p n' →
      ¬n < n' := by
    intro i j n n' hi hj hlt
    obtain ⟨a, -, ha, -, -, hp, -⟩ := hj
    exact (h.away_after_removal hi hlt ha).unseated hp
  obtain rfl : n = n' := by
    have hle := hnot hi hj
    have hge := hnot hj hi
    omega
  obtain ⟨-, -, -, -, hm, -, -⟩ := hi
  obtain ⟨-, -, -, -, hm', -, -⟩ := hj
  rw [hm] at hm'
  exact ⟨by simpa using hm', rfl⟩

/-- What was put into the session is disposed of before a moment: there was a move that did it. -/
theorem exists_disposal_of_debug (h : Life start ms w) (hn : start.Moment ms n v)
    (hp : v.session.debug = some p) (hk : start.Moment ms k u) (hle : n ≤ k)
    (hu : u.IsDisposed p) :
    ∃ d a b, d < k ∧ start.Moment ms d a ∧ start.Moment ms (d + 1) b ∧ a.ForDebug p ∧
      ¬a.IsDisposed p ∧ b.IsDisposed p := by
  obtain ⟨m, hmn, ⟨x, -, i, hx, -, -, hbrings⟩, -⟩ := h.last_brought hn hp
  have hlife := h.moment hx
  have hintact : ¬x.IsDisposed p := fun hd =>
    hlife.brings_intact i p hbrings.brings (gone_iff.2 hd)
  obtain ⟨d, a, b, hmd, hdk, ha, hb, hd, hd'⟩ :=
    exists_disposal hx hk (Nat.le_trans (Nat.le_of_lt hmn) hle) hintact hu
  have hknown : x.ForDebug p := forDebug_iff.1 (hlife.tended.known hbrings.brings.tends)
  exact ⟨d, a, b, hdk, ha, hb, h.forDebug_stays hx ha hmd hknown, hd, hd'⟩

/-- What a call takes out of the session it disposes of, if the start of the process does not. -/
theorem removed_fate (h : Life start ms w) (hr : start.RemovedAt ms i p n) (hlt : n < k)
    (hk : start.Moment ms k v) :
    v.StopsDebug i p ∨
      ∃ j d, d < k ∧ start.DisposedAt ms j p d ∧ (j = i ∨ start.FailsAt ms j p d) := by
  have haway := fun {x : Nat} {u : World} (hx : n < x) (hu : start.Moment ms x u) =>
    h.away_after_removal hr hx hu
  obtain ⟨a, b, ha, hb, hm, hp, hp'⟩ := hr
  have hfate : b.StopsDebug i p ∨ b.IsDisposed p := by
    obtain ⟨i', hm', hfate⟩ := h.debug_taken ha hb hp hp'
    rw [hm] at hm'
    obtain rfl : i = i' := by simpa using hm'
    exact hfate
  rcases h.stopsDebug_or hb hk hlt hfate with hholds | hdisposed
  · exact .inl hholds
  obtain ⟨d, a', b', hdk, ha', hb', hknown, hd, hd'⟩ :=
    h.exists_disposal_of_debug ha hp hk (Nat.le_of_lt hlt) hdisposed
  obtain ⟨j, hj, hcase⟩ := h.disposed_cases ha' hb' hknown hd hd'
  refine .inr ⟨j, d, hdk, ⟨a', b', ha', hb', hj, hd, hd'⟩, ?_⟩
  rcases hcase with hfails | hstops | ⟨hslot, hslot'⟩
  · exact .inr hfails
  · -- The stop holds the process, so this is after the removal, and one stop holds it then.
    refine .inl ?_
    rcases Nat.lt_or_ge n d with hnd | hdn
    · have hheld := (h.stopsDebug_or hb ha' hnd hfate).resolve_right hd
      exact (h.moment ha').tended.single (holds_iff.2 hstops) (holds_iff.2 hheld)
    · have hgone := (h.moment ha').tended.away (holds_iff.2 hstops)
      exact absurd hp (h.away_stays ha' ha hdn hgone).unseated
  · exact .inl (h.removed_once ⟨a', b', ha', hb', hj, hslot, hslot'⟩
      ⟨a, b, ha, hb, hm, hp, hp'⟩).1

/-! ## Starts spare each other -/

/-- Except where it puts its process into the session, a start takes out and disposes of its own
process only. -/
theorem startsDebug_spares {job : Job} (ha : start.Moment ms n a)
    (hb : start.Moment ms (n + 1) b) (hm : ms[n]? = some (.run (.call i)))
    (hjob : a.calls[i]? = some (.active job)) (hstarts : job.startsDebug = true)
    (hp : a.session.debug = some p ∧ b.session.debug ≠ some p ∨
      ¬a.IsDisposed p ∧ b.IsDisposed p) : job.debug? = some p := by
  obtain ⟨m, hm', hmove⟩ := ha.step hb
  obtain rfl : m = .run (.call i) := Option.some.inj (hm'.symm.trans hm)
  have hends : (a.call job).Ends fun v => (v.session = a.session ∨ ∃ p, job.debug? = some p ∧
      a.session.debug = some p ∧ v.session = { a.session with debug := none }) ∧
        ∀ p, v.IsDisposed p → a.IsDisposed p ∨ job.debug? = some p := by
    cases job with
    | fresh command =>
      cases command with
      | startDebug name =>
        have hsession := a.beginDebug_session name
        have hdisposals := a.beginDebug_disposals name
        change (Progress.andThen (a.beginDebug name) Job.debugging fun v outcome =>
          .finished v (CallResult.debug outcome)).Ends _
        generalize a.beginDebug name = x at hsession hdisposals ⊢
        cases x with
        | blocked => trivial
        | _ => exact ⟨.inl hsession, fun p hp => .inl (hp.of_disposals hdisposals)⟩
      | _ => cases hstarts
    | debugging place =>
      have hinstalls : place.installs = false := by simpa [Job.startsDebug] using hstarts
      have hsession := a.debug_session place hinstalls
      have hspares := a.debug_spares place hinstalls
      change (Progress.andThen (a.debug place) Job.debugging fun v outcome =>
        .finished v (CallResult.debug outcome)).Ends _
      generalize a.debug place = x at hsession hspares ⊢
      cases x with
      | blocked => trivial
      | _ => exact ⟨hsession, hspares⟩
    | _ => cases hstarts
  obtain ⟨job', hjob', hpiece⟩ := call?_cases hmove
  cases hjob.symm.trans hjob'
  obtain ⟨hsession, hdisposed⟩ : (b.session = a.session ∨ ∃ p, job.debug? = some p ∧
      a.session.debug = some p ∧ b.session = { a.session with debug := none }) ∧
        ∀ p, b.IsDisposed p → a.IsDisposed p ∨ job.debug? = some p := by
    rcases hpiece with ⟨u, job', hpiece, rfl⟩ | ⟨u, r, hpiece, rfl⟩ <;>
      (rw [hpiece] at hends; exact hends)
  rcases hp with ⟨hp, hp'⟩ | ⟨hd, hd'⟩
  · rcases hsession with hsame | ⟨q, hq, hslot, -⟩
    · exact absurd (hsame ▸ hp) hp'
    · rwa [← Option.some.inj (hslot.symm.trans hp)]
  · exact (hdisposed p hd').resolve_left hd

/-- A start does not fail where it puts its process into the session: it goes on to wait for the
answer of the launcher. -/
theorem launches_where_brought (h : Life start ms w) (ha : start.Moment ms n a)
    (hb : start.Moment ms (n + 1) b) (hm : ms[n]? = some (.run (.call i)))
    (hi : a.BringsDebug i p) :
    ∃ exe c, b.calls[i]? = some (.active (.debugging (.launching exe p (.answer c)))) := by
  obtain ⟨m, hm', hmove⟩ := ha.step hb
  obtain rfl : m = .run (.call i) := Option.some.inj (hm'.symm.trans hm)
  have hlife := h.moment ha
  have hintact : ¬a.IsDisposed p := fun hd => hlife.brings_intact i p hi.brings (gone_iff.2 hd)
  have hseat := hlife.tended.unseated hi.brings
  obtain ⟨exe, hplace⟩ := hi
  have hlaunch : ∀ u : World, ¬u.IsDisposed p →
      ((u.beginLaunch p).andThen (.launching exe p) fun v outcome =>
        v.afterDebugLaunch exe p outcome).Gives
        (fun _ place => ∃ c, place = .launching exe p (.answer c)) fun _ _ => False := by
    intro u hd
    unfold beginLaunch
    cases hq : u.processes[p]? with
    | none => trivial
    | some q =>
      have hnot : q.disposed = false := by
        by_contra hdisposed
        exact hd ⟨q, hq, by simpa using hdisposed⟩
      simp only [hnot, Bool.false_eq_true, if_false]
      exact ⟨u.consoles.length, rfl⟩
  have hgoes : (a.installDebug exe p).Gives
      (fun _ place => ∃ c, place = .launching exe p (.answer c)) fun _ _ => False := by
    unfold installDebug
    cases hprevious : a.session.debug with
    | none => exact hlaunch _ hintact
    | some previous =>
      refine hlaunch _ fun hd => ?_
      rcases IsDisposed.of_dispose hd with hd | rfl
      · exact hintact hd
      · exact hseat hprevious
  obtain ⟨job, hjob, hpiece⟩ := call?_cases hmove
  cases hplace.symm.trans hjob
  have hcall : (a.call (.debugging (.installing exe p))).Gives
      (fun _ job => ∃ c, job = .debugging (.launching exe p (.answer c))) fun _ _ => False :=
    hgoes.andThen (fun _ _ ⟨c, hc⟩ => ⟨c, congrArg Job.debugging hc⟩) fun _ _ => False.elim
  have hcalls := a.call_calls (.debugging (.installing exe p))
  rcases hpiece with ⟨u, job', hpiece, rfl⟩ | ⟨u, r, hpiece, rfl⟩
  · rw [hpiece] at hcall hcalls
    obtain ⟨c, rfl⟩ := hcall
    refine ⟨exe, c, List.getElem?_set_self ?_⟩
    rw [show u.calls = a.calls from hcalls]
    exact (List.getElem?_eq_some_iff.1 hplace).1
  · rw [hpiece] at hcall
    exact hcall.elim

/-! ## What is left -/

/-- With no call at work on a debug session, a process that has not been disposed of is the one in
the session. -/
theorem debug_of_atRest (h : Life start ms w) (hn : start.Moment ms n v) (hrest : v.DebugAtRest)
    (hp : v.ForDebug p) (hd : ¬v.IsDisposed p) : v.session.debug = some p := by
  have hlife := h.moment hn
  have hpurpose := forDebug_iff.2 hp
  have hmain : ¬v.outline.ForMain p := by
    rintro ⟨g, hg⟩
    cases hpurpose.symm.trans hg
  have hnobody : ∀ {i : Nat} {r : Role}, v.outline.roles[i]? = some r → ¬r.Keeps p := by
    intro i r hr hkeeps
    rcases hkeeps.cases with hseized | hremoved | ⟨u, hbrings⟩
    · exact hmain (hlife.tended.seized hr hseized)
    · obtain ⟨c, q, closing, next, hi⟩ := holds_iff.1 ⟨r, hr, hremoved⟩
      cases hrest _ (List.mem_of_getElem? hi)
    · obtain ⟨k, d, hs⟩ := hlife.sound.custody.known hr hbrings
      obtain ⟨q, hq, hstanding⟩ := Outline.exists_of_standing? hs
      obtain ⟨q', hq', hpurpose⟩ := hp
      obtain rfl : q = q' := Option.some.inj (hq.symm.trans hq')
      obtain rfl : u = .debug := (congrArg Standing.purpose hstanding).symm.trans hpurpose
      obtain ⟨place, hi, -⟩ := tends_iff.1 ⟨r, hr, Role.tends?_of_brings? hbrings⟩
      cases hrest _ (List.mem_of_getElem? hi)
  obtain ⟨n', d, hstanding⟩ := Outline.forDebug_iff.2 hpurpose
  obtain rfl : d = false := by
    by_contra hdisposed
    exact hd (gone_iff.1 ⟨_, _, by simpa [hdisposed] using hstanding⟩)
  cases hlife.sound.custody.kept hstanding with
  | call hr hkeeps => exact absurd hkeeps (hnobody hr)
  | watch hx hdrops => exact absurd (hlife.tended.watched hx hdrops) hmain
  | process hg => exact absurd (hlife.sound.custody.forMain (by simp [Outline.process?, hg])) hmain
  | debug hslot => exact hslot

/-- One debug console.  What is in the session is taken out by a call, once, and that call disposes
of it, if its own start does not, which fails then; a stop that has taken it out has it in its hands
until then.  A start takes out and disposes of its own process only, which is no other start's,
except where it puts its process into the session, and there it does not fail.  With no call at work
on a debug session, the only process that has not been disposed of is the one in the session, which
was put there last. -/
theorem one_debug_console (h : Life start ms w) :
    (∀ n a b p, start.Moment ms n a → start.Moment ms (n + 1) b → a.session.debug = some p →
      b.session.debug ≠ some p → ∃ i, start.RemovedAt ms i p n) ∧
    (∀ i j p n n', start.RemovedAt ms i p n → start.RemovedAt ms j p n' → i = j ∧ n = n') ∧
    (∀ i p n k v, start.RemovedAt ms i p n → n < k → start.Moment ms k v → v.StopsDebug i p ∨
      ∃ j d, d < k ∧ start.DisposedAt ms j p d ∧ (j = i ∨ start.FailsAt ms j p d)) ∧
    (∀ n a b i job p, start.Moment ms n a → start.Moment ms (n + 1) b →
      ms[n]? = some (.run (.call i)) → a.calls[i]? = some (.active job) →
      job.startsDebug = true →
      (a.session.debug = some p ∧ b.session.debug ≠ some p ∨ ¬a.IsDisposed p ∧ b.IsDisposed p) →
      a.StartsDebug i p ∧ ∀ j, a.StartsDebug j p → j = i) ∧
    (∀ n a b i p, start.Moment ms n a → start.Moment ms (n + 1) b →
      ms[n]? = some (.run (.call i)) → a.BringsDebug i p →
      ∃ exe c, b.calls[i]? = some (.active (.debugging (.launching exe p (.answer c))))) ∧
    ∀ n v p, start.Moment ms n v → v.DebugAtRest → v.ForDebug p → ¬v.IsDisposed p →
      v.session.debug = some p ∧ ∃ k, k < n ∧ start.BroughtAt ms p k ∧
        ∀ k' q, k < k' → k' < n → ¬start.BroughtAt ms q k' := by
  refine ⟨?taken, ?once, ?fate, ?spares, ?launches, ?left⟩
  case taken =>
    intro n a b p ha hb hp hp'
    obtain ⟨i, hi, -⟩ := h.debug_taken ha hb hp hp'
    exact ⟨i, a, b, ha, hb, hi, hp, hp'⟩
  case once => exact fun i j p n n' hi hj => h.removed_once hi hj
  case fate => exact fun i p n k v hr hlt hk => h.removed_fate hr hlt hk
  case spares =>
    intro n a b i job p ha hb hm hjob hstarts hp
    have hown := startsDebug_spares ha hb hm hjob hstarts hp
    have hi : a.StartsDebug i p := by
      cases job with
      | debugging place => exact ⟨place, hjob, hown⟩
      | _ => cases hown
    exact ⟨hi, fun j hj => (h.moment ha).tended.alone hj.tends hi.tends⟩
  case launches => exact fun n a b i p ha hb hm hi => h.launches_where_brought ha hb hm hi
  case left =>
    intro n v p hn hrest hp hd
    have hslot := h.debug_of_atRest hn hrest hp hd
    exact ⟨hslot, h.last_brought hn hslot⟩

end Life

/-- Two starts of debug sessions: the second one takes the place of the first, whose launcher
refuses after that, and comes up. -/
def Trial.replacing : List Move :=
  [.ask (.startDebug none), .run (.call 0), .run (.call 0), .perform 0, .run (.call 0),
    .run (.call 0), .ask (.startDebug none), .run (.call 1), .run (.call 1), .perform 1,
    .run (.call 1), .run (.call 1), .answerLaunch 0 (.error (.ofKind .notFound)),
    .run (.call 0), .run (.call 0), .answerLaunch 1 (.ok none), .run (.call 1),
    .writeFile ⟨"PSES-Host--100001-Debug.json"⟩
      (Text.utf8Bytes "[\"started\",null,null,null,null,1]"),
    .perform 1, .run (.call 1)]

/-- The second start disposes of the first one's process, which fails and leaves the second one's
where it is. -/
theorem one_debug_console_trial :
    ∃ w, Trial.start.Life Trial.replacing w ∧ Trial.start.RemovedAt Trial.replacing 1 0 11 ∧
      (∃ j d, d < 20 ∧ Trial.start.DisposedAt Trial.replacing j 0 d ∧
        (j = 1 ∨ Trial.start.FailsAt Trial.replacing j 0 d)) ∧
      w.DebugAtRest ∧ w.ForDebug 1 ∧ ¬w.IsDisposed 1 ∧ w.session.debug = some 1 ∧
      ∃ k, k < 20 ∧ Trial.start.BroughtAt Trial.replacing 1 k ∧
        ∀ k' q, k < k' → k' < 20 → ¬Trial.start.BroughtAt Trial.replacing q k' := by
  have hrun : (Trial.start.play? Trial.replacing).isSome = true := by decide +kernel
  obtain ⟨w, hplay⟩ := Option.isSome_iff_exists.1 hrun
  have hlife := Trial.life hplay (by decide)
  obtain ⟨a, ha⟩ := hlife.exists_moment (n := 11) (by decide)
  obtain ⟨b, hb⟩ := hlife.exists_moment (n := 12) (by decide)
  have hbefore : (Trial.start.play? (Trial.replacing.take 11)).any (fun v =>
      v.session.debug == some 0) = true := by decide +kernel
  rw [ha.2, Option.any_some, beq_iff_eq] at hbefore
  have hafter : (Trial.start.play? (Trial.replacing.take 12)).any (fun v =>
      v.session.debug == some 1) = true := by decide +kernel
  rw [hb.2, Option.any_some, beq_iff_eq] at hafter
  have hremoved : Trial.start.RemovedAt Trial.replacing 1 0 11 :=
    ⟨a, b, ha, hb, rfl, hbefore, by rw [hafter]; decide⟩
  have hend : (Trial.start.play? Trial.replacing).any (fun v =>
      v.calls.all (fun c => !c.onDebug) &&
        v.processes[1]?.any fun q => q.purpose == .debug && !q.disposed) = true := by
    decide +kernel
  rw [hplay, Option.any_some, Bool.and_eq_true, List.all_eq_true, Option.any_eq_true] at hend
  obtain ⟨hcalls, q, hq, hstands⟩ := hend
  simp only [Bool.and_eq_true, beq_iff_eq, Bool.not_eq_true'] at hstands
  have hrest : w.DebugAtRest := fun c hc => by simpa using hcalls c hc
  have hdebug : w.ForDebug 1 := ⟨q, hq, hstands.1⟩
  have hintact : ¬w.IsDisposed 1 := by
    rintro ⟨q', hq', hd⟩
    obtain rfl := Option.some.inj (hq.symm.trans hq')
    rw [hstands.2] at hd
    cases hd
  obtain ⟨-, -, hfate, -, -, hleft⟩ := hlife.one_debug_console
  have hgone := (hfate 1 0 11 20 w hremoved (by decide) hlife.last).resolve_left fun hstops => by
    obtain ⟨c, q, closing, next, hi⟩ := hstops
    cases hrest _ (List.mem_of_getElem? hi)
  exact ⟨w, hlife, hremoved, hgone, hrest, hdebug, hintact,
    hleft 20 w 1 hlife.last hrest hdebug hintact⟩

end World

end SessionHost
