import SessionHost.Proofs.Lifecycle.Consistency

/-!
# What becomes of consoles

A console that was launched ends up in one of the session's two places, or it was told to end,
once.  Whether its own end is noticed depends on the moment: the watch over an exit looks at the
status once, and a start that is still under way then goes on as if nothing had happened.

Main definitions:

- `World.AtRest`: nothing is under way.
- `World.ReportedExit`, `World.SeesEarly`: an exit that nobody asked for, and a watch that sees
  it too early.

Main results:

- Theorem `World.Life.consoles_accounted`: no console is left behind.
- Theorem `World.Life.exit_lost_iff`: when the exit of a live session's console is lost.
-/

namespace SessionHost

namespace World

variable {start w : World} {ms : List Move}

/-! ## No console is left behind -/

/-- Nothing is under way: all calls are over, and no watch is in the middle of its work. -/
structure AtRest (w : World) : Prop where
  calls : w.Idle
  watches : ∀ x ∈ w.watches, ∀ e r, x.place ≠ .releasing e r

/-- A call that is over plays no part any more. -/
theorem Idle.role_eq (h : w.Idle) {i : Nat} {r : Role} (hr : w.outline.roles[i]? = some r) :
    r = .bystander := by
  obtain ⟨call, hcall, rfl⟩ : ∃ call, w.calls[i]? = some call ∧ call.role = r := by
    simpa [outline] using hr
  obtain ⟨result, rfl⟩ := h call (List.mem_of_getElem? hcall)
  rfl

theorem AtRest.vigil_ne (h : w.AtRest) {j : Nat} {x : Lookout}
    (hx : w.outline.lookouts[j]? = some x) (grip : Grip) : x.vigil ≠ .releasing grip := by
  obtain ⟨y, hy, rfl⟩ : ∃ y, w.watches[j]? = some y ∧ y.lookout = x := by
    simpa [outline] using hx
  intro hv
  change y.place.vigil = .releasing grip at hv
  cases hplace : y.place with
  | releasing e r => exact h.watches y (List.mem_of_getElem? hy) e r hplace
  | _ =>
    rw [hplace] at hv
    cases hv

/-- A session with a process is live when nothing is under way. -/
theorem AtRest.isLive_of_process (h : w.AtRest) (s : Sound w.outline) {x : Stored Nat}
    (hx : w.session.process = some x) : w.status.isLive = true := by
  have hfull : ¬w.outline.session.Vacant := by
    intro hvacant
    rw [show w.session.process = none from hvacant.1] at hx
    cases hx
  have hunclaimed (c : Claim) : w.outline.claim? ≠ some c := by
    intro hc
    obtain ⟨i, r, hr, hclaim⟩ := s.tenure.owned hc
    rw [h.calls.role_eq hr] at hclaim
    cases hclaim
  cases hs : w.status with
  | notStarted => exact absurd (s.slots.idle hs) hfull
  | starting => exact absurd (Outline.claim?_of_starting hs) (hunclaimed _)
  | stopping => exact absurd (Outline.claim?_of_stopping hs) (hunclaimed _)
  | failed =>
    rcases s.slots.failed hs with hvacant | ⟨j, y, hy, -, hv⟩
    · exact absurd hvacant hfull
    · exact absurd hv (h.vigil_ne hy _)
  | running => rfl
  | busy => rfl

/-- A console is told to end at most once.  When nothing is under way, a console that the
launcher has not refused and that was not told to end is the console of the session's process,
and the session is live, or the console of the debug session. -/
theorem Life.consoles_accounted (h : Life start ms w) :
    (∀ k ∈ w.consoles, k.kills ≤ 1) ∧
      (w.AtRest → ∀ (c : Nat) (k : Console), w.consoles[c]? = some k →
        (∀ e, k.answer ≠ some (.error e)) → k.kills = 0 →
        (∃ g p q, w.session.process = some ⟨g, p⟩ ∧ w.processes[p]? = some q ∧
          q.console = some c ∧ w.status.isLive = true) ∨
        ∃ p q, w.session.debug = some p ∧ w.processes[p]? = some q ∧ q.console = some c) := by
  have s := h.sound
  constructor
  · intro k hk
    obtain ⟨c, hc⟩ := List.mem_iff_getElem?.1 hk
    exact s.supervision.once (Outline.marks_of_some (o := w.outline) hc)
  · intro hrest c k hc hanswer hkills
    have hmark := Outline.marks_of_some (o := w.outline) hc
    rcases s.supervision.accounted hmark with hk | hk | ⟨b, hb, hbc⟩ | ⟨i, r, hr, ha⟩
    · rw [show k.mark.kills = 0 from hkills] at hk
      cases hk
    · obtain ⟨e, he⟩ := Console.isRefused_iff.1 hk
      exact absurd he (hanswer e)
    · obtain ⟨q, hq, rfl⟩ := Outline.exists_of_bond hb
      have hd : q.disposed = false := (s.supervision.linked hb hbc).1
      have hstanding : w.outline.standing? k.mark.owner =
          some ⟨q.purpose, q.noticeTaken, false⟩ := by
        rw [Outline.standing?_of_some hq, ServerProcess.standing, hd]
      cases s.custody.kept hstanding with
      | call hr hkeeps =>
        rw [hrest.calls.role_eq hr] at hkeeps
        exact absurd hkeeps (Role.not_keeps rfl rfl _)
      | watch hx hdrops => exact absurd hdrops (hrest.vigil_ne hx _)
      | process hp =>
        exact .inl ⟨_, _, q, hp, hq, hbc, hrest.isLive_of_process s hp⟩
      | debug hp => exact .inr ⟨_, q, hp, hq, hbc⟩
    · rw [hrest.calls.role_eq hr] at ha
      cases ha

/-- When a start has come to its end, its console is the console of the session. -/
theorem consoles_accounted_trial :
    ∃ w k, Trial.start.Life (Trial.launching ++ Trial.connecting) w ∧ w.AtRest ∧
      w.consoles[0]? = some k ∧ (∀ e, k.answer ≠ some (.error e)) ∧ k.kills = 0 ∧
      ((∃ g p q, w.session.process = some ⟨g, p⟩ ∧ w.processes[p]? = some q ∧
          q.console = some 0 ∧ w.status.isLive = true) ∨
        ∃ p q, w.session.debug = some p ∧ w.processes[p]? = some q ∧ q.console = some 0) := by
  have hrun : (Trial.start.play? (Trial.launching ++ Trial.connecting)).any (fun w =>
      (w.calls.all fun c => c.result?.isSome) &&
        (w.watches.all fun x => x.place.vigil == .waiting) &&
        w.consoles[0]?.any fun k => !k.isRefused && k.kills == 0) = true := by decide +kernel
  obtain ⟨w, hplay, hw⟩ := (Option.any_eq_true _ _).1 hrun
  simp only [Bool.and_eq_true, List.all_eq_true, Option.any_eq_true, Bool.not_eq_true',
    beq_iff_eq] at hw
  obtain ⟨⟨hcalls, hwatches⟩, k, hk, hanswer, hkills⟩ := hw
  have hlife := Trial.life hplay (by decide)
  have hrest : w.AtRest := by
    refine ⟨idle_of_results hcalls, fun x hx e r hplace => ?_⟩
    have hwaits := hwatches x hx
    rw [hplace] at hwaits
    cases hwaits
  have hok : ∀ e, k.answer ≠ some (.error e) := fun e he => by
    rw [Console.isRefused_iff.2 ⟨e, he⟩] at hanswer
    cases hanswer
  exact ⟨w, k, hlife, hrest, hk, hok, hkills,
    hlife.consoles_accounted.2 hrest 0 k hk hok hkills⟩

/-! ## When an exit is lost -/

/-- The main console of a generation has reported an exit that nobody asked for. -/
def ReportedExit (w : World) (g : Nat) : Prop :=
  ∃ (c : Nat) (k : Console) (q : ServerProcess) (e : ConsoleExit),
    w.consoles[c]? = some k ∧ w.processes[k.owner]? = some q ∧ q.purpose = .main g ∧
      k.ending = some (.reported e) ∧ e.requested = false

/-- A watch of the present generation waits, and its process knows of an exit that nobody asked
for, while the start of that generation still has the status. -/
def SeesEarly (w : World) (j g : Nat) : Prop :=
  ∃ (x : Watch) (q : ServerProcess) (e : ConsoleExit), w.watches[j]? = some x ∧
    x.place = .waiting ∧ x.generation = g ∧ w.processes[x.process]? = some q ∧
    q.exit = some e ∧ e.requested = false ∧ w.generation = g ∧ w.status = .starting

/-- A watch that does not wait any more has run since it began to wait. -/
theorem exists_watch_run {u : World} {j : Nat} {x : Lookout} (h : u.play? ms = some w)
    (hm : ∀ m ∈ ms, m.ofSession = true) (s : Sound u.outline)
    (hu : ∀ {y : Lookout}, u.outline.lookouts[j]? = some y → y.vigil = .waiting)
    (hx : w.outline.lookouts[j]? = some x) (hv : x.vigil ≠ .waiting) :
    ∃ (ms₁ ms₂ : List Move) (v : World) (y : Watch), ms = ms₁ ++ .run (.watch j) :: ms₂ ∧
      u.play? ms₁ = some v ∧ v.watches[j]? = some y ∧ y.place = .waiting := by
  induction ms generalizing u with
  | nil =>
    cases h
    exact absurd (hu hx) hv
  | cons m rest ih =>
    obtain ⟨u', hu', hrest⟩ := Option.bind_eq_some_iff.1 h
    by_cases hrun : m = .run (.watch j)
    · subst hrun
      obtain ⟨y, hy, -⟩ := Option.bind_eq_some_iff.1 hu'
      have hvigil : y.place.vigil = .waiting := hu (lookout_of_watch hy)
      refine ⟨[], rest, u, y, rfl, rfl, hy, ?_⟩
      cases hplace : y.place with
      | waiting => rfl
      | _ =>
        rw [hplace] at hvigil
        cases hvigil
    · have hleads := move?_leads hu' (hm m (by simp)) s.tenure.inside s.present
      have hwaits : ∀ {y : Lookout}, u'.outline.lookouts[j]? = some y → y.vigil = .waiting :=
        hleads.keeps (P := fun o => ∀ {y : Lookout}, o.lookouts[j]? = some y → y.vigil = .waiting)
          (fun _ _ ho hrule _ hy => hrule.waits (Move.actor_ne_watch hrun) ho hy) hu
      obtain ⟨ms₁, ms₂, v, y, rfl, hplay, hy, hplace⟩ :=
        ih hrest (fun m hm' => hm m (by simp [hm'])) (hleads.sound s) hwaits
      refine ⟨m :: ms₁, ms₂, v, y, rfl, ?_, hy, hplace⟩
      rw [play?, hu']
      exact hplay

/-- What a process knows of its exit lasts, whatever happens. -/
theorem play?_lasts {u : World} (h : u.play? ms = some w) (hm : ∀ m ∈ ms, m.ofSession = true)
    (s : Sound u.outline) : u.outline.Lasts w.outline := by
  refine (play?_keeps (P := fun o => u.outline.Lasts o) (fun ho hlasts hrule => ?_) h hm s
    (.of_eq rfl)).2
  exact hlasts.trans (hrule.lasts ho.exits)

/-- A generation that is over stays over, whatever happens. -/
theorem play?_spent {u : World} {g : Nat} (h : u.play? ms = some w)
    (hm : ∀ m ∈ ms, m.ofSession = true) (s : Sound u.outline) (hg : u.outline.Spent g) :
    w.outline.Spent g :=
  (play?_keeps (P := fun o => o.Spent g) (fun ho hspent hrule => hrule.spent ho.tenure hspent)
    h hm s hg).2

theorem play?_lookout {u : World} {j : Nat} {x : Lookout} (h : u.play? ms = some w)
    (hm : ∀ m ∈ ms, m.ofSession = true) (s : Sound u.outline)
    (hx : u.outline.lookouts[j]? = some x) :
    ∃ v, w.outline.lookouts[j]? = some { x with vigil := v } := by
  refine (play?_keeps (P := fun o => ∃ v, o.lookouts[j]? = some { x with vigil := v })
    (fun _ hkept hrule => ?_) h hm s ⟨x.vigil, hx⟩).2
  obtain ⟨v, hv⟩ := hkept
  obtain ⟨v', hv'⟩ := hrule.lookout_stays hv
  exact ⟨v', hv'⟩

/-- The main process of a live session's generation is the one in the session. -/
theorem process_of_live (s : Sound w.outline) (hlive : w.status.isLive = true) {p : Nat}
    {q : ServerProcess} (hq : w.processes[p]? = some q) (hp : q.purpose = .main w.generation) :
    w.session.process = some ⟨w.generation, p⟩ ∧ q.disposed = false := by
  obtain ⟨p', -, -, -, hprocess, -⟩ := s.slots.live hlive
  obtain ⟨q', hq', hstanding⟩ := Outline.exists_of_standing? (s.custody.seated hprocess)
  have hp' : q'.purpose = .main w.generation := congrArg Standing.purpose hstanding
  have hsame : p = p' :=
    s.lineage.single (g := w.generation) (by simp [Outline.purposes, outline, hq, hp])
      (by simp [Outline.purposes, hq', hp'])
  subst hsame
  obtain rfl : q = q' := Option.some.inj (hq.symm.trans hq')
  exact ⟨hprocess, congrArg Standing.disposed hstanding⟩

/-- What the main process of a live session knows of its exit is what its console has
reported. -/
theorem ending_of_exit (s : Sound w.outline) (hlive : w.status.isLive = true) {p : Nat}
    {q : ServerProcess} {e : ConsoleExit} (hq : w.processes[p]? = some q)
    (hp : q.purpose = .main w.generation) (he : q.exit = some e) :
    ∃ (c : Nat) (k : Console) (n : Ending), w.consoles[c]? = some k ∧ k.owner = p ∧
      k.ending = some n ∧ n.exit = e := by
  obtain ⟨-, hd⟩ := process_of_live s hlive hq hp
  rcases s.exits.reported (Outline.outcomes_of_some (o := w.outline) hq) he with
    hdis | ⟨c, x, n, hx, howner, -, hending, hexit⟩
  · rw [show q.outcome.disposed = false from hd] at hdis
    cases hdis
  · obtain ⟨k, hk, rfl⟩ := Outline.exists_of_report hx
    exact ⟨c, k, n, hk, howner, hending, hexit⟩

/-- A process has one console, so the exit that a live session's main process knows of is the
one that this console has reported. -/
theorem exit_eq_of_reported (s : Sound w.outline) (hlive : w.status.isLive = true) {c : Nat}
    {k : Console} {q : ServerProcess} {e e' : ConsoleExit} (hc : w.consoles[c]? = some k)
    (hq : w.processes[k.owner]? = some q) (hp : q.purpose = .main w.generation)
    (hending : k.ending = some (.reported e)) (he' : q.exit = some e') : e' = e := by
  obtain ⟨c', k', n, hc', howner, hending', hn⟩ := ending_of_exit s hlive hq hp he'
  obtain rfl : c' = c := s.supervision.single (Outline.marks_of_some (o := w.outline) hc')
    (Outline.marks_of_some (o := w.outline) hc) howner
  obtain rfl : k = k' := Option.some.inj (hc.symm.trans hc')
  obtain rfl : Ending.reported e = n := Option.some.inj (hending.symm.trans hending')
  exact hn.symm

/-- The process in the session is watched, and the watch is over when all watches are. -/
theorem exists_watch_of_process (s : Sound w.outline) (hover : ∀ x ∈ w.watches, x.place = .over)
    {g p : Nat} (hp : w.session.process = some ⟨g, p⟩) :
    ∃ j : Nat, w.outline.lookouts[j]? = some (⟨p, g, .over⟩ : Lookout) := by
  obtain ⟨x, hmem, hx⟩ := List.mem_map.1 (s.watched.noticed (s.custody.seated hp))
  obtain ⟨j, hj⟩ := List.mem_iff_getElem?.1 hmem
  obtain ⟨y, hy, rfl⟩ : ∃ y, w.watches[j]? = some y ∧ y.lookout = x := by
    simpa [outline] using hj
  cases hx
  refine ⟨j, ?_⟩
  rw [hj, Watch.lookout, hover y (List.mem_of_getElem? hy)]
  rfl

/-- A generation that is live in the end has its start under way, or is live, when its watch
looks at an exit. -/
theorem status_of_present {v : World} {g : Nat} (hle : g ≤ v.generation)
    (hpresent : ¬v.outline.Spent g) :
    v.generation = g ∧ (v.status = .starting ∨ v.status.isLive = true) := by
  have hg : v.generation = g :=
    (Nat.lt_or_eq_of_le hle).elim (fun hlt => absurd (.inl hlt) hpresent) Eq.symm
  refine ⟨hg, ?_⟩
  cases hs : v.status with
  | starting => exact .inl rfl
  | running => exact .inr rfl
  | busy => exact .inr rfl
  | notStarted => exact absurd (.inr ⟨hg.symm, .inr (.inr hs)⟩) hpresent
  | stopping => exact absurd (.inr ⟨hg.symm, .inr (.inl hs)⟩) hpresent
  | failed => exact absurd (.inr ⟨hg.symm, .inl hs⟩) hpresent

/-- A watch that has run while its session was live, on an exit that nobody asked for, has ended
that generation. -/
theorem spent_of_watch_run {v : World} {j : Nat} {y : Watch} {e : ConsoleExit}
    (sv : Sound v.outline) (hr : e.requested = false) (hg : v.generation = y.generation)
    (hs : v.status.isLive = true) : (v.seeExit j y e).outline.Spent y.generation := by
  rw [outline_seeExit_of_live hr sv.present hg hs]
  exact .inr ⟨hg.symm, .inl rfl⟩

/-- An exit of a live session's console has been seen too early. -/
theorem Life.exists_seesEarly (h : Life start ms w) (hover : ∀ x ∈ w.watches, x.place = .over)
    (hlive : w.status.isLive = true) (hreported : w.ReportedExit w.generation) :
    ∃ ms₁ j ms₂ v, ms = ms₁ ++ .run (.watch j) :: ms₂ ∧ start.play? ms₁ = some v ∧
      v.SeesEarly j w.generation := by
  have s := h.sound
  obtain ⟨c, k, q, e, hc, hq, hp, hending, he⟩ := hreported
  obtain ⟨hprocess, -⟩ := process_of_live s hlive hq hp
  obtain ⟨j, hj⟩ := exists_watch_of_process s hover hprocess
  have hnone : ∀ {y : Lookout}, start.outline.lookouts[j]? = some y → y.vigil = .waiting := by
    rw [h.fresh.outline_eq]
    nofun
  obtain ⟨ms₁, ms₂, v, y, rfl, hplay, hy, hplace⟩ :=
    exists_watch_run h.play h.ofSession h.fresh.sound hnone hj (by nofun)
  obtain ⟨v₁, hv, hrest, hm⟩ := h.split
  obtain rfl : v = v₁ := Option.some.inj (hplay.symm.trans hv.play)
  have sv := hv.sound
  -- It is for the same process and the same generation all the time.
  obtain ⟨vigil, hstay⟩ := play?_lookout hrest hm sv (lookout_of_watch hy)
  rw [hj, Option.some.injEq, Lookout.mk.injEq] at hstay
  have hprocess' : y.process = k.owner := hstay.1.symm
  have hgeneration : y.generation = w.generation := hstay.2.1.symm
  -- It has seen what the console has reported.
  obtain ⟨v', hmove, hlast⟩ := Option.bind_eq_some_iff.1 hrest
  obtain ⟨q', e', hq', he', rfl⟩ := watch?_of_waiting hmove hy hplace
  obtain ⟨q₁, hq₁, -, hlasts⟩ := play?_lasts hrest hm sv _ _ hq'
  rw [hprocess'] at hq₁
  obtain rfl : q = q₁ := Option.some.inj (hq.symm.trans hq₁)
  obtain rfl : e' = e := exit_eq_of_reported s hlive hc hq hp hending (hlasts e' he')
  -- Its generation was not over then, because it is not over in the end.
  have hpresent {u : World} {ns : List Move} (hu : u.play? ns = some w)
      (hns : ∀ m ∈ ns, m.ofSession = true) (su : Sound u.outline) :
      ¬u.outline.Spent w.generation := fun hspent =>
    Nat.lt_irrefl _ ((play?_spent hu hns su hspent).lt (.inr hlive))
  have hle : y.generation ≤ v.generation := (sv.tenure.watches (lookout_of_watch hy)).1
  obtain ⟨hg, hstatus⟩ := status_of_present (hgeneration ▸ hle) (hpresent hrest hm sv)
  have hdead : v.status.isLive ≠ true := by
    intro hs
    have hfall := spent_of_watch_run (j := j) sv he (hg.trans hgeneration.symm) hs
    have hleads := move?_leads hmove (hm _ (by simp)) sv.tenure.inside sv.present
    rw [hgeneration] at hfall
    exact hpresent hlast (fun m hm' => hm m (by simp [hm'])) (hleads.sound sv) hfall
  exact ⟨ms₁, j, ms₂, v, rfl, hplay, y, q', e', hy, hplace, hgeneration, hq', he', he, hg,
    hstatus.resolve_right hdead⟩

/-- An exit that was seen too early is one that the console of the live session has reported. -/
theorem Life.reportedExit_of_seesEarly {ns : List Move} {v : World} {j : Nat}
    (hv : Life start ms v) (hrest : v.play? ns = some w) (hm : ∀ m ∈ ns, m.ofSession = true)
    (hlive : w.status.isLive = true) (hsees : v.SeesEarly j w.generation) :
    w.ReportedExit w.generation := by
  obtain ⟨x, q, e, hx, -, hg, hq, he, hr, -, -⟩ := hsees
  have sv := hv.sound
  have s : Sound w.outline := play?_sound hrest hm sv
  have hpurpose : q.purpose = .main w.generation := by
    have hmain := sv.watched.main (Outline.mem_watches (lookout_of_watch hx))
    rw [← hg]
    simpa [Outline.purposes, outline, Watch.lookout, hq] using hmain
  obtain ⟨q', hq', ⟨hpurpose', -⟩, hlasts⟩ := play?_lasts hrest hm sv _ _ hq
  have hmain : q'.purpose = .main w.generation := hpurpose'.trans hpurpose
  obtain ⟨c, k, n, hc, howner, hending, rfl⟩ := ending_of_exit s hlive hq' hmain (hlasts e he)
  rw [← howner] at hq'
  cases n with
  | reported e' => exact ⟨c, k, q', e', hc, hq', hmain, hending, hr⟩
  | lost => cases hr

/-- When all watches have come to their end and the session is live, its console has reported an
exit that nobody asked for exactly if the watch over it looked at that exit while the start of
the session was still under way. -/
theorem Life.exit_lost_iff (h : Life start ms w) (hover : ∀ x ∈ w.watches, x.place = .over)
    (hlive : w.status.isLive = true) :
    w.ReportedExit w.generation ↔
      ∃ ms₁ j ms₂ v, ms = ms₁ ++ .run (.watch j) :: ms₂ ∧ start.play? ms₁ = some v ∧
        v.SeesEarly j w.generation := by
  constructor
  · exact h.exists_seesEarly hover hlive
  · rintro ⟨ms₁, j, ms₂, v, rfl, hplay, hsees⟩
    obtain ⟨v₁, hv, hrest, hm⟩ := h.split
    obtain rfl : v = v₁ := Option.some.inj (hplay.symm.trans hv.play)
    exact hv.reportedExit_of_seesEarly hrest hm hlive hsees

/-- A console that ends between the handshake and the connection is not missed: the session
runs without it. -/
theorem exit_lost_trial :
    ∃ w, Trial.start.Life (Trial.launching ++ Trial.losing ++ Trial.connecting) w ∧
      (∀ x ∈ w.watches, x.place = .over) ∧ w.status = .running ∧ w.Idle ∧
      w.ReportedExit w.generation ∧
      ∃ ms₁ j ms₂ v,
        Trial.launching ++ Trial.losing ++ Trial.connecting = ms₁ ++ .run (.watch j) :: ms₂ ∧
        Trial.start.play? ms₁ = some v ∧ v.SeesEarly j w.generation := by
  have hrun : (Trial.start.play? (Trial.launching ++ Trial.losing ++ Trial.connecting)).any
      (fun w => (w.watches.all fun x => x.place.vigil == .over) && w.status == .running &&
        (w.calls.all fun c => c.result?.isSome) &&
        (w.consoles[0]?.any fun k => k.ending == some (.reported ⟨some 1, false⟩) &&
          (w.processes[k.owner]?.any fun q => q.purpose == .main w.generation))) = true := by
    decide +kernel
  obtain ⟨w, hplay, hw⟩ := (Option.any_eq_true _ _).1 hrun
  simp only [Bool.and_eq_true, List.all_eq_true, Option.any_eq_true, beq_iff_eq] at hw
  obtain ⟨⟨⟨hwatches, hs⟩, hcalls⟩, k, hk, hending, q, hq, hp⟩ := hw
  have hlife := Trial.life hplay (by decide)
  have hover : ∀ x ∈ w.watches, x.place = .over := by
    intro x hx
    have hvigil := hwatches x hx
    cases hplace : x.place with
    | waiting | releasing =>
      rw [hplace] at hvigil
      cases hvigil
    | _ => rfl
  have hreported : w.ReportedExit w.generation :=
    ⟨0, k, q, ⟨some 1, false⟩, hk, hq, hp, hending, rfl⟩
  exact ⟨w, hlife, hover, hs, idle_of_results hcalls, hreported,
    (hlife.exit_lost_iff hover (by rw [hs]; rfl)).1 hreported⟩

end World

end SessionHost
