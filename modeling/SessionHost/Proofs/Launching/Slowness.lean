import SessionHost.Proofs.Launching.Budgets

/-!
# Slow starts

A launch that nothing disturbs looks for its session file, reports a slow start at the check of the
plan's warning, and waits for an interval behind each check.  So the report comes before the wait of
its own round: it names a time of which one interval has not passed yet, and it is made while less
than three quarters of the whole wait are over.

Main definitions:

- `World.Prompt`: steps that are made as soon as they can be.
- `World.Undisturbed`: a launch that waits in vain until its time is over.
- `World.ReportsOnce`: the one report among the steps of a launch.
- `PollPlan.Hasty`: how early a report is.

Main results:

- Theorem `World.Undisturbed.reports`: the time and the content of the report.
- Theorem `World.slow_report`: from every calm world there is such a launch, and every one reports a
  slow start once, an interval ahead of its time.
-/

namespace SessionHost

/-- The time at which a step can be made behind one that was made at a time: a wait takes its
interval, and everything else takes no time. -/
def Launching.dueAt (now : Nat) : Launching → Nat
  | .interval _ wake => wake
  | _ => now

/-! ## Reports that come early -/

namespace PollPlan

variable {p : PollPlan}

/-- The nanoseconds of waiting that are over when the warning is given: the intervals of the rounds
before it. -/
def warnsAfter (p : PollPlan) : Nat := (p.warnAt - 1) * p.interval.nanos

/-- The warning comes before three quarters of the whole wait are over.  If there are more rounds
than one, they are over at the end of the warning's round at the earliest, and before the end of the
next. -/
structure Hasty (p : PollPlan) : Prop where
  early : 0 < p.interval.nanos → 4 * p.warnsAfter < 3 * (p.attempts * p.interval.nanos)
  next : 1 < p.attempts →
    4 * (p.warnsAfter + p.interval.nanos) ≤ 3 * (p.attempts * p.interval.nanos)
  afterNext : 1 < p.attempts → 0 < p.interval.nanos →
    3 * (p.attempts * p.interval.nanos) < 4 * (p.warnsAfter + 2 * p.interval.nanos)

/-- An exact plan polls. -/
theorem Exact.one_le_attempts (h : p.Exact) : 1 ≤ p.attempts := by
  rw [h.attempts_eq]
  exact p.one_le_polls

/-- An exact plan warns at three quarters of its polls. -/
theorem Exact.warnAt_eq (h : p.Exact) : p.warnAt = max 1 (p.attempts * 3 / 4) :=
  World.warnAt_eq p (word64_eq_self_iff.1 h.product_eq)

/-- An exact plan warns at one of its polls. -/
theorem Exact.warnAt_le_attempts (h : p.Exact) : p.warnAt ≤ p.attempts :=
  warnAt_le_attempts_iff.2 h.one_le_attempts

/-- The time that the warning names is that of the rounds before it, and of its own. -/
theorem Exact.elapsed_eq (h : p.Exact) :
    p.elapsed p.warnAt = ⟨p.warnsAfter + p.interval.nanos⟩ := by
  have hone := World.one_le_warnAt p
  rw [elapsed, h.factor_eq, Duration.times, warnsAfter, ← Nat.succ_mul, Nat.succ_eq_add_one,
    Nat.sub_add_cancel hone, Nat.mul_comm]

/-- The rounds before the one that warns are too few. -/
theorem Exact.hasty (h : p.Exact) : p.Hasty := by
  have hone := World.one_le_warnAt p
  have hattempts := h.one_le_attempts
  have hwarn := h.warnAt_eq
  constructor
  · intro hpos
    calc 4 * p.warnsAfter
        = 4 * (p.warnAt - 1) * p.interval.nanos := (Nat.mul_assoc _ _ _).symm
      _ < 3 * p.attempts * p.interval.nanos := Nat.mul_lt_mul_of_pos_right (by omega) hpos
      _ = 3 * (p.attempts * p.interval.nanos) := Nat.mul_assoc _ _ _
  · intro hmore
    calc 4 * (p.warnsAfter + p.interval.nanos)
        = 4 * (p.warnAt - 1 + 1) * p.interval.nanos := by
          rw [warnsAfter]
          ring
      _ ≤ 3 * p.attempts * p.interval.nanos := Nat.mul_le_mul_right _ (by omega)
      _ = 3 * (p.attempts * p.interval.nanos) := Nat.mul_assoc _ _ _
  · intro hmore hpos
    calc 3 * (p.attempts * p.interval.nanos)
        = 3 * p.attempts * p.interval.nanos := (Nat.mul_assoc _ _ _).symm
      _ < 4 * (p.warnAt - 1 + 2) * p.interval.nanos :=
          Nat.mul_lt_mul_of_pos_right (by omega) hpos
      _ = 4 * (p.warnsAfter + 2 * p.interval.nanos) := by
          rw [warnsAfter]
          ring

end PollPlan

namespace World

variable {p c n m began : Nat} {w v start : World} {q q' : ServerProcess} {l l' : Launching}
  {outcome : LaunchOutcome} {trace : List Incident} {own more : List (World × Launching)}

/-! ## Prompt steps -/

/-- The time of the last of some steps. -/
def clock (began : Nat) : List (World × Launching) → Nat
  | [] => began
  | s :: own => clock s.1.now own

/-- Steps that are made as soon as they can be: to launch and to read takes no time. -/
def Prompt (began : Nat) : List (World × Launching) → Prop
  | [] => True
  | s :: own => s.1.now = s.2.dueAt began ∧ Prompt s.1.now own

/-- Time goes on from step to step. -/
theorem clock_append (began : Nat) (own more : List (World × Launching)) :
    clock began (own ++ more) = clock (clock began own) more := by
  induction own generalizing began with
  | nil => rfl
  | cons s own ih => exact ih s.1.now

/-- Steps are prompt if the first ones are, and the others from their end on. -/
theorem prompt_append :
    Prompt began (own ++ more) ↔ Prompt began own ∧ Prompt (clock began own) more := by
  induction own generalizing began with
  | nil => simp [Prompt, clock]
  | cons s own ih => simp [Prompt, clock, ih, and_assoc]

/-- Prompt rounds in vain take an interval each. -/
theorem Rounds.clock_eq (h : Rounds p q n own) (hprompt : Prompt began own) :
    clock began own = began + n * q.plan.interval.nanos := by
  induction h with
  | adopted u c =>
    obtain ⟨hnow, -⟩ := hprompt
    rw [Nat.zero_mul]
    exact hnow
  | @round n own look check wake _ _ _ _ ih =>
    obtain ⟨hown, hlook, hcheck, hwake, -⟩ := prompt_append.1 hprompt
    rw [clock_append, Nat.succ_mul, ← Nat.add_assoc, ← ih hown]
    calc wake.now
        = check.now + q.plan.interval.nanos := hwake
      _ = look.now + q.plan.interval.nanos := congrArg (· + _) hcheck
      _ = clock began own + q.plan.interval.nanos := congrArg (· + _) hlook

/-! ## The report -/

/-- One check among the steps of a launch reports a slow start, a while after the beginning, and
names a time. -/
def ReportsOnce (p : Nat) (q : ServerProcess) (began : Nat) (own : List (World × Launching))
    (waited : Nat) (named : Duration) : Prop :=
  ∃ before check after, own = before ++ (check, .turn q.plan.warnAt (.error .notFound)) :: after ∧
    check.now = began + waited ∧ before.flatMap (slowReports p) = [] ∧
    slowReports p (check, .turn q.plan.warnAt (.error .notFound)) = [named] ∧
    after.flatMap (slowReports p) = []

/-- A round that was made, and the rounds before it. -/
theorem Rounds.split (h : Rounds p q n own) (hm : m < n) :
    ∃ before look check after, own = before ++ (look, .file (m + 1)) ::
        (check, .turn (m + 1) (.error .notFound)) :: after ∧
      Rounds p q m before ∧ Running p q check := by
  induction h with
  | adopted u c => exact absurd hm (Nat.not_lt_zero m)
  | @round n own look check wake hrounds hlook hcheck hwake ih =>
    by_cases hlast : m = n
    · subst hlast
      exact ⟨own, look, check, _, rfl, hrounds, hcheck⟩
    · obtain ⟨before, look', check', after, rfl, hbefore, hcheck'⟩ := ih (by omega)
      exact ⟨before, look', check', _, by simp only [List.append_assoc, List.cons_append]; rfl,
        hbefore, hcheck'⟩

/-- Prompt rounds in vain report a slow start behind the rounds before the warning's. -/
theorem Rounds.reportsOnce (h : Rounds p q n own) (hprompt : Prompt began own)
    (hwarn : q.plan.warnAt ≤ n) (hreports : q.reportsSlowness = true) :
    ReportsOnce p q began own q.plan.warnsAfter (q.plan.elapsed q.plan.warnAt) := by
  have hall := h.slowReports_eq
  rw [if_pos ⟨hwarn, hreports⟩] at hall
  have hone := one_le_warnAt q.plan
  obtain ⟨before, look, check, after, rfl, hbefore, hcheck⟩ := h.split (m := q.plan.warnAt - 1)
    (by omega)
  rw [Nat.sub_add_cancel hone] at hall hprompt ⊢
  obtain ⟨hown, hlook, hturn, -⟩ := prompt_append.1 hprompt
  have hquiet : before.flatMap (slowReports p) = [] := by
    rw [hbefore.slowReports_eq, if_neg (by omega)]
  have hreport : slowReports p (check, .turn q.plan.warnAt (.error .notFound)) =
      [q.plan.elapsed q.plan.warnAt] := by
    rw [slowReports_check hcheck, dueReport, if_pos ⟨rfl, hreports⟩]
  refine ⟨before ++ [(look, .file q.plan.warnAt)], check, after, ?_, ?_, ?_, hreport, ?_⟩
  · rw [List.append_assoc]
    rfl
  · calc check.now
        = look.now := hturn
      _ = clock began before := hlook
      _ = began + q.plan.warnsAfter := hbefore.clock_eq hown
  · rw [List.flatMap_append, hquiet, List.flatMap_singleton, slowReports_file, List.nil_append]
  · rw [List.flatMap_append, hquiet, List.flatMap_cons, List.flatMap_cons, slowReports_file,
      hreport] at hall
    exact (List.cons.inj hall).2

/-! ## Launches that nothing disturbs -/

/-- A step of a launch that nothing disturbs: the launcher hands a console out, a look finds no
file, and a check no exit. -/
def Vain (p : Nat) (q : ServerProcess) (s : World × Launching) : Prop :=
  match s.2 with
  | .answer c => ∃ number, (s.1.consoles[c]?.bind Console.answer) = some (.ok number)
  | .file _ => s.1.files.read q.spec.sessionFile = .error .notFound
  | .turn _ _ => s.1.exitOf p = none
  | .interval _ _ => True
  | .woken _ => True

/-- A launch that is over and was not disturbed: each step was made as soon as it could be, and in
vain, and nobody has called the launch off or disposed of its process. -/
structure Undisturbed (p : Nat) (q : ServerProcess) (start : World) (trace : List Incident)
    (w : World) (outcome : LaunchOutcome) : Prop where
  course : Course p start trace w (.over outcome)
  prompt : Prompt start.now (ownSteps trace)
  vain : ∀ s ∈ ownSteps trace, Vain p q s
  live : ¬(w.isCancelled (q.purpose.token p) = true ∨ w.IsDisposed p)

/-- A launch that was not disturbed has read nothing. -/
theorem Undisturbed.not_readLast (h : Undisturbed p q start trace w outcome) (text : String) :
    ¬ReadLast q (ownSteps trace) w text := by
  rintro ⟨before, look, check, n, bytes, hown, hread, -⟩
  have hmissing : look.files.read q.spec.sessionFile = .error .notFound :=
    h.vain (look, .file n) (by rw [hown]; simp)
  rw [hmissing] at hread
  cases hread

/-- A launch that was not disturbed is out of time. -/
theorem Undisturbed.timedOut (h : Undisturbed p q start trace w outcome)
    (hq : start.processes[p]? = some q) : outcome = .error (.timedOut q.plan.timeout) := by
  obtain ⟨-, -, hjustified⟩ := h.course.justified hq
  have hreason := hjustified outcome rfl
  cases outcome with
  | ok handshake =>
    cases handshake with
    | none => exact absurd (hreason.called_off rfl) h.live
    | some hs =>
      obtain ⟨text, hread, -⟩ := hreason.decoded rfl
      exact absurd hread (h.not_readLast text)
  | error failure =>
    cases failure with
    | timedOut after => rw [(hreason.timed_out rfl).1]
    | handshake fault =>
      obtain ⟨text, hread, -⟩ := hreason.faulty rfl
      exact absurd hread (h.not_readLast text)
    | spawn exe e =>
      obtain ⟨-, u, c, hown, hrefused⟩ := hreason.unlaunched rfl
      obtain ⟨number, hgranted⟩ := h.vain (u, .answer c) (by rw [hown]; simp)
      rw [hrefused] at hgranted
      cases hgranted
    | exitedBeforeHandshake code =>
      obtain ⟨before, look, check, n, e, hown, -, hexit, -⟩ := hreason.exited rfl
      have hnone : check.exitOf p = none :=
        h.vain (check, .turn n (.error .notFound)) (by rw [hown]; simp)
      rw [hnone] at hexit
      cases hexit
    | sessionFile path e =>
      obtain ⟨rfl, before, look, check, n, content, kind, hown, hread, -, hkind⟩ :=
        hreason.unreadable rfl
      have hmissing : look.files.read q.spec.sessionFile = .error .notFound :=
        h.vain (look, .file n) (by rw [hown]; simp)
      rw [hmissing] at hread
      subst hread
      rcases hkind with ⟨hkind, hother⟩ | ⟨bytes, hbytes, -⟩
      · cases hkind
        exact absurd rfl hother
      · cases hbytes

/-- **The report of a launch that was not disturbed.**  It is the only one; it is made when the
rounds before the warning's are over, and names an interval more. -/
theorem Undisturbed.reports (h : Undisturbed p q start trace w outcome)
    (hq : start.processes[p]? = some q) (hexact : q.plan.Exact)
    (hreports : q.reportsSlowness = true) :
    clock start.now (ownSteps trace) = start.now + q.plan.attempts * q.plan.interval.nanos ∧
      ReportsOnce p q start.now (ownSteps trace) q.plan.warnsAfter
        ⟨q.plan.warnsAfter + q.plan.interval.nanos⟩ := by
  obtain rfl := h.timedOut hq
  obtain ⟨-, -, hjustified⟩ := h.course.justified hq
  obtain ⟨-, hrounds⟩ := (hjustified _ rfl).timed_out rfl
  have hreport := hrounds.reportsOnce h.prompt hexact.warnAt_le_attempts hreports
  rw [hexact.elapsed_eq] at hreport
  exact ⟨hrounds.clock_eq h.prompt, hreport⟩

/-! ## Calm worlds -/

/-- What a launch looks at beside its process and its console. -/
def sight (w : World) : FileTree × List Token × Nat := (w.files, w.cancelled, w.now)

/-- A launch does not see what a console is told. -/
theorem sight_tell (w : World) (c : Nat) (command : ConsoleCommand) :
    (w.tell c command).sight = w.sight := by
  unfold tell
  split
  · rfl
  · simp only []
    split <;> rfl

/-- A launch does not see that a console is let go of. -/
theorem sight_releaseConsole (w : World) (c : Nat) : (w.releaseConsole c).sight = w.sight := by
  unfold releaseConsole
  split
  · simp only []
    split <;> rfl
  · rfl

theorem sight_withoutHeld (w : World) (q : ServerProcess) :
    (w.withoutHeld q).sight = w.sight := by
  unfold withoutHeld
  split
  · exact w.sight_releaseConsole _
  · rfl

theorem sight_withWatched (w : World) (c : Nat) : (w.withWatched c).sight = w.sight := by
  unfold withWatched
  split <;> rfl

theorem sight_withShown (w : World) (q : ServerProcess) (c : Nat) :
    (w.withShown q c).sight = w.sight := by
  unfold withShown
  split
  · exact w.sight_tell c _
  · rfl

/-- A world in which a launch waits in vain: its process stands and has not ended, nobody has called
it off, and there is no session file. -/
structure Calm (p : Nat) (q : ServerProcess) (w : World) : Prop where
  process : ∃ q', w.processes[p]? = some q' ∧ q.Later q' ∧ q'.exit = none ∧ q'.disposed = false
  live : w.isCancelled (q.purpose.token p) = false
  missing : w.files.read q.spec.sessionFile = .error .notFound

/-- A world stays calm if the process stays as it must be, and files and callings off stay, too. -/
theorem Calm.keep (h : Calm p q w) (hprocess : ∃ q', v.processes[p]? = some q' ∧ q.Later q' ∧
      q'.exit = none ∧ q'.disposed = false)
    (hfiles : v.files = w.files) (hcancelled : v.cancelled = w.cancelled) : Calm p q v where
  process := hprocess
  live := by
    rw [isCancelled, hcancelled]
    exact h.live
  missing := by
    rw [hfiles]
    exact h.missing

/-- A launch that waits in vain has not been ended. -/
theorem Calm.not_ended (h : Calm p q w) :
    ¬(w.isCancelled (q.purpose.token p) = true ∨ w.IsDisposed p) := by
  obtain ⟨q', hq', -, -, hstands⟩ := h.process
  rintro (hcancelled | ⟨x, hx, hdisposed⟩)
  · rw [h.live] at hcancelled
    cases hcancelled
  · obtain rfl : q' = x := Option.some.inj (hq'.symm.trans hx)
    rw [hstands] at hdisposed
    cases hdisposed

/-- A launch of a calm world looks again as long as it has looks. -/
theorem Calm.lookAgain (h : Calm p q w) (hq' : w.processes[p]? = some q') (hlater : q.Later q')
    (n : Nat) :
    w.lookAgain p q' n =
      if q.plan.attempts < n then .finished w (.error (.timedOut q.plan.timeout))
      else .going w (.file n) := by
  have hended : ¬w.launchEnded p q' = true := by
    intro hended
    rcases launchEnded_iff.1 hended with hcancelled | hdisposed
    · exact h.not_ended (.inl (hlater.purpose_eq ▸ hcancelled))
    · exact h.not_ended (.inr ⟨q', hq', hdisposed⟩)
  rw [World.lookAgain, if_neg hended, hlater.plan_eq]

/-- A console that is taken over leaves the world calm. -/
theorem Calm.adopts (h : Calm p q w)
    (hanswer : (w.consoles[c]?.bind Console.answer) = some (.ok none))
    (hone : 1 ≤ q.plan.attempts) :
    ∃ v, w.launch p (.answer c) = .going v (.file 1) ∧ Calm p q v ∧ v.now = w.now := by
  obtain ⟨q', hq', hlater, hexit, hstands⟩ := h.process
  let x := q'.holding c none
  let v := (((w.withoutHeld q').setProcess p x).withWatched c).withShown q' c
  have hprocess : v.processes[p]? = some x := by
    rw [processes_withShown, processes_withWatched]
    exact getElem?_set_at (by rw [processes_withoutHeld, hq']) x
  have hsight : v.sight = w.sight := by
    rw [sight_withShown, sight_withWatched]
    exact w.sight_withoutHeld q'
  have hx : q.Later x :=
    hlater.trans ⟨rfl, rfl, rfl, rfl, rfl, id, fun _ => .inl rfl⟩
  obtain ⟨hfiles, hcancelled, hnow⟩ : v.files = w.files ∧ v.cancelled = w.cancelled ∧
      v.now = w.now := by
    simpa only [sight, Prod.mk.injEq] using hsight
  have hcalm : Calm p q v := h.keep ⟨x, hprocess, hx, hexit, hstands⟩ hfiles hcancelled
  refine ⟨v, ?_, hcalm, hnow⟩
  calc w.launch p (.answer c)
      = w.adoptConsole p q' c none := by simp only [launch, hq', hanswer]
    _ = v.lookAgain p x 1 := by
        rw [adoptConsole, if_neg (by simp [hstands])]
        rfl
    _ = .going v (.file 1) := by rw [hcalm.lookAgain hprocess hx, if_neg (by omega)]

/-- The warning of a slow start changes the log only. -/
theorem warnSlow_eq (w : World) (p : Nat) (q : ServerProcess) (n : Nat) :
    ∃ log, w.warnSlow p q n = { w with log := log } := by
  unfold warnSlow
  simp only []
  split <;> exact ⟨_, rfl⟩

/-- A check in vain leaves the world calm, whether it gives a warning or not. -/
theorem Calm.checks (h : Calm p q w) (n : Nat) :
    ∃ v, w.launch p (.turn n (.error .notFound)) =
        .going v (.interval n (w.now + q.plan.interval.nanos)) ∧
      Calm p q v ∧ v.now = w.now := by
  obtain ⟨q', hq', hlater, hexit, hstands⟩ := h.process
  have hpiece : w.launch p (.turn n (.error .notFound)) = w.withoutFile p q' n := by
    simp only [launch, hq', afterLook]
  rw [hpiece, withoutFile, hexit, hlater.plan_eq]
  by_cases hwarn : n = q.plan.warnAt
  · obtain ⟨log, hlog⟩ := w.warnSlow_eq p q' n
    rw [if_pos hwarn, hlog]
    exact ⟨_, rfl, h.keep h.process rfl rfl, rfl⟩
  · rw [if_neg hwarn]
    exact ⟨w, rfl, h, rfl⟩

/-- The end of an interval leads to the next look of a calm world, or out of time. -/
theorem Calm.wakes (h : Calm p q w) {wake : Nat} (hwake : wake ≤ w.now) (n : Nat) :
    w.launch p (.interval n wake) =
      if q.plan.attempts < n + 1 then .finished w (.error (.timedOut q.plan.timeout))
      else .going w (.file (n + 1)) := by
  obtain ⟨q', hq', hlater, -, -⟩ := h.process
  have hlive : ¬w.isCancelled (q'.purpose.token p) = true := by
    rw [hlater.purpose_eq, h.live]
    exact Bool.false_ne_true
  simp only [launch, hq']
  rw [if_neg hlive, if_pos hwake, h.lookAgain hq' hlater]

/-- Time may pass, and brings no news. -/
theorem elapse_meanwhile (w : World) (nanos : Nat) :
    Meanwhile p none w { w with now := w.now + nanos } :=
  .of_eq rfl rfl rfl (Nat.le_add_right _ _)

/-! ## Launches of calm worlds -/

/-- A launch that nothing has disturbed, and that can make its next step now. -/
structure Poised (p : Nat) (q : ServerProcess) (start : World) (trace : List Incident) (w : World)
    (l : Launching) : Prop where
  course : Course p start trace w (.waiting l)
  prompt : Prompt start.now (ownSteps trace)
  vain : ∀ s ∈ ownSteps trace, Vain p q s
  calm : Calm p q w
  due : w.now = l.dueAt (clock start.now (ownSteps trace))

/-- The next step can be made without delay. -/
theorem Poised.prompt_concat (h : Poised p q start trace w l) :
    Prompt start.now (ownSteps (trace ++ [.step w l])) := by
  rw [ownSteps_step]
  exact prompt_append.2 ⟨h.prompt, h.due, trivial⟩

/-- A next step in vain is one more of them. -/
theorem Poised.vain_concat (h : Poised p q start trace w l) (hvain : Vain p q (w, l)) :
    ∀ s ∈ ownSteps (trace ++ [.step w l]), Vain p q s := by
  intro s hs
  rw [ownSteps_step] at hs
  rcases List.mem_append.1 hs with hold | hnew
  · exact h.vain s hold
  · rw [List.mem_singleton.1 hnew]
    exact hvain

/-- A step in vain, behind which the launch can make the next one. -/
theorem Poised.step (h : Poised p q start trace w l) (hvain : Vain p q (w, l))
    (hcourse : Course p start (trace ++ [.step w l]) v (.waiting l')) (hcalm : Calm p q v)
    (hdue : v.now = l'.dueAt w.now) : Poised p q start (trace ++ [.step w l]) v l' where
  course := hcourse
  prompt := h.prompt_concat
  vain := h.vain_concat hvain
  calm := hcalm
  due := by
    rw [ownSteps_step, clock_append]
    exact hdue

/-- One round: the launch looks, checks and waits, and can look again or is out of time. -/
theorem Poised.round (h : Poised p q start trace w (.file n)) :
    ∃ trace' v, Poised p q start trace' v (.interval n v.now) := by
  obtain ⟨q', hq', hlater, hexit, -⟩ := h.calm.process
  have hmissing := h.calm.missing
  have hlook : w.arrival? p (.file n) = some (.turn n (.error .notFound)) := by
    simp only [arrival?, hq', hlater.spec_eq, hmissing]
  have hturn : Poised p q start (trace ++ [.step w (.file n)]) w (.turn n (.error .notFound)) :=
    h.step hmissing (h.course.look hlook) h.calm rfl
  obtain ⟨v, hcheck, hcalm, hnow⟩ := h.calm.checks n
  let u : World := { v with now := v.now + q.plan.interval.nanos }
  have hcourse := (hturn.course.goes hcheck).quiet (v.elapse_meanwhile q.plan.interval.nanos)
  have hdue : w.now + q.plan.interval.nanos = u.now :=
    congrArg (· + q.plan.interval.nanos) hnow.symm
  rw [hdue] at hcourse
  exact ⟨_, u, hturn.step (by rw [Vain, exitOf_of_process hq', hexit]) hcourse
    (hcalm.keep hcalm.process rfl rfl) rfl⟩

/-- A launch of a calm world goes on until it is out of time. -/
theorem Poised.ends (h : Poised p q start trace w (.file n)) (hn : n + m = q.plan.attempts) :
    ∃ trace' v outcome, Undisturbed p q start trace' v outcome := by
  induction m generalizing n trace w with
  | zero =>
    obtain ⟨trace', v, hwait⟩ := h.round
    have hpiece := hwait.calm.wakes (Nat.le_refl v.now) n
    rw [if_pos (by omega)] at hpiece
    exact ⟨_, v, _, hwait.course.ends hpiece, hwait.prompt_concat, hwait.vain_concat trivial,
      hwait.calm.not_ended⟩
  | succ m ih =>
    obtain ⟨trace', v, hwait⟩ := h.round
    have hpiece := hwait.calm.wakes (Nat.le_refl v.now) n
    rw [if_neg (by omega)] at hpiece
    exact ih (hwait.step trivial (hwait.course.goes hpiece) hwait.calm rfl) (by omega)

/-- What must hold of a world from which a launch is not disturbed. -/
structure Ready (p : Nat) (q : ServerProcess) (start : World) : Prop where
  process : start.processes[p]? = some q
  stands : q.disposed = false
  exit_eq : q.exit = none
  live : start.isCancelled (q.purpose.token p) = false
  /-- A file that is there from before is deleted. -/
  missing : (start.deleteSessionFile q.spec.sessionFile).files.read q.spec.sessionFile =
    .error .notFound

/-- Deleting a file calls nothing off and takes no time. -/
theorem deleteSessionFile_keeps (w : World) (path : Path) :
    (w.deleteSessionFile path).cancelled = w.cancelled ∧
      (w.deleteSessionFile path).now = w.now := by
  unfold deleteSessionFile
  split <;> exact ⟨rfl, rfl⟩

/-- A launch that begins has deleted the session file and asked for a console. -/
theorem Ready.asks (h : Ready p q start) :
    ∃ w, start.beginLaunch p = .going w (.answer start.consoles.length) ∧ Calm p q w ∧
      w.consoles = start.consoles ++ [{ owner := p }] ∧ w.now = start.now := by
  obtain ⟨hcancelled, hnow⟩ := start.deleteSessionFile_keeps q.spec.sessionFile
  have hcalm : Calm p q (start.deleteSessionFile q.spec.sessionFile) := by
    refine ⟨⟨q, ?_, .refl q, h.exit_eq, h.stands⟩, ?_, h.missing⟩
    · rw [processes_deleteSessionFile]
      exact h.process
    · rw [isCancelled, hcancelled]
      exact h.live
  simp only [beginLaunch, h.process, h.stands]
  refine ⟨_, rfl, hcalm.keep hcalm.process rfl rfl, ?_, hnow⟩
  exact congrArg (· ++ [{ owner := p }]) (start.consoles_deleteSessionFile _)

/-- The launcher hands out a console at once. -/
theorem Ready.begins (h : Ready p q start) :
    ∃ w c, Poised p q start [] w (.answer c) ∧
      (w.consoles[c]?.bind Console.answer) = some (.ok none) := by
  obtain ⟨w, hbegin, hcalm, hconsoles, hnow⟩ := h.asks
  let k : Console := { owner := p, answer := some (.ok none) }
  have hasked : w.consoles[start.consoles.length]? = some { owner := p } := by
    rw [hconsoles]
    exact List.getElem?_concat_length
  have hanswer : w.answerLaunch? start.consoles.length (.ok none) =
      some (w.setConsole start.consoles.length k) := by
    rw [answerLaunch?, hasked]
    rfl
  have hcourse := (Course.begun hbegin).quiet (answerLaunch?_meanwhile hanswer)
  refine ⟨_, _, ⟨hcourse, trivial, ?_, hcalm.keep hcalm.process rfl rfl, hnow⟩, ?_⟩
  · intro s hs
    cases hs
  · rw [setConsole, getElem?_set_at hasked]
    rfl

/-- **A slow start is reported once, and an interval ahead of its time.**  From every world in which
nothing disturbs a launch, it can come to its end.  Whenever it does so with each step made as soon
as it can be, it is out of time behind all its intervals, and has reported a slow start once: when
less than three quarters of them were over, and with a time that is an interval more than those that
were over. -/
theorem slow_report (h : Ready p q start) (hexact : q.plan.Exact)
    (hreports : q.reportsSlowness = true) :
    q.plan.Hasty ∧ (∃ trace w outcome, Undisturbed p q start trace w outcome) ∧
      ∀ {trace w outcome}, Undisturbed p q start trace w outcome →
        outcome = .error (.timedOut q.plan.timeout) ∧
        clock start.now (ownSteps trace) =
          start.now + q.plan.attempts * q.plan.interval.nanos ∧
        ReportsOnce p q start.now (ownSteps trace) q.plan.warnsAfter
          ⟨q.plan.warnsAfter + q.plan.interval.nanos⟩ := by
  refine ⟨hexact.hasty, ?_, ?_⟩
  · obtain ⟨w, c, hbegun, hanswer⟩ := h.begins
    obtain ⟨v, hpiece, hcalm, hnow⟩ := hbegun.calm.adopts hanswer hexact.one_le_attempts
    have hlooks := hbegun.step ⟨none, hanswer⟩ (hbegun.course.goes hpiece) hcalm hnow
    exact hlooks.ends (Nat.add_sub_cancel' hexact.one_le_attempts)
  · intro trace w outcome hundisturbed
    exact ⟨hundisturbed.timedOut h.process, hundisturbed.reports h.process hexact hreports⟩

/-- Of nine intervals of a second, five are over when the warning names six. -/
theorem slow_report_trial :
    ∃ q trace w outcome, Ready 0 q Trial.alone ∧ q.plan.Exact ∧ q.reportsSlowness = true ∧
      Undisturbed 0 q Trial.alone trace w outcome ∧
      outcome = .error (.timedOut (.ofSeconds 9)) ∧
      ReportsOnce 0 q 0 (ownSteps trace) (Duration.ofSeconds 5).nanos (.ofSeconds 6) ∧
      4 * (Duration.ofSeconds 5).nanos < 3 * (Duration.ofSeconds 9).nanos := by
  obtain ⟨q, hq, hstands, hexit, hpath, hplan, hreports⟩ :
      ∃ q, Trial.alone.processes[0]? = some q ∧ q.disposed = false ∧ q.exit = none ∧
        q.spec.sessionFile = ⟨"session.json"⟩ ∧ q.plan = ⟨.ofSeconds 1, .ofSeconds 9⟩ ∧
        q.reportsSlowness = true :=
    ⟨_, rfl, rfl, rfl, rfl, rfl, rfl⟩
  have hready : Ready 0 q Trial.alone := ⟨hq, hstands, hexit, rfl, by rw [hpath]; rfl⟩
  have hexact : q.plan.Exact := by
    rw [hplan]
    exact (PollPlan.exact_iff (by decide) (by decide)).2 (by decide)
  obtain ⟨hhasty, ⟨trace, w, outcome, hundisturbed⟩, hends⟩ := slow_report hready hexact hreports
  obtain ⟨houtcome, -, hreport⟩ := hends hundisturbed
  have hearly := hhasty.early
  rw [hplan] at houtcome hreport hearly
  exact ⟨q, trace, w, outcome, hready, hexact, hreports, hundisturbed, houtcome, hreport,
    hearly (by decide)⟩

end World

end SessionHost
