import SessionHost.Proofs.Ledger.Course
import SessionHost.Proofs.Lifecycle.Moments

/-!
# The trace of a session

What is told about the status is its whole course: a generation begins once, and leaves its
beginning once: it runs, fails, or is stopped.  One that runs may lose its console once.  Starts,
failures and losses are told as often as these steps are taken.

Main definitions:

- `Tally`: the events and the steps of one generation.
- `Account`: the events and the steps of all of them.

Main results:

- Theorems `Account.Entry.tally`, `Account.Entry.live`: a step is written down for every generation.
- Theorems `Account.step`, `Tick.account`: every step of the automaton keeps the account.
- Theorem `World.Life.event_trace`: the trace of a session's life.
-/

namespace SessionHost

/-! ## The account of events and steps -/

/-- The events of one generation, and its steps; `releasing` is the number of watches that are
busy with its end. -/
structure Tally (es : List Event) (g releasing : Nat) : Prop where
  started : es.countP (Event.isStart g) =
    (steps .notStarted es).count ⟨g, .starting, .running⟩
  failed : es.countP (Event.isFailure g) = (steps .notStarted es).count ⟨g, .starting, .failed⟩
  lost : es.countP (Event.isLoss g) + releasing =
    (steps .notStarted es).countP (StatusStep.isFall g)
  /-- A generation leaves its beginning once. -/
  once : (steps .notStarted es).count ⟨g, .starting, .running⟩ +
    (steps .notStarted es).count ⟨g, .starting, .failed⟩ +
    (steps .notStarted es).count ⟨g, .starting, .stopping⟩ ≤ 1
  /-- Only a generation that has run loses its console. -/
  fallen : (steps .notStarted es).countP (StatusStep.isFall g) ≤
    (steps .notStarted es).count ⟨g, .starting, .running⟩

/-- The account of everything that was told. -/
structure Account (es : List Event) (c : Course) : Prop where
  status : Status.after .notStarted es = c.status
  legal : ∀ x ∈ steps .notStarted es, x.isLegal = true
  begun : ∀ x ∈ steps .notStarted es, x.generation ≤ c.generation
  tally : ∀ g, Tally es g (c.releasing g)
  /-- A generation that begins has not left its beginning. -/
  starting : c.status = .starting → ∀ t,
    (steps .notStarted es).count ⟨c.generation, .starting, t⟩ = 0
  /-- A live generation has run and not lost its console. -/
  live : c.status.isLive = true →
    (steps .notStarted es).count ⟨c.generation, .starting, .running⟩ = 1 ∧
      (steps .notStarted es).countP (StatusStep.isFall c.generation) = 0

namespace Account

variable {es : List Event} {c : Course}

/-- The steps that more events tell of. -/
theorem steps_append (a : Account es c) (more : List Event) :
    steps .notStarted (es ++ more) = steps .notStarted es ++ steps c.status more := by
  rw [SessionHost.steps_append, a.status]

/-- Nothing was told of a generation that has not begun. -/
theorem count_eq_zero (a : Account es c) {g : Nat} (hg : c.generation < g) (s t : Status) :
    (steps .notStarted es).count ⟨g, s, t⟩ = 0 :=
  List.count_eq_zero.2 fun h => Nat.not_lt.2 (a.begun _ h) hg

/-- A step of the automaton, and what is told with it: a start and a failure as often as the
step is one, and a loss when its watch has come to the end. -/
structure Entry (c : Course) (x : StatusStep) (told : List Event) (releasing : Nat → Nat) :
    Prop where
  source : x.source = c.status
  legal : x.isLegal = true
  quiet : steps x.target told = [] ∧ x.target.after told = x.target
  /-- Only a start begins a new generation. -/
  generation : x.generation = c.generation ∧ x.target ≠ .starting ∨
    x.generation = c.generation + 1 ∧ x.target = .starting
  started : ∀ g, told.countP (Event.isStart g) =
    if x = ⟨g, .starting, .running⟩ then 1 else 0
  failed : ∀ g, told.countP (Event.isFailure g) =
    if x = ⟨g, .starting, .failed⟩ then 1 else 0
  lost : ∀ g, told.countP (Event.isLoss g) + releasing g =
    c.releasing g + if x.isFall g = true then 1 else 0

/-- A generation that begins is the present one until it leaves its beginning. -/
theorem Entry.generation_eq {c : Course} {x : StatusStep} {told : List Event}
    {releasing : Nat → Nat} (e : Entry c x told releasing) (h : c.status ≠ .notStarted)
    (h' : c.status ≠ .failed) : x.generation = c.generation := by
  rcases e.generation with ⟨hg, -⟩ | ⟨-, ht⟩
  · exact hg
  · obtain ⟨g, s, t⟩ := x
    have hlegal := e.legal
    rw [show t = .starting from ht, show s = c.status from e.source] at hlegal
    cases hs : c.status <;> first | exact absurd hs h | exact absurd hs h' | skip
    all_goals
      rw [hs] at hlegal
      cases hlegal

section Entry

variable {x : StatusStep} {told : List Event} {releasing : Nat → Nat}

/-- What is told with a step tells of this step alone. -/
theorem Entry.steps_eq (e : Entry c x told releasing) (a : Account es c) :
    steps .notStarted (es ++ .statusChanged x.generation x.target :: told) =
      steps .notStarted es ++ [x] := by
  obtain ⟨g', s, t⟩ := x
  obtain rfl : s = c.status := e.source
  rw [a.steps_append, steps_statusChanged, e.quiet.1]

/-- A step is written down for every generation. -/
theorem Entry.tally (e : Entry c x told releasing) (a : Account es c) (g : Nat) :
    Tally (es ++ .statusChanged x.generation x.target :: told) g (releasing g) := by
  have hsteps := e.steps_eq a
  obtain ⟨g', s, t⟩ := x
  obtain rfl : s = c.status := e.source
  have ht := a.tally g
  have h₁ := e.started g
  have h₂ := e.failed g
  have h₃ := e.lost g
  constructor
  case started =>
    rw [hsteps, List.countP_append, List.countP_cons, List.count_append, List.count_singleton]
    simp [Event.isStart, h₁, ht.started]
  case failed =>
    rw [hsteps, List.countP_append, List.countP_cons, List.count_append, List.count_singleton]
    simp [Event.isFailure, h₂, ht.failed]
  case lost =>
    rw [hsteps, List.countP_append, List.countP_cons, List.countP_append, List.countP_singleton]
    have := ht.lost
    simp [Event.isLoss]
    omega
  case once =>
    rw [hsteps]
    simp only [List.count_append, List.count_singleton]
    by_cases hx : c.status = .starting ∧ g' = g
    · -- It has not left its beginning before.
      obtain ⟨hs, rfl⟩ := hx
      obtain rfl := e.generation_eq (by simp [hs]) (by simp [hs])
      have hnone := a.starting hs
      rw [hnone .running, hnone .failed, hnone .stopping]
      cases t <;> simp [hs]
    · have hne (t' : Status) : (⟨g', c.status, t⟩ : StatusStep) ≠ ⟨g, .starting, t'⟩ := by
        intro h
        rw [StatusStep.mk.injEq] at h
        exact hx ⟨h.2.1, h.1⟩
      simpa [hne] using ht.once
  case fallen =>
    rw [hsteps]
    simp only [List.countP_append, List.countP_singleton, List.count_append,
      List.count_singleton]
    by_cases hx : StatusStep.isFall g ⟨g', c.status, t⟩ = true
    · -- It was live before.
      simp only [StatusStep.isFall, Bool.and_eq_true, beq_iff_eq] at hx
      obtain ⟨⟨rfl, hlive⟩, rfl⟩ := hx
      obtain rfl := e.generation_eq (by rintro h; rw [h] at hlive; cases hlive)
        (by rintro h; rw [h] at hlive; cases hlive)
      obtain ⟨hrun, hfall⟩ := a.live hlive
      rw [hrun, hfall]
      split <;> omega
    · have := ht.fallen
      rw [if_neg hx]
      omega

/-- A generation that is live after a step has run and not lost its console. -/
theorem Entry.live (e : Entry c x told releasing) (a : Account es c)
    (hlive : x.target.isLive = true) :
    (steps .notStarted es ++ [x]).count ⟨x.generation, .starting, .running⟩ = 1 ∧
      (steps .notStarted es ++ [x]).countP (StatusStep.isFall x.generation) = 0 := by
  obtain ⟨g', s, t⟩ := x
  obtain rfl : s = c.status := e.source
  have hlive : t.isLive = true := hlive
  simp only [List.count_append, List.count_singleton, List.countP_append, List.countP_singleton]
  have hbefore : c.status = .starting ∧ t = .running ∨ c.status.isLive = true :=
    StatusStep.cases_of_isLive e.legal hlive
  rcases hbefore with ⟨hs, rfl⟩ | hs
  · -- It has just begun to run.
    obtain rfl := e.generation_eq (by simp [hs]) (by simp [hs])
    have hrun := a.starting hs .running
    have hfall := (a.tally c.generation).fallen
    rw [hrun, Nat.le_zero] at hfall
    have hx : StatusStep.isFall c.generation ⟨c.generation, .starting, .running⟩ = false := by
      simp [StatusStep.isFall]
    simp [hrun, hfall, hs, hx]
  · -- It is running still.
    have hne : c.status ≠ .starting := by
      intro h
      rw [h] at hs
      cases hs
    obtain rfl := e.generation_eq (by rintro h; rw [h] at hs; cases hs)
      (by rintro h; rw [h] at hs; cases hs)
    obtain ⟨hrun, hfall⟩ := a.live hs
    have hx : StatusStep.isFall c.generation ⟨c.generation, c.status, t⟩ = false := by
      have hfailed : t ≠ .failed := by
        rintro rfl
        cases hlive
      simp [StatusStep.isFall, hfailed]
    simp [hrun, hfall, hne, hx]

/-- A step keeps the account. -/
theorem step (a : Account es c) (e : Entry c x told releasing) (news : List Event) :
    Account (es ++ .statusChanged x.generation x.target :: told)
      ⟨x.target, x.generation, releasing, news⟩ := by
  have hsteps := e.steps_eq a
  constructor
  case status =>
    rw [Status.after_append, a.status]
    exact e.quiet.2
  case legal =>
    intro y hy
    rw [hsteps, List.mem_append, List.mem_singleton] at hy
    rcases hy with hy | rfl
    · exact a.legal y hy
    · exact e.legal
  case begun =>
    intro y hy
    rw [hsteps, List.mem_append, List.mem_singleton] at hy
    have hle : c.generation ≤ x.generation := by
      rcases e.generation with ⟨h, -⟩ | ⟨h, -⟩ <;> omega
    rcases hy with hy | rfl
    · exact Nat.le_trans (a.begun y hy) hle
    · exact Nat.le_refl _
  case tally => exact e.tally a
  case starting =>
    intro hs t
    have hx : x.generation = c.generation + 1 :=
      e.generation.elim (fun h => absurd hs h.2) And.left
    have hne : c.status ≠ .starting := fun h => by
      have hlegal := e.legal
      rw [StatusStep.isLegal, e.source, h, show x.target = .starting from hs] at hlegal
      cases hlegal
    have hne' : x ≠ ⟨x.generation, .starting, t⟩ := fun h =>
      hne (e.source ▸ congrArg StatusStep.source h)
    rw [hsteps, List.count_append, a.count_eq_zero (by simp only; omega), List.count_singleton,
      if_neg (by simpa using hne')]
  case live =>
    intro hlive
    rw [hsteps]
    exact e.live a hlive

end Entry

/-- A loss that is told is one watch less that is busy with it. -/
theorem report (a : Account es c) {g : Nat} (h : 0 < c.releasing g) {releasing : Nat → Nat}
    (hr : ∀ g', releasing g' = c.releasing g' - if g' = g then 1 else 0) (notice : Notice)
    (news : List Event) :
    Account (es ++ [.unexpectedExit g notice]) { c with releasing, news } := by
  have hsteps : steps .notStarted (es ++ [.unexpectedExit g notice]) = steps .notStarted es := by
    rw [a.steps_append]
    exact List.append_nil _
  constructor
  case status =>
    rw [Status.after_append, a.status]
    rfl
  case legal =>
    rw [hsteps]
    exact a.legal
  case begun =>
    rw [hsteps]
    exact a.begun
  case tally =>
    intro g'
    have ht := a.tally g'
    constructor <;> rw [hsteps]
    case started => simpa [Event.isStart] using ht.started
    case failed => simpa [Event.isFailure] using ht.failed
    case lost =>
      change _ + releasing g' = _
      rw [← ht.lost, hr, List.countP_append, List.countP_singleton]
      by_cases hg : g' = g
      · subst hg
        simp [Event.isLoss]
        omega
      · simp [Event.isLoss, hg, Ne.symm hg]
    case once => exact ht.once
    case fallen => exact ht.fallen
  case starting =>
    rw [hsteps]
    exact a.starting
  case live =>
    rw [hsteps]
    exact a.live

end Account

/-- Every step of the automaton keeps the account. -/
theorem Tick.account {own : Option Nat} {es : List Event} {c c' : Course} (h : Tick own c c')
    (a : Account es c) : ∃ more, c'.news = c.news ++ more ∧ Account (es ++ more) c' := by
  cases h with
  | claimStart h =>
    refine ⟨_, rfl, a.step (x := ⟨c.generation + 1, c.status, .starting⟩) ?_ _⟩
    refine ⟨rfl, ?_, ⟨rfl, rfl⟩, .inr ⟨rfl, rfl⟩, by simp, by simp, by simp [StatusStep.isFall]⟩
    rcases h with h | h <;> rw [h] <;> rfl
  | claimStop h h' =>
    refine ⟨_, rfl, a.step (x := ⟨c.generation, c.status, .stopping⟩) ?_ _⟩
    refine ⟨rfl, ?_, ⟨rfl, rfl⟩, .inl ⟨rfl, by simp⟩, by simp, by simp, by simp [StatusStep.isFall]⟩
    cases hs : c.status <;> first | rfl | exact absurd hs h | exact absurd hs h'
  | endStop hs =>
    refine ⟨_, rfl, a.step (x := ⟨c.generation, c.status, .notStarted⟩) ?_ _⟩
    refine ⟨rfl, ?_, ⟨rfl, rfl⟩, .inl ⟨rfl, by simp⟩, by simp, by simp, by simp [StatusStep.isFall]⟩
    rw [hs]
    rfl
  | run h hs =>
    refine ⟨_, rfl, a.step (x := ⟨c.generation, c.status, .running⟩) ?_ _⟩
    refine ⟨rfl, ?_, ⟨rfl, rfl⟩, .inl ⟨rfl, by simp⟩, ?_, by simp [Event.isFailure],
      by simp [StatusStep.isFall, Event.isLoss]⟩
    · rw [hs]
      rfl
    · simp [Event.isStart, hs]
  | fail h hs notice =>
    refine ⟨_, rfl, a.step (x := ⟨c.generation, c.status, .failed⟩) ?_ _⟩
    refine ⟨rfl, ?_, ⟨rfl, rfl⟩, .inl ⟨rfl, by simp⟩, by simp [Event.isStart], ?_, ?_⟩
    · rw [hs]
      rfl
    · simp [Event.isFailure, hs]
    · simp [StatusStep.isFall, Event.isLoss, hs, Status.isLive]
  | busy h hs =>
    refine ⟨_, rfl, a.step (x := ⟨c.generation, c.status, .busy⟩) ?_ _⟩
    refine ⟨rfl, ?_, ⟨rfl, rfl⟩, .inl ⟨rfl, by simp⟩, by simp, by simp, by simp [StatusStep.isFall]⟩
    rw [hs]
    rfl
  | idle h hs =>
    refine ⟨_, rfl, a.step (x := ⟨c.generation, c.status, .running⟩) ?_ _⟩
    refine ⟨rfl, ?_, ⟨rfl, rfl⟩, .inl ⟨rfl, by simp⟩, by simp [hs], by simp,
      by simp [StatusStep.isFall]⟩
    rw [hs]
    rfl
  | fall h hs hr =>
    have hne : c.status ≠ .starting := by
      intro hstarting
      rw [hstarting] at hs
      cases hs
    refine ⟨_, rfl, a.step (x := ⟨c.generation, c.status, .failed⟩) ?_ _⟩
    refine ⟨rfl, ?_, ⟨rfl, rfl⟩, .inl ⟨rfl, by simp⟩, by simp, by simp [hne], fun g => ?_⟩
    · cases hs' : c.status <;> rw [hs'] at hs <;> first | rfl | cases hs
    · by_cases hg : g = c.generation
      · simp [hr, StatusStep.isFall, hs, hg]
      · simp [hr, StatusStep.isFall, hg, Ne.symm hg]
  | @report g h notice releasing hr => exact ⟨_, rfl, a.report h hr notice _⟩

/-- So does a chain of steps. -/
theorem Ticks.account {own : Option Nat} {es : List Event} {c c' : Course} (h : Ticks own c c')
    (a : Account es c) : ∃ more, c'.news = c.news ++ more ∧ Account (es ++ more) c' := by
  induction h with
  | refl => exact ⟨[], (List.append_nil _).symm, by rwa [List.append_nil]⟩
  | tail _ htick ih =>
    obtain ⟨more, hmore, hc⟩ := ih
    obtain ⟨rest, hrest, hc'⟩ := htick.account hc
    exact ⟨more ++ rest, by rw [hrest, hmore, List.append_assoc], by rwa [← List.append_assoc]⟩

/-! ## The trace of a life -/

namespace World

variable {start w : World} {ms : List Move}

/-- What was told about the status. -/
def news (w : World) : List Event := w.log.filter Event.isNews

/-- Nothing was told of the status before a session's life. -/
theorem Fresh.account (h : start.Fresh) : Account [] start.ledger.course where
  status := h.status.symm
  legal := by simp
  begun := by simp
  tally g := by
    have hnone : start.ledger.course.releasing g = 0 := by
      simp [Ledger.course, ledger, h.watches]
    rw [hnone]
    exact ⟨rfl, rfl, rfl, Nat.zero_le _, Nat.le_refl _⟩
  starting _ _ := rfl
  live hlive := by
    rw [show start.ledger.course.status = .notStarted from h.status] at hlive
    cases hlive

/-- The account of a session's life. -/
theorem Life.account (h : Life start ms w) :
    ∃ es, w.news = start.news ++ es ∧ Account es w.ledger.course := by
  refine h.induction (P := fun v => ∃ es, v.news = start.news ++ es ∧ Account es v.ledger.course)
    (fun {a b m} hm hmove s ha => ?_) ⟨Nat.zero_le _, rfl⟩ h.last (Nat.zero_le _)
    ⟨[], (List.append_nil _).symm, h.fresh.account⟩
  obtain ⟨es, hes, haccount⟩ := ha
  obtain ⟨own, hticks, -⟩ := follows_of_change (move?_change hmove hm) s.tenure
  obtain ⟨more, hmore, hb⟩ := hticks.account haccount
  refine ⟨es ++ more, ?_, hb⟩
  rw [← List.append_assoc, ← hes]
  exact hmore

/-- The events of a session's life are the whole course of its status: only legal steps are
told, each of them leads to another status, and the last one to the present one.  A generation
has as many starts, failures and losses told as it takes the steps from starting to running, from
starting to failed, and from running or busy to failed, each of them at most once, and a loss only
after its watch has cleared away; when a stop was claimed while it was starting, it has none.
Between two moments the events tell how the status has moved, and what is reserved for the present
generation was done by one of its activities. -/
theorem Life.event_trace (h : Life start ms w) :
    (∃ es, w.news = start.news ++ es ∧ Status.after .notStarted es = w.status ∧
      (∀ x ∈ steps .notStarted es, x.isLegal = true ∧ x.source ≠ x.target) ∧
      ∀ g, Tally es g (w.watches.countP (Watch.releases g)) ∧
        (⟨g, .starting, .stopping⟩ ∈ steps .notStarted es →
          es.countP (Event.isStart g) = 0 ∧ es.countP (Event.isFailure g) = 0 ∧
            es.countP (Event.isLoss g) = 0)) ∧
    ∀ {n : Nat} {a b : World}, start.Moment ms n a → start.Moment ms (n + 1) b →
      ∃ more, b.news = a.news ++ more ∧ a.status.after more = b.status ∧
        ∀ x ∈ steps a.status more, x.isPersonal = true →
          x.generation = a.generation ∧ ∃ r, ms[n]? = some (.run r) ∧ a.Serves x.generation r := by
  constructor
  · obtain ⟨es, hes, haccount⟩ := h.account
    refine ⟨es, hes, haccount.status, fun x hx => ?_, fun g => ⟨haccount.tally g, fun hstop => ?_⟩⟩
    · exact ⟨haccount.legal x hx, StatusStep.ne_of_isLegal (haccount.legal x hx)⟩
    · have ht := haccount.tally g
      have hone := List.count_pos_iff.2 hstop
      have hstarted := ht.started
      have hfailed := ht.failed
      have hlost := ht.lost
      have honce := ht.once
      have hfallen := ht.fallen
      omega
  · intro n a b ha hb
    obtain ⟨m, hm, hmove⟩ := ha.step hb
    have hof : m.ofSession = true := h.ofSession m (List.mem_of_getElem? hm)
    obtain ⟨own, hticks, hown⟩ :=
      follows_of_change (move?_change hmove hof) (h.moment ha).sound.tenure
    obtain ⟨-, more, hmore, hs, hpersonal⟩ := hticks.tells
    refine ⟨more, hmore, hs, fun x hx hx' => ?_⟩
    obtain ⟨hg, hle⟩ := hpersonal x hx hx'
    obtain ⟨hle', r, rfl, hserves⟩ := hown x.generation hg
    exact ⟨Nat.le_antisymm hle' hle, r, hm, hserves⟩

end World

/-- A session loses its console while it runs, and its watch clears away and tells so. -/
def Trial.telling : List Move :=
  launching ++ connecting ++ losing ++
    [.run (.watch 0), .run (.watch 0), .run (.watch 0), .elapse 3000000000, .run (.watch 0),
      .run (.watch 0), .elapse 3000000000, .run (.watch 0)]

namespace World

/-- A session that has started and lost its console has told so, once each. -/
theorem event_trace_trial :
    ∃ w es, Trial.start.Life Trial.telling w ∧ w.news = Trial.start.news ++ es ∧
      steps .notStarted es =
        [⟨1, .notStarted, .starting⟩, ⟨1, .starting, .running⟩, ⟨1, .running, .failed⟩] ∧
      w.status = .failed ∧ es.countP (Event.isStart 1) = 1 ∧ es.countP (Event.isLoss 1) = 1 := by
  have hrun : (Trial.start.play? Trial.telling).map (fun w =>
      (steps .notStarted w.news, w.status, w.watches.countP (Watch.releases 1))) =
        some ([⟨1, .notStarted, .starting⟩, ⟨1, .starting, .running⟩, ⟨1, .running, .failed⟩],
          .failed, 0) := by decide +kernel
  obtain ⟨w, hplay, hw⟩ := Option.map_eq_some_iff.1 hrun
  simp only [Prod.mk.injEq] at hw
  obtain ⟨hsteps, hs, hreleasing⟩ := hw
  have hlife := Trial.life hplay (by decide)
  obtain ⟨⟨es, hes, -, -, htally⟩, -⟩ := hlife.event_trace
  obtain rfl : w.news = es := hes
  obtain ⟨ht, -⟩ := htally 1
  have hstarted := ht.started
  have hlost := ht.lost
  rw [hsteps] at hstarted hlost
  rw [hreleasing] at hlost
  exact ⟨w, w.news, hlife, rfl, hsteps, hs, hstarted, hlost⟩

end World

end SessionHost
