import Mathlib.Tactic.GCongr
import Mathlib.Tactic.Ring
import SessionHost.Proofs.Launching.Outcomes

/-!
# Budgets of waiting

A launch polls its session file a number of times, and a caller that finds a transition under way
looks at the status a number of times; both numbers come from the time that the settings and the
timings allow.  The polls are bounded from below before they are cut to a word of 64 bits, and the
budget of a transition is a sum of durations that may be too long for one.  So for very long
timeouts a plan may have no poll at all, and a transition no budget.

Main definitions:

- `PollPlan.polls`: the number of polls before it is cut.
- `PollPlan.Exact`, `PollPlan.Sound`: a plan of which nothing is cut, and one that keeps its budget.
- `World.waitTotal`, `World.SoundWait`: the budget of a transition, and a wait that outlasts it.
- `World.SitsOut`: a caller's wait for the end of a transition.

Main results:

- Theorem `PollPlan.accounts`: when a plan has polls, spends its time, warns in time and is exact.
- Theorem `World.SitsOut.ends`: a wait ends with the transition or later than its budget.
- Theorem `World.budgets`: all budgets are kept exactly if three times the polls fit 34 bits and the
  budget of a transition is a duration.
-/

namespace SessionHost

/-! ## Durations -/

namespace Duration

variable {d : Duration}

/-- The nanoseconds that no duration holds any more. -/
def limit : Nat := (Text.maxUInt64 + 1) * 1000000000

theorem inRange_iff : d.inRange = true ↔ d.nanos < limit := by
  rw [inRange, decide_eq_true_eq, seconds, ← Nat.lt_succ_iff,
    Nat.div_lt_iff_lt_mul (Nat.succ_pos _)]
  rfl

/-- Every number of seconds in a word is a duration. -/
theorem ofSeconds_inRange {n : Nat} (h : n ≤ Text.maxUInt64) : (ofSeconds n).inRange = true := by
  rw [inRange, decide_eq_true_eq, seconds, ofSeconds, Nat.mul_div_cancel _ (Nat.succ_pos _)]
  exact h

/-- A sum is there if it is a duration. -/
theorem add?_eq (d e : Duration) :
    d.add? e =
      if (⟨d.nanos + e.nanos⟩ : Duration).inRange then some ⟨d.nanos + e.nanos⟩ else none :=
  rfl

/-- A sum that is too long stays so when more is added. -/
theorem add?_bind_add? (d e f : Duration) :
    ((d.add? e).bind fun sum => sum.add? f) = (⟨d.nanos + e.nanos⟩ : Duration).add? f := by
  by_cases hsum : (⟨d.nanos + e.nanos⟩ : Duration).inRange = true
  · rw [add?_eq d e, if_pos hsum]
    rfl
  · have hmore : ¬(⟨d.nanos + e.nanos + f.nanos⟩ : Duration).inRange = true := by
      rw [inRange_iff] at hsum ⊢
      intro hmore
      exact hsum (Nat.lt_of_le_of_lt (Nat.le_add_right _ _) hmore)
    rw [add?_eq d e, if_neg hsum, add?_eq, if_neg hmore]
    rfl

/-- Sums of three durations can be put together in one step. -/
theorem add?_bind (d e f : Duration) (g : Duration → Option Duration) :
    ((d.add? e).bind fun sum => (sum.add? f).bind g) =
      ((⟨d.nanos + e.nanos⟩ : Duration).add? f).bind g := by
  rw [← add?_bind_add?, Option.bind_assoc]

/-- Whole milliseconds are no more than the duration. -/
theorem millis_le (d : Duration) : d.millis * 1000000 ≤ d.nanos := Nat.div_mul_le_self _ _

/-- One millisecond more is longer than the duration. -/
theorem lt_millis_succ (d : Duration) : d.nanos < (d.millis + 1) * 1000000 := by
  have hrest : d.nanos % 1000000 < 1000000 := Nat.mod_lt _ (Nat.succ_pos _)
  have hsplit : 1000000 * (d.nanos / 1000000) + d.nanos % 1000000 = d.nanos := Nat.div_add_mod _ _
  rw [millis]
  omega

end Duration

/-! ## Plans -/

namespace PollPlan

variable {p : PollPlan} {k : Nat}

/-- The number of polls before it is cut to a word. -/
def polls (p : PollPlan) : Nat := max 1 (p.timeout.millis / max 1 p.interval.millis)

/-- A plan of which no number is cut: neither the polls, nor three times the polls, nor the attempt
that the warning's time is a multiple for. -/
structure Exact (p : PollPlan) : Prop where
  attempts_eq : p.attempts = p.polls
  product_eq : word64 (p.attempts * 3) = p.attempts * 3
  factor_eq : word32 p.warnAt = p.warnAt
  elapsed_inRange : (p.elapsed p.warnAt).inRange = true

/-- A plan that keeps its budget: it polls, it spends its time up to a part of an interval, it warns
at one of its polls, and nothing is cut. -/
structure Sound (p : PollPlan) : Prop where
  polled : 1 ≤ p.attempts
  spent : ∀ k, 0 < k → p.interval = .ofMillis k → p.interval.nanos ≤ p.timeout.nanos →
    p.attempts * p.interval.nanos ≤ p.timeout.nanos ∧
      p.timeout.nanos < (p.attempts + 1) * p.interval.nanos
  warned : 1 ≤ p.warnAt ∧ p.warnAt ≤ p.attempts
  exact : p.Exact

/-- What is polled is what is left of the polls in a word. -/
theorem attempts_eq_word64 (p : PollPlan) : p.attempts = word64 p.polls := rfl

/-- There is at least one poll before anything is cut. -/
theorem one_le_polls (p : PollPlan) : 1 ≤ p.polls := Nat.le_max_left _ _

/-- A number is not cut exactly where it fits into 64 bits. -/
theorem word64_eq_self_iff {n : Nat} : word64 n = n ↔ n < Nat.pow 2 64 :=
  Nat.mod_eq_iff_lt (by decide)

/-- A number is not cut exactly where it fits into 32 bits. -/
theorem word32_eq_self_iff {n : Nat} : word32 n = n ↔ n < Nat.pow 2 32 :=
  Nat.mod_eq_iff_lt (by decide)

theorem word64_le (n : Nat) : word64 n ≤ n := Nat.mod_le _ _

/-- Cutting only takes polls away. -/
theorem attempts_le_polls (p : PollPlan) : p.attempts ≤ p.polls := word64_le _

/-- All polls are taken exactly where their number fits into a word. -/
theorem attempts_eq_polls_iff : p.attempts = p.polls ↔ p.polls < Nat.pow 2 64 :=
  word64_eq_self_iff

/-- A plan has no polls when their number is a multiple of a word's. -/
theorem one_le_attempts_iff : 1 ≤ p.attempts ↔ ¬Nat.pow 2 64 ∣ p.polls := by
  rw [attempts_eq_word64, word64, Nat.dvd_iff_mod_eq_zero, Nat.one_le_iff_ne_zero]

/-- For an interval of whole milliseconds, the polls are the intervals in the time. -/
theorem polls_eq_div (hk : 0 < k) (hinterval : p.interval = .ofMillis k)
    (hfits : p.interval.nanos ≤ p.timeout.nanos) :
    p.polls = p.timeout.nanos / p.interval.nanos := by
  have hnanos : p.interval.nanos = k * 1000000 := by rw [hinterval, Duration.ofMillis]
  have hmillis : p.interval.millis = k := by
    rw [Duration.millis, hnanos, Nat.mul_div_cancel _ (Nat.succ_pos _)]
  have hpos : 0 < p.interval.nanos := by
    rw [hnanos]
    exact Nat.mul_pos hk (Nat.succ_pos _)
  have hdiv : p.timeout.millis / k = p.timeout.nanos / p.interval.nanos := by
    rw [Duration.millis, Nat.div_div_eq_div_mul, hnanos, Nat.mul_comm k]
  have hone : 1 ≤ p.timeout.nanos / p.interval.nanos := (Nat.one_le_div_iff hpos).2 hfits
  rw [polls, hmillis, Nat.max_eq_right hk, hdiv, Nat.max_eq_right hone]

/-- The polls never take longer than the time that is given. -/
theorem attempts_mul_le (hk : 0 < k) (hinterval : p.interval = .ofMillis k)
    (hfits : p.interval.nanos ≤ p.timeout.nanos) :
    p.attempts * p.interval.nanos ≤ p.timeout.nanos := by
  calc p.attempts * p.interval.nanos
      ≤ p.polls * p.interval.nanos := Nat.mul_le_mul_right _ p.attempts_le_polls
    _ = p.timeout.nanos / p.interval.nanos * p.interval.nanos := by
        rw [polls_eq_div hk hinterval hfits]
    _ ≤ p.timeout.nanos := Nat.div_mul_le_self _ _

/-- They take up the time up to a part of an interval unless their number is cut. -/
theorem lt_attempts_succ_mul_iff (hk : 0 < k) (hinterval : p.interval = .ofMillis k)
    (hfits : p.interval.nanos ≤ p.timeout.nanos) :
    p.timeout.nanos < (p.attempts + 1) * p.interval.nanos ↔ p.polls < Nat.pow 2 64 := by
  have hpolls := polls_eq_div hk hinterval hfits
  have hpos : 0 < p.interval.nanos := by
    rw [hinterval]
    exact Nat.mul_pos hk (Nat.succ_pos _)
  rw [← Nat.div_lt_iff_lt_mul hpos, ← hpolls, ← attempts_eq_polls_iff]
  have hle := p.attempts_le_polls
  omega

/-- The warning is given at one of the polls if there are any. -/
theorem warnAt_le_attempts_iff : p.warnAt ≤ p.attempts ↔ 1 ≤ p.attempts := by
  have hone := World.one_le_warnAt p
  have hproduct : word64 (p.attempts * 3) ≤ p.attempts * 3 := word64_le _
  constructor
  · intro hwarn
    exact Nat.le_trans hone hwarn
  · intro hpolled
    rw [warnAt]
    omega

/-- The warning is due at the first poll, or within three quarters of them. -/
theorem warnAt_le (p : PollPlan) : p.warnAt = 1 ∨ 4 * p.warnAt ≤ 3 * p.polls := by
  have hproduct : word64 (p.attempts * 3) ≤ p.attempts * 3 := word64_le _
  have hle := p.attempts_le_polls
  rw [warnAt]
  omega

/-- More polls than one are the intervals, cut to milliseconds, in the time. -/
theorem polls_mul_le (h : 1 < p.polls) : p.polls * p.interval.millis ≤ p.timeout.millis := by
  have hpolls : p.polls = p.timeout.millis / max 1 p.interval.millis := by
    rw [polls] at h ⊢
    omega
  calc p.polls * p.interval.millis
      ≤ p.polls * max 1 p.interval.millis := Nat.mul_le_mul_left _ (Nat.le_max_right _ _)
    _ = p.timeout.millis / max 1 p.interval.millis * max 1 p.interval.millis := by rw [hpolls]
    _ ≤ p.timeout.millis := Nat.div_mul_le_self _ _

/-- An interval of three milliseconds and more is at most four thirds of its whole milliseconds, so
three quarters of the polls take no longer than the whole time. -/
theorem interval_mul_warnAt_le (hwarn : p.warnAt ≠ 1) (hlong : 3 ≤ p.interval.millis) :
    p.interval.nanos * p.warnAt ≤ p.timeout.nanos := by
  have hquarters : 4 * p.warnAt ≤ 3 * p.polls := p.warnAt_le.resolve_left hwarn
  have hone := World.one_le_warnAt p
  have hpolls : p.polls * p.interval.millis ≤ p.timeout.millis := polls_mul_le (by omega)
  have hinterval : 3 * p.interval.nanos ≤ 4 * (p.interval.millis * 1000000) := by
    have hlt := p.interval.lt_millis_succ
    omega
  have hbound : 12 * (p.interval.nanos * p.warnAt) ≤ 12 * p.timeout.nanos := by
    calc 12 * (p.interval.nanos * p.warnAt)
        = 3 * p.interval.nanos * (4 * p.warnAt) := by ring
      _ ≤ 4 * (p.interval.millis * 1000000) * (3 * p.polls) := Nat.mul_le_mul hinterval hquarters
      _ = 12 * (p.polls * p.interval.millis * 1000000) := by ring
      _ ≤ 12 * (p.timeout.millis * 1000000) := by gcongr
      _ ≤ 12 * p.timeout.nanos := Nat.mul_le_mul_left _ p.timeout.millis_le
  omega

/-- The time that the warning names can always be held: with a short interval its factor has but 32
bits, and with a long one it is no longer than the whole time. -/
theorem elapsed_warnAt_inRange (hinterval : p.interval.inRange = true)
    (htimeout : p.timeout.inRange = true) : (p.elapsed p.warnAt).inRange = true := by
  rw [Duration.inRange_iff] at hinterval htimeout ⊢
  change p.interval.nanos * word32 p.warnAt < Duration.limit
  have hword : word32 p.warnAt ≤ p.warnAt := Nat.mod_le _ _
  by_cases hfirst : p.warnAt = 1
  · calc p.interval.nanos * word32 p.warnAt
        ≤ p.interval.nanos * 1 := Nat.mul_le_mul_left _ (hfirst ▸ hword)
      _ < Duration.limit := by rwa [Nat.mul_one]
  · by_cases hshort : p.interval.millis < 3
    · have hnanos : p.interval.nanos ≤ 3000000 := by
        have hlt := p.interval.lt_millis_succ
        omega
      have hcut : word32 p.warnAt ≤ 4294967296 := Nat.le_of_lt (Nat.mod_lt _ (by decide))
      calc p.interval.nanos * word32 p.warnAt
          ≤ 3000000 * 4294967296 := Nat.mul_le_mul hnanos hcut
        _ < Duration.limit := by decide
    · calc p.interval.nanos * word32 p.warnAt
          ≤ p.interval.nanos * p.warnAt := Nat.mul_le_mul_left _ hword
        _ ≤ p.timeout.nanos := interval_mul_warnAt_le hfirst (Nat.le_of_not_lt hshort)
        _ < Duration.limit := htimeout

/-- A plan is exact if three times its polls fit 34 bits: a quarter of that fits 32. -/
theorem exact_iff (hinterval : p.interval.inRange = true) (htimeout : p.timeout.inRange = true) :
    p.Exact ↔ p.polls * 3 < Nat.pow 2 34 := by
  have hquarter : max 1 (p.polls * 3 / 4) < Nat.pow 2 32 ↔ p.polls * 3 < Nat.pow 2 34 := by
    simp only [Nat.pow_eq]
    omega
  constructor
  · intro h
    have hfactor := word32_eq_self_iff.1 h.factor_eq
    rw [warnAt, h.product_eq, h.attempts_eq] at hfactor
    exact hquarter.1 hfactor
  · intro hpolls
    have hattempts : p.attempts = p.polls := by
      apply attempts_eq_polls_iff.2
      simp only [Nat.pow_eq] at hpolls ⊢
      omega
    have hproduct : word64 (p.attempts * 3) = p.attempts * 3 := by
      rw [word64_eq_self_iff, hattempts]
      exact Nat.lt_trans hpolls (by decide)
    refine ⟨hattempts, hproduct, ?_, elapsed_warnAt_inRange hinterval htimeout⟩
    rw [word32_eq_self_iff, warnAt, hproduct, hattempts]
    exact hquarter.2 hpolls

/-- **A plan keeps its budget exactly if three times its polls fit 34 bits.** -/
theorem sound_iff (hinterval : p.interval.inRange = true) (htimeout : p.timeout.inRange = true) :
    p.Sound ↔ p.polls * 3 < Nat.pow 2 34 := by
  constructor
  · intro h
    exact (exact_iff hinterval htimeout).1 h.exact
  · intro hpolls
    have hexact := (exact_iff hinterval htimeout).2 hpolls
    have hword : p.polls < Nat.pow 2 64 := attempts_eq_polls_iff.1 hexact.attempts_eq
    have hpolled : 1 ≤ p.attempts := by
      rw [hexact.attempts_eq]
      exact p.one_le_polls
    refine ⟨hpolled, fun k hk hmillis hfits => ?_, ?_, hexact⟩
    · exact ⟨attempts_mul_le hk hmillis hfits, (lt_attempts_succ_mul_iff hk hmillis hfits).2 hword⟩
    · exact ⟨World.one_le_warnAt p, warnAt_le_attempts_iff.2 hpolled⟩

end PollPlan

/-! ## Waiting for a transition -/

/-- The bounds of a session. -/
def Timings.durations (t : Timings) : List Duration :=
  [t.poll, t.version, t.clientStartup, t.clientStop, t.connect, t.statusPoll]

/-- No bound is longer than a day. -/
def Timings.WithinDay (t : Timings) : Prop :=
  ∀ d ∈ t.durations, d.nanos ≤ (Duration.ofSeconds 86400).nanos

namespace World

variable {w v start : World} {place place' : Wait}

/-- All the time that a transition may take, whether it can be held or not. -/
def waitTotal (timings : Timings) (handshake : Duration) : Duration :=
  ⟨handshake.nanos + timings.connect.nanos + timings.clientStartup.nanos + timings.version.nanos +
    (timings.clientStop.times 2).nanos⟩

/-- A wait that has a budget and sleeps longer than that. -/
structure SoundWait (timings : Timings) (handshake : Duration) : Prop where
  doubled_inRange : (timings.clientStop.times 2).inRange = true
  outlasts : ∃ budget, waitBudget? timings handshake = some budget ∧
    budget.nanos < waitLooks timings budget * (waitInterval timings).nanos

/-- A wait has a budget if the whole sum is a duration. -/
theorem waitBudget?_eq (timings : Timings) (handshake : Duration) :
    waitBudget? timings handshake =
      if (waitTotal timings handshake).inRange then some (waitTotal timings handshake)
      else none := by
  simp only [waitBudget?, Option.bind_eq_bind]
  rw [Duration.add?_bind, Duration.add?_bind, Duration.add?_bind_add?]
  rfl

/-- A wait has no budget exactly where the sum is too long. -/
theorem waitBudget?_eq_none_iff {timings : Timings} {handshake : Duration} :
    waitBudget? timings handshake = none ↔
      Duration.limit ≤ (waitTotal timings handshake).nanos := by
  rw [waitBudget?_eq, ← Nat.not_lt, ← Duration.inRange_iff]
  by_cases hrange : (waitTotal timings handshake).inRange = true
  · simp [hrange]
  · simp [hrange]

/-- The looks at the status and the intervals between them take longer than the budget. -/
theorem lt_waitLooks_mul (timings : Timings) (budget : Duration) :
    budget.nanos < waitLooks timings budget * (waitInterval timings).nanos := by
  let pause := waitInterval timings
  have hpause : 1 ≤ pause.millis := by
    have hnanos : 1000000 ≤ pause.nanos := Nat.le_max_right _ _
    rw [Duration.millis]
    omega
  have hlooks : budget.millis + 1 ≤ (budget.millis / pause.millis + 1) * pause.millis := by
    rw [Nat.mul_comm]
    exact Nat.lt_mul_div_succ _ hpause
  calc budget.nanos
      < (budget.millis + 1) * 1000000 := budget.lt_millis_succ
    _ ≤ (budget.millis / pause.millis + 1) * pause.millis * 1000000 :=
        Nat.mul_le_mul_right _ hlooks
    _ = waitLooks timings budget * (pause.millis * 1000000) := Nat.mul_assoc _ _ _
    _ ≤ waitLooks timings budget * pause.nanos := Nat.mul_le_mul_left _ pause.millis_le

/-- Twice the time to stop a client is a duration, if that time is at most a day. -/
theorem clientStop_times_inRange {timings : Timings} (h : timings.WithinDay) :
    (timings.clientStop.times 2).inRange = true := by
  have hday := h timings.clientStop (by simp [Timings.durations])
  rw [Duration.inRange_iff]
  calc timings.clientStop.nanos * 2
      ≤ (Duration.ofSeconds 86400).nanos * 2 := Nat.mul_le_mul_right _ hday
    _ < Duration.limit := by decide

/-- With bounds of at most a day, a wait is sound exactly where its sum is a duration. -/
theorem soundWait_iff {timings : Timings} {handshake : Duration} (h : timings.WithinDay) :
    SoundWait timings handshake ↔ (waitTotal timings handshake).nanos < Duration.limit := by
  rw [← Nat.not_le, ← waitBudget?_eq_none_iff]
  constructor
  · intro hsound hnone
    obtain ⟨budget, hbudget, -⟩ := hsound.outlasts
    rw [hnone] at hbudget
    cases hbudget
  · intro hsome
    obtain ⟨budget, hbudget⟩ := Option.ne_none_iff_exists'.1 hsome
    exact ⟨clientStop_times_inRange h, budget, hbudget, lt_waitLooks_mul timings budget⟩

/-- A caller's wait for the end of a transition: it looks again when an interval is over, and the
world goes on meanwhile. -/
inductive SitsOut (start : World) : World → Wait → Prop where
  | begun {place : Wait} (h : start.beginWait? = some place) : SitsOut start start place
  | meanwhile {w v : World} {place : Wait} (h : SitsOut start w place)
      (hconfig : v.config = w.config) (hnow : w.now ≤ v.now) : SitsOut start v place
  | looked {w v : World} {place place' : Wait} (h : SitsOut start w place)
      (hlook : w.wait place = .going v place') : SitsOut start v place'

/-- What is left of a wait: with all looks that it may still take, it lasts for all its looks since
it began. -/
structure Remains (start w : World) (place : Wait) (budget : Duration) : Prop where
  budget_eq : waitBudget? start.config.timings start.settings.handshakeTimeout = some budget
  config_eq : w.config = start.config
  looks_le : start.now +
      waitLooks start.config.timings budget * (waitInterval start.config.timings).nanos ≤
    place.wake + place.looks * (waitInterval start.config.timings).nanos

/-- A look at the status goes on as long as a transition is under way and looks are left. -/
theorem wait_going (h : w.wait place = .going v place') :
    v = w ∧ place.wake ≤ w.now ∧ place.looks = place'.looks + 1 ∧
      place'.wake = w.now + (waitInterval w.config.timings).nanos := by
  unfold wait at h
  split at h
  · next hdue =>
    unfold look at h
    split at h
    · cases h
    · next n hlooks =>
      split at h
      · cases h
        exact ⟨rfl, hdue, hlooks, rfl⟩
      · cases h
  · cases h

/-- A wait is over with the transition, or when no looks are left. -/
theorem wait_finished (h : w.wait place = .finished v ()) :
    place.wake ≤ w.now ∧ (w.status.isTransitioning = false ∧ v = w ∨ place.looks = 0) := by
  unfold wait at h
  split at h
  · next hdue =>
    refine ⟨hdue, ?_⟩
    unfold look at h
    split at h
    · next hlooks => exact .inr hlooks
    · split at h
      · cases h
      · next hstill =>
        cases h
        exact .inl ⟨by simpa using hstill, rfl⟩
  · cases h

/-- All through a wait its remaining looks make up the whole budget. -/
theorem SitsOut.remains (h : SitsOut start w place) : ∃ budget, Remains start w place budget := by
  induction h with
  | begun hbegin =>
    obtain ⟨budget, hbudget, rfl⟩ := Option.map_eq_some_iff.1 hbegin
    refine ⟨budget, hbudget, rfl, ?_⟩
    have hlooks : waitLooks start.config.timings budget =
        waitLooks start.config.timings budget - 1 + 1 := rfl
    rw [hlooks, Nat.succ_mul, Nat.add_right_comm, Nat.add_assoc]
    exact Nat.le_refl _
  | meanwhile _ hconfig hnow ih =>
    obtain ⟨budget, hremains⟩ := ih
    exact ⟨budget, hremains.budget_eq, hconfig.trans hremains.config_eq, hremains.looks_le⟩
  | @looked w v place place' _ hlook ih =>
    obtain ⟨budget, hremains⟩ := ih
    obtain ⟨rfl, hdue, hlooks, hwake⟩ := wait_going hlook
    refine ⟨budget, hremains.budget_eq, hremains.config_eq, ?_⟩
    have hle := hremains.looks_le
    rw [hlooks, Nat.succ_mul] at hle
    rw [hwake, hremains.config_eq]
    omega

/-- **A wait ends with the transition or later than its budget.** -/
theorem SitsOut.ends (h : SitsOut start w place) (hdone : w.wait place = .finished v ()) :
    w.status.isTransitioning = false ∧ v = w ∨
      ∃ budget, waitBudget? start.config.timings start.settings.handshakeTimeout = some budget ∧
        start.now + budget.nanos < w.now := by
  obtain ⟨hdue, hleft | hnone⟩ := wait_finished hdone
  · exact .inl hleft
  · obtain ⟨budget, hremains⟩ := h.remains
    refine .inr ⟨budget, hremains.budget_eq, ?_⟩
    have hle := hremains.looks_le
    have hlong := lt_waitLooks_mul start.config.timings budget
    rw [hnone] at hle
    omega

/-! ## All budgets -/

/-- When a plan keeps its budget, point for point. -/
structure PollAccount (plan : PollPlan) : Prop where
  /-- A launch that runs out of time has made all polls. -/
  polls_made : ∀ {p start trace w after q}, start.processes[p]? = some q → q.plan = plan →
    Course p start trace w (.over (.error (.timedOut after))) →
      (looks (ownSteps trace)).length = plan.attempts
  polled_iff : 1 ≤ plan.attempts ↔ ¬Nat.pow 2 64 ∣ plan.polls
  spent : ∀ k, 0 < k → plan.interval = .ofMillis k → plan.interval.nanos ≤ plan.timeout.nanos →
    plan.attempts * plan.interval.nanos ≤ plan.timeout.nanos ∧
      (plan.timeout.nanos < (plan.attempts + 1) * plan.interval.nanos ↔
        plan.polls < Nat.pow 2 64)
  warned : 1 ≤ plan.warnAt ∧ (plan.warnAt ≤ plan.attempts ↔ 1 ≤ plan.attempts)
  exact_iff : plan.Exact ↔ plan.polls * 3 < Nat.pow 2 34
  elapsed_inRange : (plan.elapsed plan.warnAt).inRange = true

/-- When a plan of polls keeps its budget, for every interval and timeout. -/
theorem pollAccount {plan : PollPlan} (hinterval : plan.interval.inRange = true)
    (htimeout : plan.timeout.inRange = true) : PollAccount plan where
  polls_made := by
    intro p start trace w after q hq hplan hcourse
    obtain ⟨-, -, hjustified⟩ := hcourse.justified hq
    obtain ⟨-, hrounds⟩ := (hjustified _ rfl).timed_out rfl
    rw [hrounds.length_looks, hplan]
  polled_iff := PollPlan.one_le_attempts_iff
  spent k hk hmillis hfits :=
    ⟨PollPlan.attempts_mul_le hk hmillis hfits, PollPlan.lt_attempts_succ_mul_iff hk hmillis hfits⟩
  warned := ⟨one_le_warnAt plan, PollPlan.warnAt_le_attempts_iff⟩
  exact_iff := PollPlan.exact_iff hinterval htimeout
  elapsed_inRange := PollPlan.elapsed_warnAt_inRange hinterval htimeout

/-- When a wait for the end of a transition keeps its budget. -/
structure WaitAccount (w : World) : Prop where
  /-- A wait cannot begin when its budget is too long for a duration. -/
  refused_iff : w.beginWait? = none ↔
    Duration.limit ≤ (waitTotal w.config.timings w.settings.handshakeTimeout).nanos
  ends : ∀ {v u place}, SitsOut w v place → v.wait place = .finished u () →
    v.status.isTransitioning = false ∧ u = v ∨
      ∃ budget, waitBudget? w.config.timings w.settings.handshakeTimeout = some budget ∧
        w.now + budget.nanos < v.now

/-- When a wait keeps its budget, in every world. -/
theorem waitAccount (w : World) : WaitAccount w where
  refused_iff := by rw [beginWait?, Option.map_eq_none_iff, waitBudget?_eq_none_iff]
  ends := SitsOut.ends

/-- **Which budgets are kept.**  For every timeout that the settings accept, every interval and all
timings up to a day, a plan and a wait behave as their accounts say, and they keep their budgets
together exactly if three times the polls fit 34 bits and all the time that a transition may take is
a duration. -/
theorem budgets (w : World)
    (htimeout : w.settings.developer.handshakeTimeoutSeconds ≤ Text.maxUInt64)
    (htimings : w.config.timings.WithinDay) (interval : Duration)
    (hinterval : interval.inRange = true) :
    PollAccount ⟨interval, w.settings.handshakeTimeout⟩ ∧ WaitAccount w ∧
      (PollPlan.Sound ⟨interval, w.settings.handshakeTimeout⟩ ∧
          SoundWait w.config.timings w.settings.handshakeTimeout ↔
        PollPlan.polls ⟨interval, w.settings.handshakeTimeout⟩ * 3 < Nat.pow 2 34 ∧
          (waitTotal w.config.timings w.settings.handshakeTimeout).nanos < Duration.limit) := by
  have hrange : w.settings.handshakeTimeout.inRange = true := Duration.ofSeconds_inRange htimeout
  refine ⟨pollAccount hinterval hrange, waitAccount w, ?_⟩
  rw [PollPlan.sound_iff hinterval hrange, soundWait_iff htimings]

end World

/-- A world with a timeout of `2 ^ 61` seconds. -/
def Trial.patient : World :=
  { Trial.start with settings := { developer := { handshakeTimeoutSeconds := Nat.pow 2 61 } } }

/-- The timeout, looked at every millisecond. -/
def Trial.finePlan : PollPlan := ⟨.ofMillis 1, Trial.patient.settings.handshakeTimeout⟩

/-- There are `125 * 2 ^ 64` milliseconds in the timeout, of which the word keeps nothing. -/
theorem World.budgets_trial :
    Trial.patient.settings.developer.handshakeTimeoutSeconds ≤ Text.maxUInt64 ∧
      Trial.patient.config.timings.WithinDay ∧ Trial.finePlan.interval.inRange = true ∧
      PollAccount Trial.finePlan ∧ WaitAccount Trial.patient ∧
      ¬1 ≤ Trial.finePlan.attempts ∧ ¬Trial.finePlan.warnAt ≤ Trial.finePlan.attempts ∧
      ¬(Trial.finePlan.Sound ∧
        SoundWait Trial.patient.config.timings Trial.patient.settings.handshakeTimeout) := by
  have htimeout : Trial.patient.settings.developer.handshakeTimeoutSeconds ≤ Text.maxUInt64 := by
    decide
  have htimings : Trial.patient.config.timings.WithinDay := by
    unfold Timings.WithinDay
    decide
  have hinterval : Trial.finePlan.interval.inRange = true := by decide
  have hcut : Nat.pow 2 64 ∣ Trial.finePlan.polls := ⟨125, by decide⟩
  obtain ⟨hplan, hwait, hsound⟩ := World.budgets Trial.patient htimeout htimings _ hinterval
  have hnone : ¬1 ≤ Trial.finePlan.attempts := fun hpolled => hplan.polled_iff.1 hpolled hcut
  refine ⟨htimeout, htimings, hinterval, hplan, hwait, hnone, ?_, ?_⟩
  · intro hwarn
    exact hnone (hplan.warned.2.1 hwarn)
  · intro hall
    exact absurd (hsound.1 hall).1 (by decide)

end SessionHost
