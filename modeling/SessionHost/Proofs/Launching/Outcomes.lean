import SessionHost.Proofs.Launching.Schedules

/-!
# The outcomes of a launch

Every outcome of a launch has its reason in the course of it: a handshake was read from the file
that was then deleted, an exit had been reported when the file was missing, or all looks were in
vain.  A launch never gets stuck, and it makes a bounded number of steps.

Main definitions:

- `World.slowReports`: the slow starts that a step reports.
- `World.Bounded`: bounds that hold all along.
- `World.Awaits`: what a launch may still wait for.
- `World.Justified`: the reasons for an outcome.

Main results:

- Theorem `World.Course.justified`: in every course of a launch the bounds hold, the launch is not
  stuck, and its outcome is justified.
-/

namespace SessionHost

/-- The slow start of a process that an event tells of. -/
def Event.slowness? (p : Nat) : Event → Option Duration
  | .slow p' elapsed => if p' = p then some elapsed else none
  | _ => none

namespace World

variable {p c n : Nat} {w v u x start : World} {q q' : ServerProcess} {l l' : Launching}
  {outcome : LaunchOutcome} {stage : LaunchStage} {trace : List Incident}
  {own before : List (World × Launching)}

/-! ## Slow starts -/

/-- The slow starts of a process that have been reported. -/
def slowness (w : World) (p : Nat) : List Duration := w.log.filterMap (Event.slowness? p)

/-- The slow starts that a step of a launch reports. -/
def slowReports (p : Nat) (s : World × Launching) : List Duration :=
  match s.1.launch p s.2 with
  | .going v _ => (v.slowness p).drop (s.1.slowness p).length
  | .finished v _ => (v.slowness p).drop (s.1.slowness p).length
  | .blocked => []

/-- Other events do not tell of a slow start. -/
theorem slowness_record {e : Event} (h : e.slowness? p = none) :
    (w.record e).slowness p = w.slowness p := by
  simp [slowness, record, h]

/-- Deleting a session file does not tell of a slow start. -/
theorem slowness_deleteSessionFile (path : Path) :
    (w.deleteSessionFile path).slowness p = w.slowness p := by
  unfold deleteSessionFile
  split
  · rfl
  · rfl
  · exact slowness_record rfl

/-- Telling a console something does not tell of a slow start. -/
theorem slowness_tell (command : ConsoleCommand) :
    (w.tell c command).slowness p = w.slowness p := by
  unfold tell
  split
  · rfl
  · simp only []
    split
    · rfl
    · rfl

/-- Letting go of a console does not tell of a slow start. -/
theorem slowness_releaseConsole : (w.releaseConsole c).slowness p = w.slowness p := by
  unfold releaseConsole
  split
  · simp only []
    split
    · rfl
    · rfl
  · rfl

/-- Looking again does not tell of a slow start. -/
theorem lookAgain_slowness (q : ServerProcess) (n : Nat) :
    (w.lookAgain p q n).Ends fun v => v.slowness p = w.slowness p := by
  unfold lookAgain
  split
  · rfl
  · split <;> rfl

/-- Taking a console over does not tell of a slow start. -/
theorem adoptConsole_slowness (q : ServerProcess) (c : Nat) (number : Option Nat) :
    (w.adoptConsole p q c number).Ends fun v => v.slowness p = w.slowness p := by
  unfold adoptConsole
  split
  · exact slowness_tell .kill
  · simp only []
    have hend : ∀ v : World, v.slowness p = w.slowness p →
        (v.lookAgain p (q.holding c number) 1).Ends fun u => u.slowness p = w.slowness p := by
      intro v hv
      rw [← hv]
      exact lookAgain_slowness _ 1
    have hset (v : World) (x : ServerProcess) : (v.setProcess p x).slowness p = v.slowness p := rfl
    have hwatch (v : World) (k : Console) : (v.setConsole c k).slowness p = v.slowness p := rfl
    apply hend
    split <;> split <;> split <;>
      simp only [slowness_tell, hset, hwatch, slowness_releaseConsole]

/-- The report that is due when a look of a launch was in vain. -/
def dueReport (q : ServerProcess) : Launching → List Duration
  | .turn n _ => if n = q.plan.warnAt ∧ q.reportsSlowness = true then [q.plan.elapsed n] else []
  | _ => []

/-- A look in vain reports what is due. -/
theorem withoutFile_slowness (q : ServerProcess) (n : Nat)
    (content : Except ErrorKind (List UInt8)) :
    (w.withoutFile p q n).Gives
      (fun v _ => v.slowness p = w.slowness p ++ dueReport q (.turn n content))
      fun v _ => v.slowness p = w.slowness p := by
  unfold withoutFile
  split
  · rfl
  · simp only [Progress.Gives, dueReport]
    by_cases hn : n = q.plan.warnAt
    · rw [if_pos hn]
      by_cases hreports : q.reportsSlowness = true
      · rw [if_pos ⟨hn, hreports⟩]
        simp [warnSlow, hreports, slowness, warn, record, Event.slowness?, List.filterMap_cons]
      · rw [if_neg fun h => hreports h.2, List.append_nil]
        simp [warnSlow, hreports, slowness, warn, record, Event.slowness?]
    · rw [if_neg hn, if_neg fun h => hn h.1, List.append_nil]

/-- A piece of a launch reports a slow start if that is due and it goes on. -/
theorem launch_slowness (hq : w.processes[p]? = some q) (l : Launching) :
    (w.launch p l).Gives (fun v _ => v.slowness p = w.slowness p ++ dueReport q l)
      fun v _ => v.slowness p = w.slowness p := by
  have hquiet {x : LaunchProgress} (hx : x.Ends (·.slowness p = w.slowness p)) :
      x.Gives (fun v _ => v.slowness p = w.slowness p ++ [])
        fun v _ => v.slowness p = w.slowness p := by
    simpa only [List.append_nil] using hx.gives
  cases l with
  | answer c =>
    simp only [launch, hq]
    split
    · trivial
    · rfl
    · next number hanswer => exact hquiet (adoptConsole_slowness q c number)
  | file n =>
    rw [launch_file]
    trivial
  | turn n content =>
    simp only [launch, hq, afterLook]
    split
    · exact withoutFile_slowness q n _
    · rfl
    · split
      · rfl
      · exact slowness_deleteSessionFile _
  | interval n wake =>
    simp only [launch, hq]
    split
    · rfl
    · split
      · exact hquiet (lookAgain_slowness q (n + 1))
      · trivial
  | woken n =>
    simp only [launch, hq]
    exact hquiet (lookAgain_slowness q (n + 1))

/-- A step that goes on reports what is due at its place. -/
theorem slowReports_going (hq : w.processes[p]? = some q) (h : w.launch p l = .going v l') :
    slowReports p (w, l) = dueReport q l := by
  have hgives := launch_slowness hq l
  simp only [h, Progress.Gives] at hgives
  simp only [slowReports, h, hgives, List.drop_left]

/-- The last step reports no slow start. -/
theorem slowReports_finished (h : w.launch p l = .finished v outcome) :
    slowReports p (w, l) = [] := by
  cases hq : w.processes[p]? with
  | none => simp [launch, hq] at h
  | some q =>
    have hgives := launch_slowness hq l
    simp only [h, Progress.Gives] at hgives
    simp only [slowReports, h, hgives, List.drop_length]

/-- A step that is no check reports nothing. -/
theorem slowReports_eq_nil (hl : ∀ n content, l ≠ .turn n content) : slowReports p (w, l) = [] := by
  cases hpiece : w.launch p l with
  | blocked => simp only [slowReports, hpiece]
  | finished v o => exact slowReports_finished hpiece
  | going v l' =>
    cases hq : w.processes[p]? with
    | none => simp [launch, hq] at hpiece
    | some q =>
      rw [slowReports_going hq hpiece]
      cases l with
      | turn n content => exact absurd rfl (hl n content)
      | _ => rfl

/-- The answer of the launcher is no report. -/
theorem slowReports_answer (w : World) (c : Nat) : slowReports p (w, .answer c) = [] :=
  slowReports_eq_nil fun _ _ h => by cases h

/-- A look by itself is no report. -/
theorem slowReports_file (w : World) (n : Nat) : slowReports p (w, .file n) = [] :=
  slowReports_eq_nil fun _ _ h => by cases h

/-- Waiting is no report. -/
theorem slowReports_interval (w : World) (n wake : Nat) :
    slowReports p (w, .interval n wake) = [] :=
  slowReports_eq_nil fun _ _ h => by cases h

/-- A check that finds the console running goes on. -/
theorem slowReports_check (h : Running p q x) (n : Nat) :
    slowReports p (x, .turn n (.error .notFound)) = dueReport q (.turn n (.error .notFound)) := by
  obtain ⟨q', hq', hlater, hexit⟩ := h
  obtain ⟨v, l, hpiece⟩ : ∃ v l, x.launch p (.turn n (.error .notFound)) = .going v l := by
    simp only [launch, hq', afterLook, withoutFile, hexit]
    exact ⟨_, _, rfl⟩
  rw [slowReports_going hq' hpiece]
  simp only [dueReport, hlater.plan_eq, hlater.reportsSlowness_eq]

/-- The warning is due at the first check at the earliest. -/
theorem one_le_warnAt (plan : PollPlan) : 1 ≤ plan.warnAt := Nat.le_max_left _ _

/-- Rounds in vain report a slow start when the round of the warning is among them. -/
theorem Rounds.slowReports_eq (h : Rounds p q n own) :
    own.flatMap (slowReports p) =
      if q.plan.warnAt ≤ n ∧ q.reportsSlowness = true then [q.plan.elapsed q.plan.warnAt]
      else [] := by
  have hwarn := one_le_warnAt q.plan
  induction h with
  | adopted u c =>
    rw [if_neg (by omega), List.flatMap_singleton, slowReports_answer]
  | @round n own look check wake _ hlook hcheck hwake ih =>
    have hround : ([(look, .file (n + 1)), (check, .turn (n + 1) (.error .notFound)),
        (wake, .interval (n + 1) (check.now + q.plan.interval.nanos))] :
          List (World × Launching)).flatMap (slowReports p) =
        dueReport q (.turn (n + 1) (.error .notFound)) := by
      simp only [List.flatMap_cons, List.flatMap_nil, slowReports_check hcheck, slowReports_file,
        slowReports_interval, List.nil_append, List.append_nil]
    rw [List.flatMap_append, ih, hround, dueReport]
    by_cases hreports : q.reportsSlowness = true
    · simp only [hreports, and_true]
      by_cases hbefore : q.plan.warnAt ≤ n
      · rw [if_pos hbefore, if_neg (by omega), if_pos (by omega), List.append_nil]
      · by_cases hnow : n + 1 = q.plan.warnAt
        · rw [if_neg hbefore, if_pos hnow, if_pos (by omega), hnow, List.nil_append]
        · rw [if_neg hbefore, if_neg hnow, if_neg (by omega), List.nil_append]
    · simp [hreports]

/-- Every round that was made has its check. -/
theorem Rounds.exists_check (h : Rounds p q n own) {m : Nat} (hm : 1 ≤ m) (hmn : m ≤ n) :
    ∃ u, (u, .turn m (.error .notFound)) ∈ own := by
  induction h with
  | adopted u c => omega
  | @round n own look check wake _ hlook hcheck hwake ih =>
    rcases Nat.lt_or_eq_of_le hmn with hlt | rfl
    · obtain ⟨u, hu⟩ := ih (Nat.le_of_lt_succ hlt)
      exact ⟨u, List.mem_append_left _ hu⟩
    · exact ⟨check, List.mem_append_right _ (by simp)⟩

/-- A slow start is reported once at most, at the check of the plan. -/
def WarnedOnce (p : Nat) (q : ServerProcess) (own : List (World × Launching)) : Prop :=
  own.flatMap (slowReports p) = [] ∨
    own.flatMap (slowReports p) = [q.plan.elapsed q.plan.warnAt] ∧
      ∃ u, (u, .turn q.plan.warnAt (.error .notFound)) ∈ own

/-- Rounds in vain warn at the check of the plan, and only there. -/
theorem Rounds.warnedOnce (h : Rounds p q n own) : WarnedOnce p q own := by
  rw [WarnedOnce, h.slowReports_eq]
  split
  · next hwarn => exact .inr ⟨rfl, h.exists_check (one_le_warnAt q.plan) hwarn.1⟩
  · exact .inl rfl

/-- Steps that report nothing change nothing. -/
theorem WarnedOnce.append (h : WarnedOnce p q own) {more : List (World × Launching)}
    (hmore : more.flatMap (slowReports p) = []) : WarnedOnce p q (own ++ more) := by
  rw [WarnedOnce, List.flatMap_append, hmore, List.append_nil]
  exact h.imp id fun ⟨heq, u, hu⟩ => ⟨heq, u, List.mem_append_left _ hu⟩

/-- A wait at the end does not matter to the warning. -/
theorem WarnedOnce.of_interval {wake : Nat} (h : WarnedOnce p q (own ++ [(w, .interval n wake)])) :
    WarnedOnce p q own := by
  rw [WarnedOnce, List.flatMap_append, List.flatMap_singleton, slowReports_interval,
    List.append_nil] at h
  refine h.imp id fun ⟨heq, u, hu⟩ => ⟨heq, u, ?_⟩
  rcases List.mem_append.1 hu with hu | hu
  · exact hu
  · simp at hu

/-- The reports of a launch that is not over. -/
theorem Along.warnedOnce (h : Along p q w own l) : WarnedOnce p q own := by
  cases l with
  | answer c =>
    obtain rfl : own = [] := h
    exact .inl rfl
  | file n =>
    obtain ⟨m, -, -, hrounds⟩ := h
    exact hrounds.warnedOnce
  | turn n content =>
    obtain ⟨m, before, look, -, -, hrounds, rfl, -⟩ := h
    exact hrounds.warnedOnce.append (by simp [slowReports_file])
  | interval n wake =>
    obtain ⟨m, before, look, check, rfl, -, hrounds, rfl, hlook, hcheck, rfl, hnow⟩ := h
    -- With a wait for the whole interval, the round would be one in vain.
    let wake : World := { check with now := check.now + q.plan.interval.nanos }
    have hround : Rounds p q (m + 1) (before ++ [(look, .file (m + 1)),
        (check, .turn (m + 1) (.error .notFound)),
        (wake, .interval (m + 1) (check.now + q.plan.interval.nanos))]) :=
      .round hrounds hlook hcheck (Nat.le_refl _)
    have hsplit (a b c : World × Launching) : before ++ [a, b, c] = before ++ [a, b] ++ [c] := by
      simp
    rw [hsplit] at hround
    exact hround.warnedOnce.of_interval
  | woken n => exact h.2.warnedOnce

/-! ## Bounds -/

/-- The worlds in which a launch has looked for its session file. -/
def looks (own : List (World × Launching)) : List World :=
  own.filterMap fun s => match s.2 with
    | .file _ => some s.1
    | _ => none

/-- Each round has one look. -/
theorem Rounds.length_looks (h : Rounds p q n own) : (looks own).length = n := by
  induction h with
  | adopted u c => rfl
  | round _ hlook hcheck hwake ih =>
    rw [looks, List.filterMap_append, List.length_append]
    exact congrArg (· + 1) ih

/-- The looks behind some rounds are counted on. -/
theorem Rounds.length_looks_append (h : Rounds p q n own) (more : List (World × Launching)) :
    (looks (own ++ more)).length = n + (looks more).length := by
  rw [looks, List.filterMap_append, List.length_append]
  exact congrArg (· + _) h.length_looks

/-- Each round has three steps, behind the answer of the launcher. -/
theorem Rounds.length_eq (h : Rounds p q n own) : own.length = 3 * n + 1 := by
  induction h with
  | adopted u c => rfl
  | round _ hlook hcheck hwake ih =>
    rw [List.length_append, ih]
    simp only [List.length_cons, List.length_nil]
    omega

/-- A launch that is not over has made no more looks than planned, and three steps for each; its
next piece is one more step at most. -/
theorem Along.bounded (h : Along p q w own l) :
    (looks own).length ≤ q.plan.attempts ∧
      own.length + (Incident.ofPiece w l).length ≤ 3 * q.plan.attempts + 1 := by
  cases l with
  | answer c =>
    obtain rfl : own = [] := h
    exact ⟨Nat.zero_le _, Nat.succ_le_succ (Nat.zero_le _)⟩
  | file n =>
    obtain ⟨m, rfl, hle, hrounds⟩ := h
    rw [hrounds.length_looks, hrounds.length_eq, Incident.ofPiece_eq w (fun k hk => by cases hk),
      List.length_singleton]
    omega
  | turn n content =>
    obtain ⟨m, before, look, rfl, hle, hrounds, rfl, -⟩ := h
    rw [hrounds.length_looks_append, List.length_append, hrounds.length_eq,
      Incident.ofPiece_eq w (fun k hk => by cases hk)]
    simp only [looks, List.filterMap_cons, List.filterMap_nil, List.length_cons, List.length_nil]
    omega
  | interval n wake =>
    obtain ⟨m, before, look, check, rfl, hle, hrounds, rfl, -⟩ := h
    rw [hrounds.length_looks_append, List.length_append, hrounds.length_eq,
      Incident.ofPiece_eq w (fun k hk => by cases hk)]
    simp only [looks, List.filterMap_cons, List.filterMap_nil, List.length_cons, List.length_nil]
    omega
  | woken n =>
    obtain ⟨hle, hrounds⟩ := h
    rw [hrounds.length_looks, hrounds.length_eq, Incident.ofPiece, List.length_nil]
    omega

/-! ## Nothing gets stuck -/

/-- What a launch may still wait for: the launcher's answer, or the end of an interval.  Otherwise
it can go on. -/
def Awaits (p : Nat) (q : ServerProcess) (w : World) : Launching → Prop
  | .answer c => (w.consoles[c]?.bind Console.answer).isSome = true →
      w.launch p (.answer c) ≠ .blocked
  | .file n => ∃ l, w.arrival? p (.file n) = some l
  | .turn n content => w.launch p (.turn n content) ≠ .blocked
  | .interval n wake => wake ≤ w.now + q.plan.interval.nanos ∧
      (wake ≤ w.now ∨ w.isCancelled (q.purpose.token p) = true →
        w.launch p (.interval n wake) ≠ .blocked)
  | .woken n => w.launch p (.woken n) ≠ .blocked

/-- A launch that may look again waits for nothing. -/
theorem lookAgain_ne_blocked (q : ServerProcess) (n : Nat) : w.lookAgain p q n ≠ .blocked := by
  unfold lookAgain
  intro h
  split at h
  · cases h
  · split at h <;> cases h

/-- A launch that is not over can go on, unless it waits for the launcher or for time. -/
theorem Underway.awaits (h : Underway p q trace w l) : Awaits p q w l := by
  obtain ⟨q', hq', hlater, -⟩ := h.process
  cases l with
  | answer c =>
    intro hanswer hblocked
    obtain ⟨answer, hanswer⟩ := Option.isSome_iff_exists.1 hanswer
    simp only [launch, hq', hanswer] at hblocked
    cases answer with
    | error e => cases hblocked
    | ok number =>
      cases hd : q'.disposed with
      | true =>
        simp only [adoptConsole, if_pos hd] at hblocked
        cases hblocked
      | false =>
        obtain ⟨v, heq, -⟩ := adoptConsole_looks hq' hd c number
        exact lookAgain_ne_blocked _ _ (heq.symm.trans hblocked)
  | file n =>
    exact ⟨.turn n (w.files.read q'.spec.sessionFile), by simp only [arrival?, hq']⟩
  | turn n content =>
    intro hblocked
    simp only [launch, hq', afterLook] at hblocked
    split at hblocked
    · unfold withoutFile at hblocked
      split at hblocked <;> cases hblocked
    · cases hblocked
    · split at hblocked <;> cases hblocked
  | interval n wake =>
    obtain ⟨m, before, look, check, -, -, -, -, -, -, rfl, hnow⟩ := h.along
    refine ⟨Nat.add_le_add_right hnow _, fun hdue hblocked => ?_⟩
    simp only [launch, hq'] at hblocked
    split at hblocked
    · cases hblocked
    · next hcancelled =>
      rw [hlater.purpose_eq] at hcancelled
      rw [if_pos (hdue.resolve_right hcancelled)] at hblocked
      exact lookAgain_ne_blocked _ _ hblocked
  | woken n =>
    intro hblocked
    simp only [launch, hq'] at hblocked
    exact lookAgain_ne_blocked _ _ hblocked

/-! ## Reasons -/

/-- The last look of a launch read a text, and the file was deleted behind it. -/
def ReadLast (q : ServerProcess) (own : List (World × Launching)) (v : World)
    (text : String) : Prop :=
  ∃ before look check n bytes,
    own = before ++ [(look, .file n), (check, .turn n (.ok bytes))] ∧
    look.files.read q.spec.sessionFile = .ok bytes ∧ Text.ofUtf8? bytes = some text ∧
    v = check.deleteSessionFile q.spec.sessionFile ∧
    ∀ bytes, v.files.read q.spec.sessionFile ≠ .ok bytes

/-- The reasons for an outcome of a launch, by its course and the world at its end. -/
structure Justified (p : Nat) (q : ServerProcess) (trace : List Incident) (v : World)
    (outcome : LaunchOutcome) : Prop where
  called_off : outcome = .ok none →
    v.isCancelled (q.purpose.token p) = true ∨ v.IsDisposed p
  decoded : ∀ {h}, outcome = .ok (some h) →
    ∃ text, ReadLast q (ownSteps trace) v text ∧ Handshake.ofText text = .ok h
  faulty : ∀ {fault}, outcome = .error (.handshake fault) →
    ∃ text, ReadLast q (ownSteps trace) v text ∧ Handshake.ofText text = .error fault
  /-- The last look found no file, and the exit had been reported when the launch checked for it. -/
  exited : ∀ {code}, outcome = .error (.exitedBeforeHandshake code) →
    ∃ before look check n e,
      ownSteps trace = before ++ [(look, .file n), (check, .turn n (.error .notFound))] ∧
      look.files.read q.spec.sessionFile = .error .notFound ∧ check.exitOf p = some e ∧
      e.code = code ∧ (q.exit = some e ∨ .news (.reported e) ∈ trace)
  timed_out : ∀ {after}, outcome = .error (.timedOut after) →
    after = q.plan.timeout ∧ Rounds p q q.plan.attempts (ownSteps trace)
  unlaunched : ∀ {exe e}, outcome = .error (.spawn exe e) →
    exe = q.exe.path ∧ ∃ u c, ownSteps trace = [(u, .answer c)] ∧
      (u.consoles[c]?.bind Console.answer) = some (.error e)
  unreadable : ∀ {path e}, outcome = .error (.sessionFile path e) →
    path = q.spec.sessionFile ∧ ∃ before look check n content kind,
      ownSteps trace = before ++ [(look, .file n), (check, .turn n content)] ∧
      look.files.read path = content ∧ e = SystemError.ofKind kind ∧
      (content = .error kind ∧ kind ≠ .notFound ∨
        ∃ bytes, content = .ok bytes ∧ Text.ofUtf8? bytes = none)

/-- A text that is read is a handshake, or a fault of one. -/
theorem handshakeOutcome_eq_ok {bytes : List UInt8} (h : handshakeOutcome bytes = .ok outcome) :
    ∃ text, Text.ofUtf8? bytes = some text ∧
      ((∃ h, Handshake.ofText text = .ok h ∧ outcome = .ok (some h)) ∨
        ∃ fault, Handshake.ofText text = .error fault ∧ outcome = .error (.handshake fault)) := by
  unfold handshakeOutcome at h
  split at h
  · cases h
  · next text htext =>
    split at h
    · next hs hhandshake =>
      cases h
      exact ⟨text, htext, .inl ⟨hs, hhandshake, rfl⟩⟩
    · next fault hfault =>
      cases h
      exact ⟨text, htext, .inr ⟨fault, hfault, rfl⟩⟩

/-- Only what is no text cannot be read. -/
theorem handshakeOutcome_eq_error {bytes : List UInt8} {kind : ErrorKind}
    (h : handshakeOutcome bytes = .error kind) : Text.ofUtf8? bytes = none := by
  unfold handshakeOutcome at h
  split at h
  · next hnone => exact hnone
  · split at h <;> cases h

/-- A handshake outcome is a handshake or a fault. -/
theorem handshakeOutcome_cases {bytes : List UInt8} (h : handshakeOutcome bytes = .ok outcome) :
    (∃ hs, outcome = .ok (some hs)) ∨ ∃ fault, outcome = .error (.handshake fault) := by
  obtain ⟨text, -, ⟨hs, -, ho⟩ | ⟨fault, -, ho⟩⟩ := handshakeOutcome_eq_ok h
  · exact .inl ⟨hs, ho⟩
  · exact .inr ⟨fault, ho⟩

/-- A launch that has read a handshake. -/
theorem Underway.readLast {bytes : List UInt8} (h : Underway p q trace w (.turn n (.ok bytes)))
    (hv : v = w.deleteSessionFile q.spec.sessionFile) {text : String}
    (htext : Text.ofUtf8? bytes = some text) :
    ReadLast q (ownSteps (trace ++ [.step w (.turn n (.ok bytes))])) v text := by
  obtain ⟨m, before, look, -, -, -, hown, hlook⟩ := h.along
  refine ⟨before, look, w, n, bytes, ?_, hlook, htext, hv, fun bytes => ?_⟩
  · rw [ownSteps_step, hown, List.append_assoc]
    rfl
  · rw [hv]
    exact read_deleteSessionFile

/-- A launch that has read a handshake, or something that is none. -/
theorem Underway.decoded (h : Underway p q trace w l) (hl : w.launch p l = .finished v outcome)
    (ho : (∃ hs, outcome = .ok (some hs)) ∨ ∃ fault, outcome = .error (.handshake fault)) :
    ∃ text, ReadLast q (ownSteps (trace ++ Incident.ofPiece w l)) v text ∧
      ((∃ hs, Handshake.ofText text = .ok hs ∧ outcome = .ok (some hs)) ∨
        ∃ fault, Handshake.ofText text = .error fault ∧ outcome = .error (.handshake fault)) := by
  obtain ⟨q', hq', hlater, -⟩ := h.process
  cases concludes_of_launch hq' hl with
  | decoded hbytes hv =>
    obtain ⟨text, htext, hread⟩ := handshakeOutcome_eq_ok hbytes
    exact ⟨text, h.readLast (hlater.spec_eq ▸ hv) htext, hread⟩
  | _ => rcases ho with ⟨_, ho⟩ | ⟨_, ho⟩ <;> cases ho

/-- A launch that was called off. -/
theorem Underway.calledOff (h : Underway p q trace w l)
    (hl : w.launch p l = .finished v (.ok none)) :
    v.isCancelled (q.purpose.token p) = true ∨ v.IsDisposed p := by
  obtain ⟨q', hq', hlater, -⟩ := h.process
  cases concludes_of_launch hq' hl with
  | calledOff hended => exact hlater.purpose_eq ▸ hended
  | decoded hbytes hv => rcases handshakeOutcome_cases hbytes with ⟨_, ho⟩ | ⟨_, ho⟩ <;> cases ho

/-- A launch whose console has ended. -/
theorem Underway.exited {code : Option Int} (h : Underway p q trace w l)
    (hl : w.launch p l = .finished v (.error (.exitedBeforeHandshake code))) :
    ∃ before look n e,
      ownSteps trace = before ++ [(look, .file n)] ∧ l = .turn n (.error .notFound) ∧
      look.files.read q.spec.sessionFile = .error .notFound ∧ w.exitOf p = some e ∧
      e.code = code ∧ (q.exit = some e ∨ .news (.reported e) ∈ trace) := by
  obtain ⟨q', hq', hlater, -, hknown⟩ := h.process
  cases concludes_of_launch hq' hl with
  | @exited n e hexit =>
    obtain ⟨m, before, look, -, -, -, hown, hlook⟩ := h.along
    refine ⟨before, look, n, e, hown, rfl, hlook, by rw [exitOf_of_process hq', hexit], rfl, ?_⟩
    exact (hknown e hexit).resolve_right fun hlate => hlate.1 trivial
  | decoded hbytes hv => rcases handshakeOutcome_cases hbytes with ⟨_, ho⟩ | ⟨_, ho⟩ <;> cases ho

/-- A launch whose time is over. -/
theorem Underway.timedOut {after : Duration} (h : Underway p q trace w l)
    (hl : w.launch p l = .finished v (.error (.timedOut after))) :
    after = q.plan.timeout ∧
      Rounds p q q.plan.attempts (ownSteps (trace ++ Incident.ofPiece w l)) := by
  obtain ⟨q', hq', hlater, -⟩ := h.process
  cases concludes_of_launch hq' hl with
  | hopeless hnone =>
    rw [hlater.plan_eq] at hnone ⊢
    have hown : ownSteps trace = [] := h.along
    rw [ownSteps_piece _ _ (fun k hk => by cases hk), hown, hnone]
    exact ⟨rfl, .adopted w _⟩
  | exhausted hwake hlast =>
    obtain ⟨m, before, look, check, rfl, hle, hrounds, hown, hlook, hcheck, rfl, -⟩ := h.along
    rw [hlater.plan_eq] at hlast ⊢
    have hattempts : q.plan.attempts = m + 1 := Nat.le_antisymm hlast hle
    have hround := hrounds.round hlook hcheck hwake
    rw [ownSteps_piece _ _ (fun k hk => by cases hk), hown, hattempts]
    exact ⟨rfl, by simpa using hround⟩
  | spent hlast =>
    obtain ⟨hle, hrounds⟩ := h.along
    rw [hlater.plan_eq] at hlast ⊢
    rw [ownSteps_woken, ← Nat.le_antisymm hle hlast]
    exact ⟨rfl, hrounds⟩
  | decoded hbytes hv => rcases handshakeOutcome_cases hbytes with ⟨_, ho⟩ | ⟨_, ho⟩ <;> cases ho

/-- A launch whose launcher has failed. -/
theorem Underway.unlaunched {exe : Path} {e : SystemError} (h : Underway p q trace w l)
    (hl : w.launch p l = .finished v (.error (.spawn exe e))) :
    exe = q.exe.path ∧ ∃ c, ownSteps trace = [] ∧ l = .answer c ∧
      (w.consoles[c]?.bind Console.answer) = some (.error e) := by
  obtain ⟨q', hq', hlater, -⟩ := h.process
  cases concludes_of_launch hq' hl with
  | @unlaunched c _ hanswer => exact ⟨by rw [hlater.exe_eq], c, h.along, rfl, hanswer⟩
  | decoded hbytes hv => rcases handshakeOutcome_cases hbytes with ⟨_, ho⟩ | ⟨_, ho⟩ <;> cases ho

/-- A launch that could not read its session file. -/
theorem Underway.unreadable {path : Path} {e : SystemError} (h : Underway p q trace w l)
    (hl : w.launch p l = .finished v (.error (.sessionFile path e))) :
    path = q.spec.sessionFile ∧ ∃ before look n content kind,
      ownSteps trace = before ++ [(look, .file n)] ∧ l = .turn n content ∧
      look.files.read path = content ∧ e = SystemError.ofKind kind ∧
      (content = .error kind ∧ kind ≠ .notFound ∨
        ∃ bytes, content = .ok bytes ∧ Text.ofUtf8? bytes = none) := by
  obtain ⟨q', hq', hlater, -⟩ := h.process
  cases concludes_of_launch hq' hl with
  | @unreadable n content kind hcontent =>
    obtain ⟨m, before, look, -, -, -, hown, hlook⟩ := h.along
    refine ⟨by rw [hlater.spec_eq], before, look, n, content, kind, hown, rfl, ?_, rfl, ?_⟩
    · rw [hlater.spec_eq]
      exact hlook
    · exact hcontent.imp id fun ⟨bytes, hbytes, hkind⟩ =>
        ⟨bytes, hbytes, handshakeOutcome_eq_error hkind⟩
  | decoded hbytes hv => rcases handshakeOutcome_cases hbytes with ⟨_, ho⟩ | ⟨_, ho⟩ <;> cases ho

/-- **The end of a launch is justified.** -/
theorem Underway.justifies (h : Underway p q trace w l) (hl : w.launch p l = .finished v outcome) :
    Justified p q (trace ++ Incident.ofPiece w l) v outcome := by
  have hlast {before : List (World × Launching)} {s : World × Launching}
      (hown : ownSteps trace = before ++ [s]) (hl : ∀ n, l ≠ .woken n) :
      ownSteps (trace ++ Incident.ofPiece w l) = before ++ [s, (w, l)] := by
    rw [ownSteps_piece _ _ hl, hown, List.append_assoc]
    rfl
  constructor
  · rintro rfl
    exact h.calledOff hl
  · rintro hs rfl
    obtain ⟨text, hread, ⟨_, htext, heq⟩ | ⟨_, -, heq⟩⟩ := h.decoded hl (.inl ⟨hs, rfl⟩)
    · cases heq
      exact ⟨text, hread, htext⟩
    · cases heq
  · rintro fault rfl
    obtain ⟨text, hread, ⟨_, -, heq⟩ | ⟨_, htext, heq⟩⟩ := h.decoded hl (.inr ⟨fault, rfl⟩)
    · cases heq
    · cases heq
      exact ⟨text, hread, htext⟩
  · rintro code rfl
    obtain ⟨before, look, n, e, hown, rfl, hlook, hexit, hcode, hreported⟩ := h.exited hl
    exact ⟨before, look, w, n, e, hlast hown (fun k hk => by cases hk), hlook, hexit, hcode,
      hreported.imp id (List.mem_append_left _)⟩
  · rintro after rfl
    exact h.timedOut hl
  · rintro exe e rfl
    obtain ⟨hexe, c, hown, rfl, hanswer⟩ := h.unlaunched hl
    refine ⟨hexe, w, c, ?_, hanswer⟩
    rw [ownSteps_piece _ _ (fun k hk => by cases hk), hown]
    rfl
  · rintro path e rfl
    obtain ⟨hpath, before, look, n, content, kind, hown, rfl, hlook, he, hcontent⟩ :=
      h.unreadable hl
    exact ⟨hpath, before, look, w, n, content, kind, hlast hown (fun k hk => by cases hk), hlook,
      he, hcontent⟩

/-- A launch that does not begin is justified. -/
theorem justified_of_beginLaunch (h : start.beginLaunch p = .finished v outcome) :
    Justified p q [] v outcome := by
  obtain ⟨rfl, hdisposed, rfl⟩ := beginLaunch_finished h
  constructor
  · exact fun _ => .inr hdisposed
  all_goals
    intros
    rename_i heq
    cases heq

/-- Bounds that hold all along a launch. -/
structure Bounded (p : Nat) (q : ServerProcess) (trace : List Incident) : Prop where
  looks_le : (looks (ownSteps trace)).length ≤ q.plan.attempts
  steps_le : (ownSteps trace).length ≤ 3 * q.plan.attempts + 1
  warned : WarnedOnce p q (ownSteps trace)
  /-- The warning's check, unless the number of looks is so large that it is cut. -/
  warnAt_eq : q.plan.attempts * 3 < Nat.pow 2 64 →
    q.plan.warnAt = max 1 (q.plan.attempts * 3 / 4)
  /-- What a look reads was written since the launch began. -/
  fresh : ∀ {before u n bytes}, before ++ [.step u (.file n)] <+: trace →
    u.files.read q.spec.sessionFile = .ok bytes → .news (.wrote bytes) ∈ before

/-- The warning is due at three quarters of the looks, if that number is not cut. -/
theorem warnAt_eq (plan : PollPlan) (h : plan.attempts * 3 < Nat.pow 2 64) :
    plan.warnAt = max 1 (plan.attempts * 3 / 4) := by
  rw [PollPlan.warnAt, PollPlan.word64, Nat.mod_eq_of_lt h]

/-- All along a launch its bounds hold. -/
theorem Underway.bounded (h : Underway p q trace w l) : Bounded p q trace where
  looks_le := h.along.bounded.1
  steps_le := Nat.le_trans (Nat.le_add_right _ _) h.along.bounded.2
  warned := h.along.warnedOnce
  warnAt_eq := warnAt_eq q.plan
  fresh := h.looked

/-- The bounds of a launch hold at its end, too. -/
theorem Underway.bounded_of_finished (h : Underway p q trace w l)
    (hl : w.launch p l = .finished v outcome) : Bounded p q (trace ++ Incident.ofPiece w l) := by
  obtain ⟨hlooks, hsteps⟩ := h.along.bounded
  by_cases hwoken : ∃ n, l = .woken n
  · obtain ⟨n, rfl⟩ := hwoken
    rw [Incident.ofPiece, List.append_nil]
    exact h.bounded
  · have hne (n : Nat) (heq : l = .woken n) : False := hwoken ⟨n, heq⟩
    have hlook : looks [(w, l)] = [] := by
      cases l with
      | file n => exact absurd rfl (ne_file_of_finished hl n)
      | _ => rfl
    refine ⟨?_, ?_, ?_, warnAt_eq q.plan, h.looked_piece⟩ <;> rw [ownSteps_piece _ _ hne]
    · rw [looks, List.filterMap_append, ← looks, ← looks, hlook, List.append_nil]
      exact hlooks
    · rw [List.length_append]
      rwa [Incident.ofPiece_eq w hne] at hsteps
    · exact h.along.warnedOnce.append (by rw [List.flatMap_singleton, slowReports_finished hl])

/-- **Every launch is bounded, never stuck and justified in its outcome.**  It makes no more looks
than planned; as long as it is not over, it can go on when the launcher has answered and its
interval is over; and its outcome has its reason in the course, whatever happens meanwhile. -/
theorem Course.justified (h : Course p start trace w stage) (hq : start.processes[p]? = some q) :
    Bounded p q trace ∧ (∀ l, stage = .waiting l → Awaits p q w l) ∧
      ∀ outcome, stage = .over outcome → Justified p q trace w outcome := by
  cases stage with
  | waiting l =>
    have hunderway := h.underway hq
    refine ⟨hunderway.bounded, fun l hl => ?_, fun outcome ho => by cases ho⟩
    cases hl
    exact hunderway.awaits
  | «over» outcome =>
    cases h with
    | refused hrefused =>
      refine ⟨⟨Nat.zero_le _, Nat.zero_le _, .inl rfl, warnAt_eq q.plan, fun hfront => ?_⟩,
        fun l hl => (by cases hl), fun o ho => ?_⟩
      · have hnil := List.prefix_nil.1 hfront
        simp at hnil
      · cases ho
        exact justified_of_beginLaunch hrefused
    | ends hcourse hpiece =>
      have hunderway := hcourse.underway hq
      refine ⟨hunderway.bounded_of_finished hpiece, fun l hl => (by cases hl), fun o ho => ?_⟩
      cases ho
      exact hunderway.justifies hpiece

end World

/-- The launch has a handshake. -/
def LaunchStage.isDecoded : LaunchStage → Bool
  | .over (.ok (some _)) => true
  | _ => false

/-- A complete handshake. -/
def Trial.handshake : List UInt8 := Text.utf8Bytes "[\"started\",null,null,null,null,1]"

/-- The second look of a launch finds its session file. -/
def Trial.answering : List Beat :=
  [.move (.answerLaunch 0 (.ok none)), .piece, .look, .piece, .move (.elapse 1000000000), .piece,
    .move (.writeFile ⟨"session.json"⟩ Trial.handshake), .look, .piece]

/-- The handshake of a launch was read from the file that was deleted then. -/
theorem World.Course.justified_trial :
    ∃ q r hs text, Trial.alone.processes[0]? = some q ∧
      Trial.alone.launchRun? 0 Trial.answering = some r ∧ r.stage = .over (.ok (some hs)) ∧
      Bounded 0 q r.trace ∧ ReadLast q (ownSteps r.trace) r.world text ∧
      Handshake.ofText text = .ok hs := by
  have hrun : ((Trial.alone.launchRun? 0 Trial.answering).any fun r =>
      LaunchStage.isDecoded r.stage) = true := by
    decide +kernel
  obtain ⟨r, hr, hdecoded⟩ := (Option.any_eq_true _ _).1 hrun
  obtain ⟨hs, hstage⟩ : ∃ hs, r.stage = .over (.ok (some hs)) := by
    unfold LaunchStage.isDecoded at hdecoded
    split at hdecoded
    · next hs heq => exact ⟨hs, heq⟩
    · cases hdecoded
  obtain ⟨hbounded, -, hjustified⟩ := Course.justified (course_of_launchRun? hr) rfl
  obtain ⟨text, hread, htext⟩ := (hjustified _ hstage).decoded rfl
  exact ⟨_, r, hs, text, rfl, hr, hstage, hbounded, hread, htext⟩

end SessionHost
