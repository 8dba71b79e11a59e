import SessionHost.Proofs.Launching.Meanwhile

/-!
# The course of a launch

A launch asks for a console and then searches for its session file in rounds: it looks, checks
whether the console has ended, and waits for an interval.  Its course lists the steps that it makes
itself, each with the world and the place in which it is made, and between them the news that reach
it.  Whatever happens meanwhile, the steps come in rounds.

Main definitions:

- `World.Course`: the course of a launch.
- `World.Resumes`, `World.Concludes`: what a piece of a launch can do.
- `World.Rounds`: rounds in vain.
- `World.Underway`: what holds in the course of a launch.

Main results:

- Theorems `World.resumes_of_launch`, `World.concludes_of_launch`: a piece of a launch goes on or
  ends in one of few ways.
- Theorem `World.Course.underway`: the steps of a launch that is not over are rounds in vain and a
  part of one more round.
-/

namespace SessionHost

/-- Something in the course of a launch. -/
inductive Incident where
  | news (n : News)
  /-- A step of the launch itself, made in a world and from a place. -/
  | step (w : World) (l : Launching)

/-- How far a launch is. -/
inductive LaunchStage where
  | waiting (l : Launching)
  | over (outcome : LaunchOutcome)

/-- What a piece adds to the course of a launch.  One that has been woken has made its step with
the end of the interval. -/
def Incident.ofPiece (w : World) : Launching → List Incident
  | .woken _ => []
  | l => [.step w l]

/-- Every piece is a step, but the one that has been woken. -/
theorem Incident.ofPiece_eq (w : World) {l : Launching} (h : ∀ n, l ≠ .woken n) :
    Incident.ofPiece w l = [.step w l] := by
  cases l with
  | woken n => exact absurd rfl (h n)
  | _ => rfl

namespace World

variable {p c n : Nat} {w v u x start : World} {q q' : ServerProcess} {l l' : Launching}
  {outcome : LaunchOutcome} {stage : LaunchStage} {trace : List Incident}
  {own : List (World × Launching)}

/-! ## Courses -/

/-- The course of a launch: it gets what it waits for and takes its pieces, and other things happen
meanwhile. -/
inductive Course (p : Nat) (start : World) : List Incident → World → LaunchStage → Prop where
  | begun {w : World} {l : Launching} (h : start.beginLaunch p = .going w l) :
      Course p start [] w (.waiting l)
  | refused {w : World} {outcome : LaunchOutcome} (h : start.beginLaunch p = .finished w outcome) :
      Course p start [] w (.over outcome)
  | meanwhile {trace : List Incident} {w v : World} {l : Launching} {n : Option News}
      (h : Course p start trace w (.waiting l)) (hv : Meanwhile p n w v) :
      Course p start (trace ++ (n.map Incident.news).toList) v (.waiting l)
  | look {trace : List Incident} {w : World} {l l' : Launching}
      (h : Course p start trace w (.waiting l)) (hl : w.arrival? p l = some l') :
      Course p start (trace ++ [.step w l]) w (.waiting l')
  | goes {trace : List Incident} {w v : World} {l l' : Launching}
      (h : Course p start trace w (.waiting l)) (hl : w.launch p l = .going v l') :
      Course p start (trace ++ Incident.ofPiece w l) v (.waiting l')
  | ends {trace : List Incident} {w v : World} {l : Launching} {outcome : LaunchOutcome}
      (h : Course p start trace w (.waiting l)) (hl : w.launch p l = .finished v outcome) :
      Course p start (trace ++ Incident.ofPiece w l) v (.over outcome)

/-- The steps of the launch itself. -/
def ownSteps (trace : List Incident) : List (World × Launching) :=
  trace.filterMap fun i => match i with
    | .step w l => some (w, l)
    | .news _ => none

/-- News are no steps of the launch. -/
theorem ownSteps_news (trace : List Incident) (n : Option News) :
    ownSteps (trace ++ (n.map Incident.news).toList) = ownSteps trace := by
  rw [ownSteps, List.filterMap_append]
  cases n with
  | none => exact List.append_nil _
  | some n => exact List.append_nil _

/-- A step is one more of the launch's own. -/
theorem ownSteps_step (trace : List Incident) (w : World) (l : Launching) :
    ownSteps (trace ++ [.step w l]) = ownSteps trace ++ [(w, l)] := by
  rw [ownSteps, List.filterMap_append]
  rfl

/-- A piece that was not woken is one more of the launch's own steps. -/
theorem ownSteps_piece (trace : List Incident) (w : World) (h : ∀ n, l ≠ .woken n) :
    ownSteps (trace ++ Incident.ofPiece w l) = ownSteps trace ++ [(w, l)] := by
  rw [Incident.ofPiece_eq w h, ownSteps_step]

/-- A piece that was woken has made its step before. -/
theorem ownSteps_woken (trace : List Incident) (w : World) (n : Nat) :
    ownSteps (trace ++ Incident.ofPiece w (.woken n)) = ownSteps trace :=
  congrArg ownSteps (List.append_nil trace)

/-! ## Pieces -/

/-- The launch of a process that can begin deletes the session file and waits for the launcher. -/
theorem beginLaunch_going (hq : w.processes[p]? = some q) (h : w.beginLaunch p = .going v l) :
    (∃ c, l = .answer c) ∧ ∀ bytes, v.files.read q.spec.sessionFile ≠ .ok bytes := by
  simp only [beginLaunch, hq] at h
  split at h
  · cases h
  · cases h
    exact ⟨⟨_, rfl⟩, fun bytes => read_deleteSessionFile⟩

/-- A launch that does not begin finds its process disposed of. -/
theorem beginLaunch_finished (h : w.beginLaunch p = .finished v outcome) :
    v = w ∧ w.IsDisposed p ∧ outcome = .ok none := by
  unfold beginLaunch at h
  split at h
  · cases h
  · next q hq =>
    split at h
    · next hdisposed =>
      cases h
      exact ⟨rfl, ⟨q, hq, hdisposed⟩, rfl⟩
    · cases h

/-- A look reads the session file, and an interval ends in time. -/
theorem arrival?_cases (hq : w.processes[p]? = some q) (h : w.arrival? p l = some l') :
    (∃ n, l = .file n ∧ l' = .turn n (w.files.read q.spec.sessionFile)) ∨
      ∃ n wake, l = .interval n wake ∧ wake ≤ w.now ∧ l' = .woken n := by
  cases l with
  | file n =>
    simp only [arrival?, hq] at h
    exact .inl ⟨n, rfl, (Option.some.inj h).symm⟩
  | interval n wake =>
    simp only [arrival?, hq] at h
    split at h
    · next hwake => exact .inr ⟨n, wake, rfl, hwake, (Option.some.inj h).symm⟩
    · cases h
  | answer c => cases h
  | turn n content => cases h
  | woken n => cases h

/-- How a piece of a launch goes on. -/
inductive Resumes (p : Nat) (q : ServerProcess) (w v : World) : Launching → Launching → Prop where
  /-- The launcher has handed out a console. -/
  | adopted {c : Nat} {number : Option Nat} (hd : q.disposed = false) (hn : 1 ≤ q.plan.attempts)
      (hv : v.processes[p]? = some (q.holding c number)) : Resumes p q w v (.answer c) (.file 1)
  /-- There is no file, and the console has not ended. -/
  | waits {n : Nat} (hexit : q.exit = none) : Resumes p q w v (.turn n (.error .notFound))
      (.interval n (w.now + q.plan.interval.nanos))
  | again {n wake : Nat} (hwake : wake ≤ w.now) (hn : n + 1 ≤ q.plan.attempts) :
      Resumes p q w v (.interval n wake) (.file (n + 1))
  | awake {n : Nat} (hn : n + 1 ≤ q.plan.attempts) : Resumes p q w v (.woken n) (.file (n + 1))

/-- How a launch comes to its end. -/
inductive Concludes (p : Nat) (q : ServerProcess) (w v : World) :
    Launching → LaunchOutcome → Prop where
  | unlaunched {c : Nat} {e : SystemError}
      (h : (w.consoles[c]?.bind Console.answer) = some (.error e)) :
      Concludes p q w v (.answer c) (.error (.spawn q.exe.path e))
  | calledOff {l : Launching} (h : v.isCancelled (q.purpose.token p) = true ∨ v.IsDisposed p) :
      Concludes p q w v l (.ok none)
  /-- The plan has no looks at all. -/
  | hopeless {c : Nat} (h : q.plan.attempts = 0) :
      Concludes p q w v (.answer c) (.error (.timedOut q.plan.timeout))
  | exhausted {n wake : Nat} (hwake : wake ≤ w.now) (h : q.plan.attempts ≤ n) :
      Concludes p q w v (.interval n wake) (.error (.timedOut q.plan.timeout))
  | spent {n : Nat} (h : q.plan.attempts ≤ n) :
      Concludes p q w v (.woken n) (.error (.timedOut q.plan.timeout))
  | unreadable {n : Nat} {content : Except ErrorKind (List UInt8)} {kind : ErrorKind}
      (h : content = .error kind ∧ kind ≠ .notFound ∨
        ∃ bytes, content = .ok bytes ∧ handshakeOutcome bytes = .error kind) :
      Concludes p q w v (.turn n content)
        (.error (.sessionFile q.spec.sessionFile (SystemError.ofKind kind)))
  | decoded {n : Nat} {bytes : List UInt8} {outcome : LaunchOutcome}
      (h : handshakeOutcome bytes = .ok outcome)
      (hv : v = w.deleteSessionFile q.spec.sessionFile) :
      Concludes p q w v (.turn n (.ok bytes)) outcome
  | exited {n : Nat} {e : ConsoleExit} (h : q.exit = some e) :
      Concludes p q w v (.turn n (.error .notFound)) (.error (.exitedBeforeHandshake e.code))

/-- A launch has been ended by calling it off, or by disposing of its process. -/
theorem launchEnded_iff :
    w.launchEnded p q = true ↔ w.isCancelled (q.purpose.token p) = true ∨ q.disposed = true := by
  simp [launchEnded]

/-- A launch looks again, or it has looked often enough or is called off. -/
theorem lookAgain_choices (hq : w.processes[p]? = some q) :
    (n ≤ q.plan.attempts ∧ w.lookAgain p q n = .going w (.file n)) ∨
      (q.plan.attempts < n ∧ w.lookAgain p q n = .finished w (.error (.timedOut q.plan.timeout))) ∨
      ((w.isCancelled (q.purpose.token p) = true ∨ w.IsDisposed p) ∧
        w.lookAgain p q n = .finished w (.ok none)) := by
  unfold lookAgain
  split
  · next hlate => exact .inr (.inl ⟨hlate, rfl⟩)
  · next hleft =>
    split
    · next hended =>
      exact .inr (.inr ⟨(launchEnded_iff.1 hended).imp id fun hd => ⟨q, hq, hd⟩, rfl⟩)
    · exact .inl ⟨Nat.le_of_not_lt hleft, rfl⟩

/-- A piece of a launch that waits for the launcher. -/
theorem launch_answer (hq : w.processes[p]? = some q) {piece : LaunchProgress}
    (h : w.launch p (.answer c) = piece) :
    piece.Gives (fun v l => Resumes p q w v (.answer c) l)
      fun v o => Concludes p q w v (.answer c) o := by
  subst h
  simp only [launch, hq]
  split
  · trivial
  · next e hanswer => exact .unlaunched hanswer
  · next number hanswer =>
    cases hd : q.disposed with
    | true =>
      rw [adoptConsole, if_pos hd]
      exact .calledOff (.inr ⟨q, by rw [processes_tell]; exact hq, hd⟩)
    | false =>
      obtain ⟨v, heq, hv, -⟩ := adoptConsole_looks hq hd c number
      rw [heq]
      rcases lookAgain_choices (n := 1) hv with ⟨hn, hlook⟩ | ⟨hn, hlook⟩ | ⟨hended, hlook⟩
      · rw [hlook]
        exact .adopted hd hn hv
      · rw [hlook]
        exact .hopeless (Nat.lt_one_iff.1 hn)
      · rw [hlook]
        exact .calledOff hended

/-- A piece of a launch that has looked at the session file. -/
theorem launch_turn (hq : w.processes[p]? = some q) (n : Nat)
    (content : Except ErrorKind (List UInt8)) :
    (w.launch p (.turn n content)).Gives (fun v l => Resumes p q w v (.turn n content) l)
      fun v o => Concludes p q w v (.turn n content) o := by
  simp only [launch, hq, afterLook]
  split
  · unfold withoutFile
    split
    · next exit hexit => exact .exited hexit
    · next hexit =>
      -- The warning of a slow start takes no time.
      have hnow : (if n = q.plan.warnAt then w.warnSlow p q n else w).now = w.now := by
        unfold warnSlow
        split
        · simp only []
          split <;> rfl
        · rfl
      simp only [Progress.Gives, hnow]
      exact .waits hexit
  · next kind hkind => exact .unreadable (.inl ⟨rfl, hkind⟩)
  · next bytes =>
    split
    · next kind hkind => exact .unreadable (.inr ⟨bytes, rfl, hkind⟩)
    · next o ho => exact .decoded ho rfl

/-- A piece of a launch that waits for its next look. -/
theorem launch_interval (hq : w.processes[p]? = some q) (n wake : Nat) :
    (w.launch p (.interval n wake)).Gives (fun v l => Resumes p q w v (.interval n wake) l)
      fun v o => Concludes p q w v (.interval n wake) o := by
  simp only [launch, hq]
  split
  · next hcancelled => exact .calledOff (.inl hcancelled)
  · split
    · next hwake =>
      rcases lookAgain_choices (n := n + 1) hq with ⟨hn, hlook⟩ | ⟨hn, hlook⟩ | ⟨hended, hlook⟩
      · rw [hlook]
        exact .again hwake hn
      · rw [hlook]
        exact .exhausted hwake (Nat.le_of_lt_succ hn)
      · rw [hlook]
        exact .calledOff hended
    · trivial

/-- A piece of a launch that has been woken. -/
theorem launch_woken (hq : w.processes[p]? = some q) (n : Nat) :
    (w.launch p (.woken n)).Gives (fun v l => Resumes p q w v (.woken n) l)
      fun v o => Concludes p q w v (.woken n) o := by
  simp only [launch, hq]
  rcases lookAgain_choices (n := n + 1) hq with ⟨hn, hlook⟩ | ⟨hn, hlook⟩ | ⟨hended, hlook⟩
  · rw [hlook]
    exact .awake hn
  · rw [hlook]
    exact .spent (Nat.le_of_lt_succ hn)
  · rw [hlook]
    exact .calledOff hended

/-- A launch that is to look takes no piece. -/
theorem launch_file (w : World) (p n : Nat) : w.launch p (.file n) = .blocked := by
  simp only [launch]
  split <;> rfl

/-- No launch ends while it waits for its look. -/
theorem ne_file_of_finished (h : w.launch p l = .finished v outcome) (n : Nat) : l ≠ .file n := by
  rintro rfl
  rw [launch_file] at h
  cases h

/-- **What a piece of a launch does.**  It goes on or ends in one of few ways. -/
theorem launch_gives (hq : w.processes[p]? = some q) (l : Launching) :
    (w.launch p l).Gives (fun v l' => Resumes p q w v l l') fun v o => Concludes p q w v l o := by
  cases l with
  | answer c => exact launch_answer hq rfl
  | file n =>
    rw [launch_file]
    trivial
  | turn n content => exact launch_turn hq n content
  | interval n wake => exact launch_interval hq n wake
  | woken n => exact launch_woken hq n

/-- A piece that goes on does so in one of the ways listed. -/
theorem resumes_of_launch (hq : w.processes[p]? = some q) (h : w.launch p l = .going v l') :
    Resumes p q w v l l' := by
  have hgives := launch_gives hq l
  rwa [h] at hgives

/-- A piece that ends a launch does so in one of the ways listed. -/
theorem concludes_of_launch (hq : w.processes[p]? = some q)
    (h : w.launch p l = .finished v outcome) : Concludes p q w v l outcome := by
  have hgives := launch_gives hq l
  rwa [h] at hgives

/-! ## Rounds -/

/-- The process is there, and its exit has not come. -/
def Running (p : Nat) (q : ServerProcess) (w : World) : Prop :=
  ∃ q', w.processes[p]? = some q' ∧ q.Later q' ∧ q'.exit = none

/-- The steps of rounds in vain, behind the answer of the launcher: a look that finds no file, a
check that finds the console running, and a wait for a whole interval. -/
inductive Rounds (p : Nat) (q : ServerProcess) : Nat → List (World × Launching) → Prop where
  | adopted (u : World) (c : Nat) : Rounds p q 0 [(u, .answer c)]
  | round {n : Nat} {own : List (World × Launching)} {look check wake : World}
      (h : Rounds p q n own) (hlook : look.files.read q.spec.sessionFile = .error .notFound)
      (hcheck : Running p q check) (hwake : check.now + q.plan.interval.nanos ≤ wake.now) :
      Rounds p q (n + 1) (own ++ [(look, .file (n + 1)),
        (check, .turn (n + 1) (.error .notFound)),
        (wake, .interval (n + 1) (check.now + q.plan.interval.nanos))])

/-- The steps of a launch that waits in a world and at a place: rounds in vain, and what it has
done of the next one. -/
def Along (p : Nat) (q : ServerProcess) (w : World) (own : List (World × Launching)) :
    Launching → Prop
  | .answer _ => own = []
  | .file n => ∃ m, n = m + 1 ∧ n ≤ q.plan.attempts ∧ Rounds p q m own
  | .turn n content => ∃ m before look, n = m + 1 ∧ n ≤ q.plan.attempts ∧ Rounds p q m before ∧
      own = before ++ [(look, .file n)] ∧ look.files.read q.spec.sessionFile = content
  | .interval n wake => ∃ m before look check, n = m + 1 ∧ n ≤ q.plan.attempts ∧
      Rounds p q m before ∧
      own = before ++ [(look, .file n), (check, .turn n (.error .notFound))] ∧
      look.files.read q.spec.sessionFile = .error .notFound ∧ Running p q check ∧
      wake = check.now + q.plan.interval.nanos ∧ check.now ≤ w.now
  | .woken n => n ≤ q.plan.attempts ∧ Rounds p q n own

/-- What holds in the course of a launch that is not over. -/
structure Underway (p : Nat) (q : ServerProcess) (trace : List Incident) (w : World)
    (l : Launching) : Prop where
  along : Along p q w (ownSteps trace) l
  process : ∃ q', w.processes[p]? = some q' ∧ q.Later q' ∧
    (l.Looks → q'.console.isSome = true ∨ q'.disposed = true) ∧
    -- An exit that nobody has reported is that of a process without a console.
    ∀ e, q'.exit = some e →
      (q.exit = some e ∨ .news (.reported e) ∈ trace) ∨ (¬l.Looks ∧ q'.disposed = true)
  written : ∀ {bytes}, w.files.read q.spec.sessionFile = .ok bytes →
    .news (.wrote bytes) ∈ trace
  looked : ∀ {before u n bytes}, before ++ [.step u (.file n)] <+: trace →
    u.files.read q.spec.sessionFile = .ok bytes → .news (.wrote bytes) ∈ before

/-- Rounds stay what they are as time passes. -/
theorem Along.later (h : Along p q w own l) (hnow : w.now ≤ v.now) : Along p q v own l := by
  cases l with
  | interval n wake =>
    obtain ⟨m, before, look, check, hn, hle, hrounds, hown, hlook, hcheck, hwake, hpast⟩ := h
    exact ⟨m, before, look, check, hn, hle, hrounds, hown, hlook, hcheck, hwake,
      Nat.le_trans hpast hnow⟩
  | answer c => exact h
  | file n => exact h
  | turn n content => exact h
  | woken n => exact h

/-- A launch begins without any steps. -/
theorem Underway.begun (hq : start.processes[p]? = some q) (h : start.beginLaunch p = .going w l) :
    Underway p q [] w l := by
  obtain ⟨⟨c, rfl⟩, hread⟩ := beginLaunch_going hq h
  have hmeanwhile := start.beginLaunch_meanwhile (p := p) (n := none) p
  rw [h] at hmeanwhile
  obtain ⟨q', hq', hlater, hexit⟩ := hmeanwhile.process hq
  refine ⟨rfl, ⟨q', hq', hlater, fun hlooks => hlooks.elim, fun e he => ?_⟩,
    fun hr => absurd hr (hread _), fun hfront => ?_⟩
  · rcases hexit e he with hold | hnews | ⟨-, -, hdisposed⟩
    · exact .inl (.inl hold)
    · cases hnews
    · exact .inr ⟨id, hdisposed⟩
  · have hnil := List.prefix_nil.1 hfront
    simp at hnil

/-- What happens meanwhile, with its news. -/
theorem Underway.meanwhile {n : Option News} (h : Underway p q trace w l)
    (hv : Meanwhile p n w v) :
    Underway p q (trace ++ (n.map Incident.news).toList) v l := by
  obtain ⟨q', hq', hlater, hheld, hknown⟩ := h.process
  obtain ⟨q'', hq'', hlater', hexit⟩ := hv.process hq'
  refine ⟨?_, ⟨q'', hq'', hlater.trans hlater', fun hlooks => ?_, fun e he => ?_⟩, fun hr => ?_,
    fun hfront hr => ?_⟩
  · rw [ownSteps_news]
    exact h.along.later hv.now_le
  · rcases hheld hlooks with hconsole | hdisposed
    · exact hlater'.console hconsole
    · exact .inr (hlater'.disposed hdisposed)
  · rcases hexit e he with hold | rfl | ⟨hconsole, hstands, hdisposed⟩
    · rcases hknown e hold with (hfirst | hnews) | ⟨hlooks, hdisposed⟩
      · exact .inl (.inl hfirst)
      · exact .inl (.inr (List.mem_append_left _ hnews))
      · exact .inr ⟨hlooks, hlater'.disposed hdisposed⟩
    · exact .inl (.inr (List.mem_append_right _ (by simp)))
    · refine .inr ⟨fun hlooks => ?_, hdisposed⟩
      -- A launch that looks has a console, unless its process is disposed of already.
      rcases hheld hlooks with hsome | hgone
      · rw [hconsole] at hsome
        cases hsome
      · rw [hstands] at hgone
        cases hgone
  · rw [← hlater.spec_eq] at hr
    rcases hv.read hq' hr with hread | rfl
    · rw [hlater.spec_eq] at hread
      exact List.mem_append_left _ (h.written hread)
    · exact List.mem_append_right _ (by simp)
  · cases n with
    | none => exact h.looked (by simpa using hfront) hr
    | some n =>
      rcases List.prefix_concat_iff.1 hfront with heq | hfront
      · cases (List.append_inj' heq rfl).2
      · exact h.looked hfront hr

/-- A step of the launch itself is a look at a file whose bytes have been written, or no look. -/
theorem Underway.looked_step (h : Underway p q trace w l) {before : List Incident} {u : World}
    {n : Nat} {bytes : List UInt8} (hfront : before ++ [.step u (.file n)] <+: trace ++ [.step w l])
    (hr : u.files.read q.spec.sessionFile = .ok bytes) : .news (.wrote bytes) ∈ before := by
  rcases List.prefix_concat_iff.1 hfront with heq | hfront
  · obtain ⟨rfl, hstep⟩ := List.append_inj' heq rfl
    cases hstep
    exact h.written hr
  · exact h.looked hfront hr

/-- So is a piece. -/
theorem Underway.looked_piece (h : Underway p q trace w l) {before : List Incident} {u : World}
    {n : Nat} {bytes : List UInt8}
    (hfront : before ++ [.step u (.file n)] <+: trace ++ Incident.ofPiece w l)
    (hr : u.files.read q.spec.sessionFile = .ok bytes) : .news (.wrote bytes) ∈ before := by
  cases l with
  | woken k => exact h.looked (List.append_nil trace ▸ hfront) hr
  | _ => exact h.looked_step hfront hr

/-- What a launch waits for is a look, or the end of an interval, and is one step more. -/
theorem Along.look (h : Along p q w own l) (hq' : w.processes[p]? = some q') (hlater : q.Later q')
    (hl : w.arrival? p l = some l') : l.Looks ∧ l'.Looks ∧ Along p q w (own ++ [(w, l)]) l' := by
  rcases arrival?_cases hq' hl with ⟨n, rfl, rfl⟩ | ⟨n, wake, rfl, hwake, rfl⟩
  · obtain ⟨m, hn, hle, hrounds⟩ := h
    rw [hlater.spec_eq]
    exact ⟨trivial, trivial, m, own, w, hn, hle, hrounds, rfl, rfl⟩
  · obtain ⟨m, before, look, check, rfl, hle, hrounds, rfl, hlook, hcheck, rfl, -⟩ := h
    have hround := hrounds.round hlook hcheck hwake
    exact ⟨trivial, trivial, hle, by simpa using hround⟩

/-- A launch that gets what it waits for is under way. -/
theorem Underway.look (h : Underway p q trace w l) (hl : w.arrival? p l = some l') :
    Underway p q (trace ++ [.step w l]) w l' := by
  obtain ⟨q', hq', hlater, hheld, hknown⟩ := h.process
  obtain ⟨hbefore, -, halong⟩ := h.along.look hq' hlater hl
  refine ⟨by rwa [ownSteps_step], ⟨q', hq', hlater, fun _ => hheld hbefore, fun e he => ?_⟩,
    fun hr => List.mem_append_left _ (h.written hr), h.looked_step⟩
  rcases hknown e he with (hfirst | hnews) | ⟨hlooks, -⟩
  · exact .inl (.inl hfirst)
  · exact .inl (.inr (List.mem_append_left _ hnews))
  · exact absurd hbefore hlooks

/-- The rounds of a launch that goes on by a piece. -/
theorem Along.goes (h : Along p q w (ownSteps trace) l) (hq' : w.processes[p]? = some q')
    (hlater : q.Later q') (hl : Resumes p q' w v l l') (hnow : w.now ≤ v.now) :
    Along p q v (ownSteps (trace ++ Incident.ofPiece w l)) l' := by
  cases hl with
  | adopted hd hn hv =>
    have hown : ownSteps trace = [] := h
    rw [ownSteps_piece _ _ (fun k hk => by cases hk), hown]
    exact ⟨0, rfl, hlater.plan_eq ▸ hn, .adopted w _⟩
  | waits hexit =>
    obtain ⟨m, before, look, hn, hle, hrounds, hown, hlook⟩ := h
    rw [ownSteps_piece _ _ (fun k hk => by cases hk), hown]
    exact ⟨m, before, look, w, hn, hle, hrounds, by simp, hlook, ⟨q', hq', hlater, hexit⟩,
      by rw [hlater.plan_eq], hnow⟩
  | again hwake hn =>
    obtain ⟨m, before, look, check, rfl, hle, hrounds, hown, hlook, hcheck, rfl, -⟩ := h
    rw [ownSteps_piece _ _ (fun k hk => by cases hk), hown]
    refine ⟨m + 1, rfl, hlater.plan_eq ▸ hn, ?_⟩
    have hround := Rounds.round hrounds hlook hcheck hwake
    simpa using hround
  | awake hn =>
    obtain ⟨hle, hrounds⟩ := h
    rw [ownSteps_woken]
    exact ⟨_, rfl, hlater.plan_eq ▸ hn, hrounds⟩

/-- A launch that goes on is under way. -/
theorem Underway.goes (h : Underway p q trace w l) (hl : w.launch p l = .going v l') :
    Underway p q (trace ++ Incident.ofPiece w l) v l' := by
  obtain ⟨q', hq', hlater, -⟩ := h.process
  have hresumes := resumes_of_launch hq' hl
  have hmeanwhile := w.launch_meanwhile (p := p) (n := none) p l
  rw [hl] at hmeanwhile
  have hv : Underway p q trace v l := by simpa using h.meanwhile hmeanwhile
  obtain ⟨q'', hq'', hlater'', hheld, hknown⟩ := hv.process
  have hknown' : ∀ e, q''.exit = some e → (l.Looks ∨ q''.disposed = false) →
      q.exit = some e ∨ .news (.reported e) ∈ trace ++ Incident.ofPiece w l := by
    intro e he hcase
    rcases hknown e he with hreported | ⟨hlooks, hdisposed⟩
    · exact hreported.imp id (List.mem_append_left _)
    · rcases hcase with hlooks' | hstands
      · exact absurd hlooks' hlooks
      · rw [hstands] at hdisposed
        cases hdisposed
  refine ⟨?_, ⟨q'', hq'', hlater'', ?_⟩, fun hr => List.mem_append_left _ (hv.written hr),
    h.looked_piece⟩
  · exact h.along.goes hq' hlater hresumes hmeanwhile.now_le
  · cases hresumes with
    | adopted hd hn hheld' =>
      obtain rfl := Option.some.inj (hq''.symm.trans hheld')
      exact ⟨fun _ => .inl rfl, fun e he => .inl (hknown' e he (.inr hd))⟩
    | waits hexit => exact ⟨fun _ => hheld trivial, fun e he => .inl (hknown' e he (.inl trivial))⟩
    | again _ hn | awake hn =>
      exact ⟨fun _ => hheld trivial, fun e he => .inl (hknown' e he (.inl trivial))⟩

/-- **A launch that is not over is in its rounds.** -/
theorem Course.underway (h : Course p start trace w (.waiting l))
    (hq : start.processes[p]? = some q) : Underway p q trace w l := by
  generalize hstage : LaunchStage.waiting l = stage at h
  induction h generalizing l with
  | begun hbegin =>
    cases hstage
    exact .begun hq hbegin
  | refused hrefuse => cases hstage
  | meanwhile hcourse hv ih =>
    cases hstage
    exact (ih rfl).meanwhile hv
  | look hcourse hlook ih =>
    cases hstage
    exact (ih rfl).look hlook
  | goes hcourse hpiece ih =>
    cases hstage
    exact (ih rfl).goes hpiece
  | ends hcourse hpiece ih => cases hstage

end World

end SessionHost
