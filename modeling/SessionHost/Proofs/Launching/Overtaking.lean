import SessionHost.Proofs.Launching.Outcomes

/-!
# Handshakes that come too late

A launch looks for its session file first and checks for the exit of its console behind the look.
So a handshake counts only if a look finds it: a server that writes it and ends between a look and
the check behind it is taken for one that never wrote anything, and so is one whose handshake
somebody else takes away before the next look.  In all other orders the handshake comes first.

Main definitions:

- `World.WrittenOnce`: a handshake is all that is ever written to the session file.
- `World.Sighted`: a look finds the handshake.
- `World.Overtaken`: the next step behind a writing is a check that finds the exit.

Main results:

- Theorem `World.Course.handshake_lost_iff`: a launch with a complete handshake ends with the exit
  of its console exactly if no look finds the handshake, and else with what it says; if the
  handshake is not taken away, it is lost exactly if the exit overtakes it.
-/

namespace SessionHost

namespace World

variable {p n : Nat} {w v u x start : World} {q : ServerProcess} {l : Launching}
  {outcome result : LaunchOutcome} {trace before after : List Incident}
  {own : List (World × Launching)} {bytes : List UInt8}

/-- No look before a writing finds a file, and those behind it find what was written, or nothing if
it was taken away. -/
structure WrittenOnce (q : ServerProcess) (bytes : List UInt8) (before after : List Incident) :
    Prop where
  missing : ∀ {u n}, .step u (.file n) ∈ before →
    u.files.read q.spec.sessionFile = .error .notFound
  alone : ∀ {u n}, .step u (.file n) ∈ after →
    u.files.read q.spec.sessionFile = .ok bytes ∨
      u.files.read q.spec.sessionFile = .error .notFound

/-- A look finds the handshake. -/
def Sighted (q : ServerProcess) (bytes : List UInt8) (after : List Incident) : Prop :=
  ∃ u n, .step u (.file n) ∈ after ∧ u.files.read q.spec.sessionFile = .ok bytes

/-- The next step of a launch is a check behind a look in vain, and the exit has come. -/
def Overtaken (p : Nat) (after : List Incident) : Prop :=
  ∃ mid u n rest e, after = mid ++ .step u (.turn n (.error .notFound)) :: rest ∧
    ownSteps mid = [] ∧ u.exitOf p = some e

/-- The launch's own steps are those in its course. -/
theorem mem_ownSteps {s : World × Launching} : s ∈ ownSteps trace ↔ .step s.1 s.2 ∈ trace := by
  rw [ownSteps, List.mem_filterMap]
  constructor
  · rintro ⟨i, hi, hs⟩
    cases i with
    | news n => cases hs
    | step u l =>
      cases hs
      exact hi
  · intro hs
    exact ⟨_, hs, rfl⟩

/-- The steps of two stretches stand one behind the other. -/
theorem ownSteps_append (before after : List Incident) :
    ownSteps (before ++ after) = ownSteps before ++ ownSteps after :=
  List.filterMap_append

/-- The steps of rounds in vain: looks that find no file, checks that find the console running, and
waits. -/
theorem Rounds.step_cases (h : Rounds p q n own) {s : World × Launching} (hs : s ∈ own) :
    (∃ u c, s = (u, .answer c)) ∨
      (∃ u m, s = (u, .file m) ∧ u.files.read q.spec.sessionFile = .error .notFound) ∨
      (∃ u m, s = (u, .turn m (.error .notFound)) ∧ Running p q u) ∨
      ∃ u m wake, s = (u, .interval m wake) := by
  induction h with
  | adopted u c => exact .inl ⟨u, c, List.mem_singleton.1 hs⟩
  | @round n own look check wake _ hlook hcheck hwake ih =>
    rcases List.mem_append.1 hs with hs | hs
    · exact ih hs
    · simp only [List.mem_cons, List.not_mem_nil, or_false] at hs
      rcases hs with rfl | rfl | rfl
      · exact .inr (.inl ⟨look, _, rfl, hlook⟩)
      · exact .inr (.inr (.inl ⟨check, _, rfl, hcheck⟩))
      · exact .inr (.inr (.inr ⟨wake, _, _, rfl⟩))

/-- Looks of rounds in vain find no file. -/
theorem Rounds.look_eq (h : Rounds p q n own) {m : Nat} (hx : (x, .file m) ∈ own) :
    x.files.read q.spec.sessionFile = .error .notFound := by
  rcases h.step_cases hx with ⟨u, c, hs⟩ | ⟨u, k, hs, hread⟩ | ⟨u, k, hs, -⟩ | ⟨u, k, wake, hs⟩
  · cases hs
  · cases hs
    exact hread
  · cases hs
  · cases hs

/-- Checks of rounds in vain find the process running. -/
theorem Rounds.running (h : Rounds p q n own) {m : Nat} {content : Except ErrorKind (List UInt8)}
    (hx : (x, .turn m content) ∈ own) : Running p q x := by
  rcases h.step_cases hx with ⟨u, c, hs⟩ | ⟨u, k, hs, -⟩ | ⟨u, k, hs, hrun⟩ | ⟨u, k, wake, hs⟩
  · cases hs
  · cases hs
  · cases hs
    exact hrun
  · cases hs

theorem Running.exitOf_eq_none (h : Running p q x) : x.exitOf p = none := by
  obtain ⟨q', hq', -, hexit⟩ := h
  rw [exitOf_of_process hq', hexit]

/-- A launch that is not over has found its console running at every check. -/
theorem Underway.running (h : Underway p q trace w l) {m : Nat}
    {content : Except ErrorKind (List UInt8)} (hx : .step x (.turn m content) ∈ trace) :
    x.exitOf p = none := by
  have hown : (x, .turn m content) ∈ ownSteps trace := mem_ownSteps.2 hx
  have halong := h.along
  cases l with
  | answer c =>
    rw [show ownSteps trace = [] from halong] at hown
    cases hown
  | file n =>
    obtain ⟨k, -, -, hrounds⟩ := halong
    exact (hrounds.running hown).exitOf_eq_none
  | turn n content =>
    obtain ⟨k, before, look, -, -, hrounds, heq, -⟩ := halong
    rw [heq] at hown
    rcases List.mem_append.1 hown with hx | hx
    · exact (hrounds.running hx).exitOf_eq_none
    · simp at hx
  | interval n wake =>
    obtain ⟨k, before, look, check, -, -, hrounds, heq, -, hcheck, -⟩ := halong
    rw [heq] at hown
    rcases List.mem_append.1 hown with hx | hx
    · exact (hrounds.running hx).exitOf_eq_none
    · simp only [List.mem_cons, Prod.mk.injEq, reduceCtorEq, and_false, List.not_mem_nil, or_false,
        false_or] at hx
      exact hx.1 ▸ hcheck.exitOf_eq_none
  | woken n =>
    obtain ⟨-, hrounds⟩ := halong
    exact (hrounds.running hown).exitOf_eq_none

/-- The last look of a launch that is about to check: what it found, and whether it was made before
the handshake was written or behind that. -/
theorem Underway.last_look {content : Except ErrorKind (List UInt8)}
    (h : Underway p q (before ++ .news (.wrote bytes) :: after) w (.turn n content)) :
    ∃ look, look.files.read q.spec.sessionFile = content ∧
      (.step look (.file n) ∈ before ∧ ownSteps after = [] ∨ .step look (.file n) ∈ after) := by
  obtain ⟨m, prior, look, -, -, -, hown, hcontent⟩ := h.along
  have hsplit : ownSteps before ++ ownSteps after = prior ++ [(look, .file n)] := by
    rw [← hown, ownSteps_append]
    rfl
  refine ⟨look, hcontent, ?_⟩
  rcases List.eq_nil_or_concat' (ownSteps after) with hnone | ⟨others, last, hlast⟩
  · rw [hnone, List.append_nil] at hsplit
    have hlook : (look, .file n) ∈ ownSteps before := by
      rw [hsplit]
      simp
    exact .inl ⟨mem_ownSteps.1 hlook, hnone⟩
  · rw [hlast, ← List.append_assoc] at hsplit
    obtain rfl : last = (look, .file n) := (List.cons.inj (List.append_inj_right' hsplit rfl)).1
    have hlook : (look, .file n) ∈ ownSteps after := by
      rw [hlast]
      simp
    exact .inr (mem_ownSteps.1 hlook)

/-- A launch that has found a handshake has found it with its last look. -/
theorem Underway.not_sighted
    (h : Underway p q (before ++ .news (.wrote bytes) :: after) w (.turn n (.error .notFound))) :
    ¬Sighted q bytes after := by
  rintro ⟨look, m, hmem, hread⟩
  have hown : (look, .file m) ∈ ownSteps (before ++ .news (.wrote bytes) :: after) :=
    mem_ownSteps.2 (List.mem_append_right before (List.mem_cons_of_mem _ hmem))
  obtain ⟨k, prior, last, -, -, hrounds, heq, hlast⟩ := h.along
  have hvain : look.files.read q.spec.sessionFile = .error .notFound := by
    rw [heq] at hown
    rcases List.mem_append.1 hown with hearlier | hnow
    · exact hrounds.look_eq hearlier
    · cases List.mem_singleton.1 hnow
      exact hlast
  rw [hvain] at hread
  cases hread

/-- The end of a launch whose handshake was written meanwhile: a last look in vain and the exit, or
what the handshake says. -/
theorem Underway.lost_or_found
    (h : Underway p q (before ++ .news (.wrote bytes) :: after) w l)
    (hl : w.launch p l = .finished v outcome) (hfile : WrittenOnce q bytes before after)
    (hresult : handshakeOutcome bytes = .ok result)
    (hlaunched : ∃ u c, .step u (.answer c) ∈ before)
    (hlive : ¬(v.isCancelled (q.purpose.token p) = true ∨ v.IsDisposed p))
    (htime : ∀ t, outcome ≠ .error (.timedOut t)) :
    (∃ n e, l = .turn n (.error .notFound) ∧ w.exitOf p = some e ∧
        outcome = .error (.exitedBeforeHandshake e.code)) ∨
      outcome = result ∧ Sighted q bytes after ∧ ∀ n, l ≠ .turn n (.error .notFound) := by
  obtain ⟨q', hq', hlater, -⟩ := h.process
  have hconcludes := concludes_of_launch hq' hl
  rw [← hlater.purpose_eq] at hlive
  cases hconcludes with
  | calledOff hended => exact absurd hended hlive
  | exhausted _ hn | spent hn | hopeless hn => exact absurd rfl (htime _)
  | unlaunched hanswer =>
    -- A launch that waits for its launcher has made no step of its own.
    obtain ⟨u, c, hc⟩ := hlaunched
    have hown : (u, .answer c) ∈ ownSteps (before ++ .news (.wrote bytes) :: after) :=
      mem_ownSteps.2 (List.mem_append_left _ hc)
    rw [show ownSteps _ = [] from h.along] at hown
    cases hown
  | unreadable hkind =>
    -- The looks find the handshake or nothing, and the handshake can be read.
    obtain ⟨look, hcontent, ⟨hbefore, -⟩ | hafter⟩ := h.last_look
    · rw [hfile.missing hbefore] at hcontent
      rcases hkind with ⟨rfl, hother⟩ | ⟨_, rfl, -⟩ <;> cases hcontent
      exact absurd rfl hother
    · rcases hfile.alone hafter with hread | hread
      · rw [hread] at hcontent
        rcases hkind with ⟨rfl, -⟩ | ⟨_, rfl, hkind⟩ <;> cases hcontent
        rw [hresult] at hkind
        cases hkind
      · rw [hread] at hcontent
        rcases hkind with ⟨rfl, hother⟩ | ⟨_, rfl, -⟩ <;> cases hcontent
        exact absurd rfl hother
  | decoded hread hv =>
    obtain ⟨look, hcontent, ⟨hbefore, -⟩ | hafter⟩ := h.last_look
    · rw [hfile.missing hbefore] at hcontent
      cases hcontent
    · rcases hfile.alone hafter with hfound | hgone
      · rw [hfound] at hcontent
        cases hcontent
        rw [hresult] at hread
        cases hread
        exact .inr ⟨rfl, ⟨look, _, hafter, hfound⟩, fun n heq => by cases heq⟩
      · rw [hgone] at hcontent
        cases hcontent
  | @exited n e hexit => exact .inl ⟨n, e, rfl, by rw [exitOf_of_process hq', hexit], rfl⟩

/-- A launch that has been woken ends called off or out of time. -/
theorem Underway.not_woken (h : Underway p q trace w l) (hl : w.launch p l = .finished v outcome)
    (hlive : ¬(v.isCancelled (q.purpose.token p) = true ∨ v.IsDisposed p))
    (htime : ∀ t, outcome ≠ .error (.timedOut t)) (n : Nat) : l ≠ .woken n := by
  rintro rfl
  obtain ⟨q', hq', hlater, -⟩ := h.process
  cases concludes_of_launch hq' hl with
  | calledOff hended => exact hlive (hlater.purpose_eq ▸ hended)
  | spent hn => exact htime _ rfl

/-- A check that finds the exit is the last step of a launch. -/
theorem Underway.not_overtaken (h : Underway p q (before ++ .news (.wrote bytes) :: after) w l)
    (hl : ∀ n, l ≠ .turn n (.error .notFound)) : ¬Overtaken p (after ++ [.step w l]) := by
  rintro ⟨mid, u, n, rest, e, heq, -, hexit⟩
  have hcheck : .step u (.turn n (.error .notFound)) ∈ after ++ [.step w l] := by
    rw [heq]
    simp
  rcases List.mem_append.1 hcheck with hearlier | hlast
  · have hrunning := h.running (List.mem_append_right before (List.mem_cons_of_mem _ hearlier))
    rw [hrunning] at hexit
    cases hexit
  · cases List.mem_singleton.1 hlast
    exact hl n rfl

/-- A handshake that is lost although it stays is overtaken. -/
theorem Underway.overtaken {e : ConsoleExit}
    (h : Underway p q (before ++ .news (.wrote bytes) :: after) w (.turn n (.error .notFound)))
    (hexit : w.exitOf p = some e) (hstays : ∀ {u m}, .step u (.file m) ∈ after →
      u.files.read q.spec.sessionFile = .ok bytes) :
    Overtaken p (after ++ [.step w (.turn n (.error .notFound))]) := by
  obtain ⟨look, hcontent, ⟨-, hnone⟩ | hafter⟩ := h.last_look
  · exact ⟨after, w, n, [], e, rfl, hnone, hexit⟩
  · rw [hstays hafter] at hcontent
    cases hcontent

/-- A step that is no look does not matter to what has been seen. -/
theorem sighted_concat (hl : ∀ n, l ≠ .file n) :
    Sighted q bytes (after ++ [.step w l]) ↔ Sighted q bytes after := by
  constructor
  · rintro ⟨u, n, hmem, hread⟩
    rcases List.mem_append.1 hmem with hmem | hmem
    · exact ⟨u, n, hmem, hread⟩
    · cases List.mem_singleton.1 hmem
      exact absurd rfl (hl n)
  · rintro ⟨u, n, hmem, hread⟩
    exact ⟨u, n, List.mem_append_left _ hmem, hread⟩

/-- **A handshake is lost exactly if no look finds it.**  A launch has a console, a complete
handshake is written once, and the launch is neither called off nor out of time.  It ends with the
exit of its console exactly if no look finds the handshake, and else with what the handshake says.
If the handshake stays until the launch is over, that happens exactly if the exit overtakes it:
the next step behind the writing is a check, behind a look in vain, and the exit has come. -/
theorem Course.handshake_lost_iff (h : Course p start trace w (.over outcome))
    (hq : start.processes[p]? = some q) (htrace : trace = before ++ .news (.wrote bytes) :: after)
    (hfile : WrittenOnce q bytes before after) (hresult : handshakeOutcome bytes = .ok result)
    (hlaunched : ∃ u c, .step u (.answer c) ∈ before)
    (hlive : ¬(w.isCancelled (q.purpose.token p) = true ∨ w.IsDisposed p))
    (htime : ∀ t, outcome ≠ .error (.timedOut t)) :
    ((∃ code, outcome = .error (.exitedBeforeHandshake code)) ↔ ¬Sighted q bytes after) ∧
      (Sighted q bytes after → outcome = result) ∧
      ((∀ {u n}, .step u (.file n) ∈ after → u.files.read q.spec.sessionFile = .ok bytes) →
        ((∃ code, outcome = .error (.exitedBeforeHandshake code)) ↔ Overtaken p after)) := by
  cases h with
  | refused hrefused => simp at htrace
  | @ends prior u _ l _ hcourse hpiece =>
    rw [Incident.ofPiece_eq u (hcourse.underway hq |>.not_woken hpiece hlive htime)] at htrace
    -- The last thing in the course is a step of the launch, and so it is behind the writing.
    obtain ⟨after, rfl, rfl⟩ : ∃ others, after = others ++ [.step u l] ∧
        prior = before ++ .news (.wrote bytes) :: others := by
      rcases List.eq_nil_or_concat' after with rfl | ⟨others, last, rfl⟩
      · cases (List.append_inj' htrace rfl).2
      · rw [← List.cons_append, ← List.append_assoc] at htrace
        obtain ⟨rfl, hlast⟩ := List.append_inj' htrace rfl
        cases hlast
        exact ⟨others, rfl, rfl⟩
    have hunderway := hcourse.underway hq
    have hfile' : WrittenOnce q bytes before after :=
      ⟨hfile.missing, fun hs => hfile.alone (List.mem_append_left _ hs)⟩
    rw [sighted_concat (ne_file_of_finished hpiece)]
    rcases hunderway.lost_or_found hpiece hfile' hresult hlaunched hlive htime with
      ⟨n, e, rfl, hexit, rfl⟩ | ⟨heq, hsighted, hfound⟩
    · have hlost := hunderway.not_sighted
      refine ⟨iff_of_true ⟨e.code, rfl⟩ hlost, fun hsighted => absurd hsighted hlost,
        fun hstays => iff_of_true ⟨e.code, rfl⟩ ?_⟩
      exact hunderway.overtaken hexit fun hs => hstays (List.mem_append_left _ hs)
    · have hother : ¬∃ code, outcome = .error (.exitedBeforeHandshake code) := by
        rintro ⟨code, hcode⟩
        rw [← heq, hcode] at hresult
        rcases handshakeOutcome_cases hresult with ⟨_, ho⟩ | ⟨_, ho⟩ <;> cases ho
      exact ⟨iff_of_false hother (not_not_intro hsighted), fun _ => heq,
        fun _ => iff_of_false hother (hunderway.not_overtaken hfound)⟩

end World

/-- A server writes its handshake and ends between a look of its launch and the check behind it. -/
def Trial.belated : List Beat :=
  [.move (.answerLaunch 0 (.ok none)), .piece, .look,
    .move (.writeFile ⟨"session.json"⟩ Trial.handshake),
    .move (.endConsole 0 (.reported ⟨some 1, false⟩)), .move (.run (.exit 0)), .piece]

/-- A launch looks in vain, and then its handshake is written and lies there when the launch is
over. -/
def LaunchRun.missesHandshake (r : LaunchRun) : Bool :=
  match r.trace, r.stage with
  | [.step _ (.answer _), .step x _, .news (.wrote bytes), .news _, .step _ (.turn _ _)],
      .over (.error (.exitedBeforeHandshake _)) =>
    bytes = Trial.handshake ∧ x.files.read ⟨"session.json"⟩ = .error .notFound ∧
      r.world.files.read ⟨"session.json"⟩ = .ok Trial.handshake ∧
      r.world.isCancelled .lone = false ∧ r.world.disposals[0]? = some false
  | _, _ => false

theorem Trial.exists_handshake :
    ∃ hs, World.handshakeOutcome Trial.handshake = .ok (.ok (some hs)) := by
  have hdecoded : ((World.handshakeOutcome Trial.handshake).toOption.map LaunchStage.over).any
      LaunchStage.isDecoded = true := by
    decide +kernel
  cases houtcome : World.handshakeOutcome Trial.handshake with
  | error kind =>
    rw [houtcome] at hdecoded
    cases hdecoded
  | ok outcome =>
    simp only [houtcome, Except.toOption, Option.map_some, Option.any_some] at hdecoded
    unfold LaunchStage.isDecoded at hdecoded
    split at hdecoded
    · next hs hover =>
      cases hover
      exact ⟨hs, rfl⟩
    · cases hdecoded

/-- The exit of the console takes the place of a handshake that was written before it and still lies
in the session file. -/
theorem World.Course.handshake_lost_trial :
    ∃ q r code hs, Trial.alone.processes[0]? = some q ∧
      Trial.alone.launchRun? 0 Trial.belated = some r ∧
      handshakeOutcome Trial.handshake = .ok (.ok (some hs)) ∧
      r.world.files.read q.spec.sessionFile = .ok Trial.handshake ∧
      WrittenOnce q Trial.handshake (r.trace.take 2) (r.trace.drop 3) ∧
      r.stage = .over (.error (.exitedBeforeHandshake code)) ∧
      ¬Sighted q Trial.handshake (r.trace.drop 3) ∧ Overtaken 0 (r.trace.drop 3) := by
  have hrun : ((Trial.alone.launchRun? 0 Trial.belated).any LaunchRun.missesHandshake) = true := by
    decide +kernel
  obtain ⟨⟨trace, w, stage⟩, hr, hmisses⟩ := (Option.any_eq_true _ _).1 hrun
  obtain ⟨hs, hresult⟩ := Trial.exists_handshake
  obtain ⟨q, hq, hpath, hpurpose⟩ : ∃ q, Trial.alone.processes[0]? = some q ∧
      q.spec.sessionFile = ⟨"session.json"⟩ ∧ q.purpose = .lone := ⟨_, rfl, rfl, rfl⟩
  unfold LaunchRun.missesHandshake at hmisses
  split at hmisses
  · next u c x l bytes n y m content code htrace hstage =>
    obtain ⟨rfl, hx, hlies, hcancelled, hdisposed⟩ := of_decide_eq_true hmisses
    simp only at htrace hstage
    subst htrace hstage
    have hnone {v : World} {k : Nat} :
        .step v (.file k) ∉ [Incident.news n, .step y (.turn m content)] := by
      intro hv
      simp only [List.mem_cons, Incident.step.injEq, reduceCtorEq, and_false, List.not_mem_nil,
        or_false] at hv
    have hfile : WrittenOnce q Trial.handshake [.step u (.answer c), .step x l]
        [.news n, .step y (.turn m content)] := by
      refine ⟨fun {v k} hv => ?_, fun hv => absurd hv hnone⟩
      simp only [List.mem_cons, Incident.step.injEq, reduceCtorEq, and_false, List.not_mem_nil,
        or_false, false_or] at hv
      rw [hpath, hv.1, hx]
    have hlive : ¬(w.isCancelled (q.purpose.token 0) = true ∨ w.IsDisposed 0) := by
      rw [hpurpose, isDisposed_iff, hdisposed]
      simpa [Purpose.token] using hcancelled
    obtain ⟨hlost, -, hovertaken⟩ := Course.handshake_lost_iff (course_of_launchRun? hr) hq rfl
      hfile hresult ⟨u, c, List.mem_cons_self⟩ hlive (fun t heq => (by cases heq))
    exact ⟨q, _, code, hs, hq, hr, hresult, hpath ▸ hlies, hfile, rfl, hlost.1 ⟨code, rfl⟩,
      (hovertaken fun hv => absurd hv hnone).1 ⟨code, rfl⟩⟩
  · cases hmisses

end SessionHost
