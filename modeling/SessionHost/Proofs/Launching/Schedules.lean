import SessionHost.Proofs.Launching.Course

/-!
# Schedules of a launch

A schedule says in which order a launch looks and takes its pieces, and what happens between them:
writings of files, answers and ends of consoles, reports of exits, callings off, disposals, time,
and other launches, also of the same process.  Every schedule that can be followed is a course.

Main definitions:

- `Beat`: one thing in a schedule.
- `LaunchRun`, `World.launchRun?`: what a schedule leads to.

Main results:

- Theorem `World.course_of_launchRun?`: a schedule leads along a course of the launch.
- Theorems `World.Course.call?`, `World.Course.perform?`: the call that launches a process takes a
  course of the launch.
-/

namespace SessionHost

/-- One thing in the schedule of a launch. -/
inductive Beat where
  /-- The launch looks for its session file, or its interval ends. -/
  | look
  /-- The launch takes a piece. -/
  | piece
  /-- Files, launchers, consoles, servers or time make a move. -/
  | move (m : Move)
  | cancel (t : Token)
  | dispose (process : Nat)
  /-- Another launch begins. -/
  | rival (process : Nat)
  /-- Another launch takes a piece. -/
  | rivalPiece (process : Nat) (l : Launching)

/-- The move is none of a session's calls or watches. -/
def Move.isBeside : Move → Bool
  | .run (.exit _) => true
  | .answerLaunch _ _ => true
  | .endConsole _ _ => true
  | m => m.ofSurroundings

/-- The news that a move brings to the launch of a process. -/
def Move.news? (w : World) (p : Nat) : Move → Option News
  | .writeFile _ bytes => some (.wrote bytes)
  | .run (.exit c) =>
    match w.consoles[c]? with
    | some k => if k.owner = p then k.ending.map fun e => .reported e.exit else none
    | none => none
  | _ => none

/-- How far a launch is in a schedule. -/
structure LaunchRun where
  trace : List Incident
  world : World
  stage : LaunchStage

namespace World

variable {p i : Nat} {w v start : World} {l : Launching} {trace : List Incident} {r r' : LaunchRun}

/-- What is in the world that a piece leads to. -/
def rivalWorld? : LaunchProgress → Option World
  | .blocked => none
  | .going v _ => some v
  | .finished v _ => some v

/-- One beat of a schedule, if it can be followed. -/
def beat? (p : Nat) (r : LaunchRun) (b : Beat) : Option LaunchRun :=
  match r.stage with
  | .over _ => none
  | .waiting l =>
    match b with
    | .look => (r.world.arrival? p l).map fun l' =>
      ⟨r.trace ++ [.step r.world l], r.world, .waiting l'⟩
    | .piece =>
      match r.world.launch p l with
      | .blocked => none
      | .going v l' => some ⟨r.trace ++ Incident.ofPiece r.world l, v, .waiting l'⟩
      | .finished v outcome => some ⟨r.trace ++ Incident.ofPiece r.world l, v, .over outcome⟩
    | .move m =>
      if m.isBeside then (r.world.move? m).map fun v =>
        ⟨r.trace ++ ((m.news? r.world p).map Incident.news).toList, v, r.stage⟩
      else none
    | .cancel t => some { r with world := r.world.cancel t }
    | .dispose p' => some { r with world := r.world.dispose p' }
    | .rival p' => (rivalWorld? (r.world.beginLaunch p')).map fun v => { r with world := v }
    | .rivalPiece p' l' => (rivalWorld? (r.world.launch p' l')).map fun v => { r with world := v }

/-- The beats of a schedule, one after the other. -/
def beats? (p : Nat) (r : LaunchRun) : List Beat → Option LaunchRun
  | [] => some r
  | b :: bs => (beat? p r b).bind fun r' => beats? p r' bs

/-- What a launch under a schedule leads to. -/
def launchRun? (start : World) (p : Nat) (bs : List Beat) : Option LaunchRun :=
  match start.beginLaunch p with
  | .blocked => none
  | .going w l => beats? p ⟨[], w, .waiting l⟩ bs
  | .finished w outcome => beats? p ⟨[], w, .over outcome⟩ bs

/-! ## Schedules are courses -/

/-- A move of files, launchers, consoles, servers or time brings its news. -/
theorem isBeside_meanwhile {m : Move} (hm : m.isBeside = true) (h : w.move? m = some v) :
    Meanwhile p (m.news? w p) w v := by
  unfold Move.isBeside at hm
  split at hm
  · next c =>
    obtain ⟨k, e, hk, he, hmeanwhile⟩ := passOn?_meanwhile (p := p) h
    rw [Move.news?, hk]
    simp only [he, Option.map_some]
    exact hmeanwhile
  · exact answerLaunch?_meanwhile h
  · exact endConsole?_meanwhile h
  · cases m with
    | writeFile path bytes => exact writeFile_meanwhile h
    | run r => cases hm
    | _ => exact move?_meanwhile hm (fun path bytes heq => by cases heq) h

theorem rivalWorld?_meanwhile {piece : LaunchProgress} (hpiece : piece.Ends (Meanwhile p none w))
    (h : rivalWorld? piece = some v) : Meanwhile p none w v := by
  cases piece with
  | blocked => cases h
  | going u l =>
    cases h
    exact hpiece
  | finished u o =>
    cases h
    exact hpiece

/-- Something without news keeps the trace. -/
theorem Course.quiet (h : Course p start trace w (.waiting l)) (hv : Meanwhile p none w v) :
    Course p start trace v (.waiting l) := by
  have hcourse := h.meanwhile hv
  rwa [Option.map_none, Option.toList_none, List.append_nil] at hcourse

theorem Course.beat (h : Course p start r.trace r.world r.stage) {b : Beat}
    (hb : beat? p r b = some r') : Course p start r'.trace r'.world r'.stage := by
  obtain ⟨trace, w, stage⟩ := r
  cases stage with
  | «over» outcome => cases hb
  | waiting l =>
    simp only [beat?] at hb
    cases b with
    | look =>
      obtain ⟨l', hl, rfl⟩ := Option.map_eq_some_iff.1 hb
      exact h.look hl
    | piece =>
      simp only at hb
      split at hb
      · cases hb
      · next hl =>
        cases hb
        exact h.goes hl
      · next hl =>
        cases hb
        exact h.ends hl
    | move m =>
      simp only at hb
      split at hb
      · next hm =>
        obtain ⟨v, hv, rfl⟩ := Option.map_eq_some_iff.1 hb
        exact h.meanwhile (isBeside_meanwhile hm hv)
      · cases hb
    | cancel t =>
      cases hb
      exact h.quiet (w.cancel_meanwhile t)
    | dispose p' =>
      cases hb
      exact h.quiet (w.dispose_meanwhile p')
    | rival p' =>
      obtain ⟨v, hv, rfl⟩ := Option.map_eq_some_iff.1 hb
      exact h.quiet (rivalWorld?_meanwhile (w.beginLaunch_meanwhile p') hv)
    | rivalPiece p' l' =>
      obtain ⟨v, hv, rfl⟩ := Option.map_eq_some_iff.1 hb
      exact h.quiet (rivalWorld?_meanwhile (w.launch_meanwhile p' l') hv)

theorem Course.beats (h : Course p start r.trace r.world r.stage) {bs : List Beat}
    (hb : beats? p r bs = some r') : Course p start r'.trace r'.world r'.stage := by
  induction bs generalizing r with
  | nil =>
    cases hb
    exact h
  | cons b bs ih =>
    obtain ⟨r₁, hr₁, hrest⟩ := Option.bind_eq_some_iff.1 hb
    exact ih (h.beat hr₁) hrest

/-- **A schedule leads along a course of the launch.** -/
theorem course_of_launchRun? {bs : List Beat} (h : start.launchRun? p bs = some r) :
    Course p start r.trace r.world r.stage := by
  unfold launchRun? at h
  split at h
  · cases h
  · next w l hbegin => exact Course.beats (r := ⟨[], w, .waiting l⟩) (.begun hbegin) h
  · next w o hbegin => exact Course.beats (r := ⟨[], w, .over o⟩) (.refused hbegin) h

/-! ## Calls -/

/-- Calls are nothing to a launch. -/
theorem setCall_meanwhile (w : World) (i : Nat) (c : Call) : Meanwhile p none w (w.setCall i c) :=
  .of_eq rfl rfl rfl (Nat.le_refl _)

/-- A piece of the call that launches a process is a step in the course of the launch. -/
theorem Course.call? (h : Course p start trace w (.waiting l))
    (hcall : w.calls[i]? = some (.active (.launching p l))) (hv : w.call? i = some v) :
    (∃ (u : World) (l' : Launching), v = u.setCall i (.active (.launching p l')) ∧
      Course p start (trace ++ Incident.ofPiece w l) v (.waiting l')) ∨
    ∃ (u : World) (outcome : LaunchOutcome), v = u.setCall i (.over (.launch outcome)) ∧
      Course p start (trace ++ Incident.ofPiece w l) u (.over outcome) := by
  rcases call?_launching hcall hv with ⟨u, l', hpiece, rfl⟩ | ⟨u, outcome, hpiece, rfl⟩
  · exact .inl ⟨u, l', rfl, (h.goes hpiece).quiet (u.setCall_meanwhile i _)⟩
  · exact .inr ⟨u, outcome, rfl, h.ends hpiece⟩

/-- What comes to the call from outside is a step in the course of the launch. -/
theorem Course.perform? (h : Course p start trace w (.waiting l))
    (hcall : w.calls[i]? = some (.active (.launching p l))) (hv : w.perform? i = some v) :
    ∃ l', v = w.setCall i (.active (.launching p l')) ∧
      Course p start (trace ++ [.step w l]) v (.waiting l') := by
  simp only [World.perform?, hcall, performJob, Option.map_map, Option.map_eq_some_iff] at hv
  obtain ⟨l', hl, rfl⟩ := hv
  exact ⟨l', rfl, (h.look hl).quiet (w.setCall_meanwhile i _)⟩

end World

end SessionHost
