import SessionHost.Proofs.Lifecycle.Starts
import SessionHost.Session.Step

/-!
# Calls obey the rules

Stops, starts and debug sessions make up the calls of the session's own interface; the other
calls only look, or change what the rules do not speak of.

Main definitions:

- `World.Prepares`: what comes to a call from outside.

Main results:

- Theorem `World.stop_obeys`: every piece of a stop obeys the rules.
- Theorem `World.debug_obeys`: so does every piece of the start of a debug session.
- Theorem `World.call_obeys`: so does every piece of a call on the session.
- Theorem `World.performJob_prepares`: what comes to a call from outside.
- Theorem `World.performJob_outline`: that changes nothing.
-/

namespace SessionHost

namespace World

variable (w : World) (i : Nat)

/-! ## Stops -/

/-- A debug session is called off and its process given up. -/
theorem endDebugProcess_conduct {d : Nat} {r s : Role}
    (h : Drop (w.outline.cancel (.debug d)) r d s) :
    Conduct i w.outline r (w.endDebugProcess d).outline s := by
  have hcall : Conduct i w.outline r (w.outline.cancel (.debug d)) r :=
    .of_rule_at rfl rfl (.callOff d)
  rw [outline_endDebugProcess]
  exact hcall.trans (.drop h)

/-- Ending the debug session is a bystander's conduct. -/
theorem endDebug_conduct : Conduct i w.outline .bystander w.endDebug.outline .bystander := by
  unfold endDebug
  split
  · rename_i d hd
    have hcall : Conduct i w.outline .bystander (w.outline.cancel (.debug d)) .bystander :=
      .of_rule_at rfl rfl (.callOff d)
    have hend : Conduct i (w.outline.cancel (.debug d)) .bystander
        ((w.outline.cancel (.debug d)).dispose d).withoutDebug .bystander := by
      refine .of_rule_at ?_ ?_ (.endDebug hd)
      · rw [Outline.dispose_setRole, Outline.withoutDebug_setRole]
      · exact congrArg List.length (Outline.dispose_roles ..)
    have hout : ({ w with session := { w.session with debug := none } }.endDebugProcess d).outline =
        ((w.outline.cancel (.debug d)).dispose d).withoutDebug := by
      rw [outline_endDebugProcess, ← Outline.dispose_withoutDebug]
      rfl
    exact hcall.trans (hend.trans (.of_eq hout))
  · exact .refl

/-- What a stop has taken is disposed of: the process. -/
theorem disposeAny_emptying (p : Option Nat) :
    Conduct i w.outline (.emptying p none) (w.disposeAny p).outline (.emptying none none) := by
  rw [outline_disposeAny]
  cases p with
  | none => exact .refl
  | some p => exact .drop .emptying

/-- A stop ends as a bystander when its processes are disposed of. -/
theorem finishStop_obeys (p d : Option Nat) :
    (w.finishStop p d).Obeys i w.outline (.emptying p d) Stopping.role fun _ => .bystander := by
  have hend : ∀ v : World, Conduct i v.outline (.emptying p none)
      ((v.disposeAny p).transition (v.disposeAny p).generation [.stopping] .notStarted).1.outline
      .bystander := by
    intro v
    refine (v.disposeAny_emptying i p).trans ?_
    rw [outline_transition]
    exact .of_rule (Outline.transition_setRole ..)
      (congrArg List.length (Outline.transition_roles ..)) fun hr => .endStop hr
  cases d with
  | none => exact hend w
  | some d => exact (w.endDebugProcess_conduct i .emptyingDebug).trans (hend _)

/-- The first piece of a stop obeys the rules. -/
theorem beginStop_obeys :
    w.beginStop.Obeys i w.outline .bystander Stopping.role fun _ => .bystander := by
  have hclaim (h : w.status ≠ .notStarted) (h' : w.status ≠ .stopping) :
      Conduct i w.outline .bystander
        ((w.setStatus .stopping).cancel (.start w.generation)).outline .stopping := by
    rw [outline_cancel, outline_setStatus]
    exact .of_rule rfl rfl fun hr => .claimStop hr h h'
  unfold beginStop
  cases hs : w.status with
  | notStarted => exact .refl
  | stopping => cases w.beginWait? <;> exact .refl
  | _ => exact hclaim (by rw [hs]; nofun) (by rw [hs]; nofun)

/-- A stop takes everything out of the session. -/
theorem stop_taking_obeys :
    (w.stop .taking).Obeys i w.outline .stopping Stopping.role fun _ => .bystander := by
  have hempty : Conduct i w.outline .stopping w.outline.takeLive.withoutDebug
      (.emptying w.outline.process? w.session.debug) :=
    .of_rule rfl rfl fun hr => .empty hr
  let u : World := { w with session := { w.session.withoutLive with debug := none } }
  have hnobody (h : ∀ c, w.session.client.map Stored.value = some c → w.clients[c]? = none) :
      (u.finishStop w.outline.process? w.session.debug).Obeys i w.outline .stopping
        Stopping.role fun _ => .bystander := by
    have hfinish := u.finishStop_obeys i w.outline.process? w.session.debug
    rw [w.outline_takeLive { w.session.withoutLive with debug := none } h] at hfinish
    exact .after hempty hfinish
  simp only [stop]
  cases hc : w.session.client.map Stored.value with
  | none => exact hnobody (by simp [hc])
  | some c =>
    simp only []
    cases hk : w.clients[c]? with
    | none =>
      refine hnobody fun d hd => ?_
      rw [hc, Option.some.injEq] at hd
      rwa [← hd]
    | some k =>
      have hout : (u.setClient c (k.beginClosing w.now w.config.timings.clientStop).1).outline =
          w.outline.takeLive.withoutDebug :=
        w.outline_takeLive_setClient { w.session.withoutLive with debug := none } hc hk rfl
      exact hempty.trans (.of_eq hout)

/-- Every piece of a stop obeys the rules. -/
theorem stop_obeys (place : Stopping) :
    (w.stop place).Obeys i w.outline place.role Stopping.role fun _ => .bystander := by
  cases place with
  | waiting p =>
    refine .andThen (.of_ends (w.wait_ends p)) (fun _ => rfl) ?_
    exact fun w _ => .refl
  | endingDebug => exact w.endDebug_conduct i
  | taking => exact w.stop_taking_obeys i
  | closing c p d s =>
    refine .andThen (.of_ends (w.onClient_outline c fun k => s.step_stops w.now rfl))
      (fun _ => rfl) ?_
    exact fun w _ => w.finishStop_obeys i p d

/-! ## Debug sessions -/

/-- A debug session is a bystander until it has a process. -/
theorem chooseForDebug_obeys (s : Settings) (name : Option String) :
    (w.chooseForDebug s name).Obeys i w.outline .bystander Debugging.role fun _ => .bystander := by
  have hout := w.outline_learn (w.choice s name)
  unfold chooseForDebug
  generalize w.learn (w.choice s name) = t at hout ⊢
  obtain ⟨v, exe⟩ := t
  cases exe with
  | none => exact Conduct.of_eq hout
  | some exe => exact Conduct.of_eq hout

/-- The first piece of the start of a debug session obeys the rules. -/
theorem beginDebug_obeys (name : Option String) :
    (w.beginDebug name).Obeys i w.outline .bystander Debugging.role fun _ => .bystander := by
  unfold beginDebug
  split
  · exact w.chooseForDebug_obeys i w.settings _
  · exact .refl

/-- A debug session that fails drops its process. -/
theorem failDebug_obeys (p : Nat) (failure : SessionFailure) :
    (w.failDebug p failure).Obeys i w.outline (.bringing .debug p .up) Debugging.role
      fun _ => .bystander := by
  change Conduct i w.outline _ (w.dispose p).outline _
  rw [outline_dispose]
  exact .drop .debugFailed

/-- The outcome of a debug launch ends its role of bringing a process up. -/
theorem afterDebugLaunch_obeys (exe : Executable) (p : Nat) (outcome : LaunchOutcome) :
    (w.afterDebugLaunch exe p outcome).Obeys i w.outline (launchEnd .debug p outcome)
      Debugging.role fun _ => .bystander := by
  unfold afterDebugLaunch
  split
  · exact .refl
  · exact .turn .debugStarted
  · exact w.failDebug_obeys i p _
  · split
    · exact .refl
    · exact w.failDebug_obeys i p _

/-- A debug session puts its process into the room and begins to bring it up. -/
theorem installDebug_obeys (exe : Executable) (p : Nat) :
    (w.installDebug exe p).Obeys i w.outline (.bringing .debug p .fresh) Debugging.role
      fun _ => .bystander := by
  let u : World := { w with session := { w.session with debug := some p } }
  have hlaunch : ∀ v : World, ((v.beginLaunch p).andThen (.launching exe p) fun w outcome =>
      w.afterDebugLaunch exe p outcome).Obeys i v.outline (.bringing .debug p .installed)
      Debugging.role fun _ => .bystander := by
    intro v
    refine .andThen (v.beginLaunch_obeys i) (fun _ => rfl) ?_
    exact fun w outcome => w.afterDebugLaunch_obeys i exe p outcome
  unfold installDebug
  cases hd : w.session.debug with
  | none =>
    have hinstall : Conduct i w.outline (.bringing .debug p .fresh) u.outline
        (.bringing .debug p .installed) := by
      refine .of_rule rfl rfl fun hr => ?_
      have hrule := Rule.install hr
      rw [show (w.outline.setRole i (.bringing .debug p .fresh)).session.debug = none from hd]
        at hrule
      exact hrule
    exact .after hinstall (hlaunch u)
  | some previous =>
    have hinstall : Conduct i w.outline (.bringing .debug p .fresh) u.outline
        (.replacing p previous) := by
      refine .of_rule rfl rfl fun hr => ?_
      have hrule := Rule.install hr
      rw [show (w.outline.setRole i (.bringing .debug p .fresh)).session.debug = some previous
        from hd] at hrule
      exact hrule
    have hreplaced : Conduct i u.outline (.replacing p previous)
        (u.endDebugProcess previous).outline (.bringing .debug p .installed) :=
      u.endDebugProcess_conduct i .replaced
    exact .after (hinstall.trans hreplaced) (hlaunch _)

/-- Every piece of the start of a debug session obeys the rules. -/
theorem debug_obeys (place : Debugging) :
    (w.debug place).Obeys i w.outline place.role Debugging.role fun _ => .bystander := by
  cases place with
  | choosing s =>
    simp only [debug]
    split
    · exact .refl
    · exact w.chooseForDebug_obeys i s none
  | preparing s exe step =>
    cases step with
    | none => trivial
    | some result =>
      cases result with
      | error kind => exact .refl
      | ok _ =>
        refine Conduct.of_rule rfl rfl fun hr => .createDebug hr ?_
        constructor <;> rfl
  | installing exe p => exact w.installDebug_obeys i exe p
  | launching exe p l =>
    refine .andThen (w.launch_obeys i l) (fun _ => rfl) ?_
    exact fun w outcome => w.afterDebugLaunch_obeys i exe p outcome
  | diagnosing p inquiry =>
    simp only [debug]
    split
    · trivial
    · exact (w.diagnosis _).1.failDebug_obeys i p _
  | withdrawing p failure =>
    have hwithdraw : Conduct i w.outline (.withdrawing p)
        (if w.outline.session.debug = some p then w.outline.withoutDebug else w.outline)
        .bystander := by
      refine .of_rule ?_ ?_ fun hr => .withdraw hr
      · by_cases h : w.outline.session.debug = some p
        · rw [if_pos h]
          exact if_pos h
        · rw [if_neg h]
          exact if_neg h
      · split <;> rfl
    refine hwithdraw.trans (.of_eq ?_)
    by_cases h : w.session.debug = some p
    · rw [if_pos h, if_pos (show w.outline.session.debug = some p from h)]
      rfl
    · rw [if_neg h, if_neg (show w.outline.session.debug ≠ some p from h)]

/-! ## Settings -/

@[simp]
theorem outline_updateSettings (s : Settings) : (w.updateSettings s).outline = w.outline := by
  unfold updateSettings
  simp only []
  split
  · rfl
  · split <;> rfl

@[simp]
theorem outline_announceDefault (name : String) : (w.announceDefault name).outline = w.outline := by
  have hpersist (v : World) : (v.persistDefault name).outline = v.outline := by
    unfold persistDefault
    split <;> rfl
  rw [announceDefault, outline_updateSettings, hpersist]
  rfl

/-! ## Calls -/

/-- What follows a part of a call: the parts that are left, unless it has broken off. -/
def afterPhase (w : World) (next : List Phase) : PhaseEnd → CallProgress
  | .done => w.runPhases next
  | .aborted => .finished w .aborted

/-- The parts of a call are run one after the other. -/
theorem runPhases_cons (p : Phase) (rest : List Phase) :
    w.runPhases (p :: rest) =
      (w.beginPhase p).andThen (.phased · rest) fun v r => v.afterPhase rest r := by
  rw [runPhases]
  cases w.beginPhase p with
  | finished v r => cases r <;> rfl
  | _ => rfl

/-- A piece of a part of a call, and what follows when the part is over. -/
theorem call_phased (place : PhasePlace) (next : List Phase) :
    w.call (.phased place next) =
      (w.phase place).andThen (.phased · next) fun v r => v.afterPhase next r := by
  simp only [call]
  cases w.phase place with
  | finished v r => cases r <;> rfl
  | _ => rfl

/-- Every part begins as a bystander. -/
theorem beginPhase_obeys (p : Phase) :
    (w.beginPhase p).Obeys i w.outline .bystander PhasePlace.role fun _ => .bystander := by
  cases p with
  | announce name => exact Conduct.of_eq (w.outline_announceDefault name)
  | stop => exact .andThen (w.beginStop_obeys i) (fun _ => rfl) fun _ _ => .refl
  | start name => exact .andThen (w.beginStart_obeys i name) (fun _ => rfl) fun _ _ => .refl
  | settle => exact .refl

/-- The parts of a call obey the rules one after the other. -/
theorem runPhases_obeys (next : List Phase) :
    (w.runPhases next).Obeys i w.outline .bystander Job.role fun _ => .bystander := by
  induction next generalizing w with
  | nil => exact .refl
  | cons p rest ih =>
    rw [runPhases_cons]
    refine .andThen (w.beginPhase_obeys i p) (fun _ => rfl) fun v r => ?_
    cases r with
    | done => exact ih v
    | aborted => exact .refl

/-- Every further piece keeps to the role of its part. -/
theorem phase_obeys (place : PhasePlace) :
    (w.phase place).Obeys i w.outline place.role PhasePlace.role fun _ => .bystander := by
  cases place with
  | stopping p => exact .andThen (w.stop_obeys i p) (fun _ => rfl) fun _ _ => .refl
  | starting p => exact .andThen (w.start_obeys i p) (fun _ => rfl) fun _ _ => .refl

/-- Whatever is not the order to end may be told to a process by everybody. -/
theorem conduct_tellProcess (p : Nat) {command : ConsoleCommand} (h : command ≠ .kill) (r : Role) :
    Conduct i w.outline r (w.tellProcess p command).outline r := by
  rw [outline_tellProcess]
  cases w.processes[p]?.bind ServerProcess.console with
  | none => exact .refl
  | some c => exact conduct_tell i h _ r

/-- The first piece of a call on the session obeys the rules. -/
theorem beginCall_obeys (command : Command) (h : command.ofSession = true) :
    (w.beginCall command).Obeys i w.outline .bystander Job.role fun _ => .bystander := by
  cases command with
  | start => exact w.runPhases_obeys i _
  | stop => exact w.runPhases_obeys i _
  | restart name => exact w.runPhases_obeys i _
  | changeDefault name => exact w.runPhases_obeys i _
  | startDebug name => exact .andThen (w.beginDebug_obeys i name) (fun _ => rfl) fun _ _ => .refl
  | stopDebug => exact .refl
  | reveal preserve =>
    simp only [beginCall]
    cases w.session.process with
    | none => exact .refl
    | some p =>
      have hreveal : ConsoleCommand.reveal preserve ≠ .kill := nofun
      exact w.conduct_tellProcess i p.value hreveal .bystander
  | updateSettings s => exact Conduct.of_eq (w.outline_updateSettings s)
  | settings => exact .refl
  | available => exact Conduct.of_eq (w.outline_learn ((w.finder w.settings).all w.config.probe))
  | executable => exact .refl
  | launch p => cases h
  | openClient c profileLoading cwd timeout => cases h
  | askVersion c timeout => cases h
  | closeClient c timeout => cases h

/-- Every piece of a call on the session obeys the rules. -/
theorem call_obeys (job : Job) (h : job.role ≠ .outsider) :
    (w.call job).Obeys i w.outline job.role Job.role fun _ => .bystander := by
  cases job with
  | fresh command =>
    by_cases hc : command.ofSession = true
    · have hcall := w.beginCall_obeys i command hc
      rw [show (Job.fresh command).role = .bystander from if_pos hc]
      exact hcall
    · exact absurd (if_neg hc) h
  | phased place next =>
    rw [call_phased]
    refine .andThen (w.phase_obeys i place) (fun _ => rfl) fun v r => ?_
    cases r with
    | done => exact v.runPhases_obeys i next
    | aborted => exact .refl
  | debugging place => exact .andThen (w.debug_obeys i place) (fun _ => rfl) fun _ _ => .refl
  | endingDebug => exact w.endDebug_conduct i
  | launching p place => exact absurd rfl h
  | opening c place => exact absurd rfl h
  | asking c request => exact absurd rfl h
  | closing c place => exact absurd rfl h

end World

/-! ## The work on the file system -/

/-- What comes to a call from outside: the folder for session files is made, or a launch gets what
it waits for. -/
inductive World.Prepares (w : World) : Job → World → Job → Prop where
  | startFolder {a : Attempt} {name : Option String} {next : List Phase} :
      Prepares w (.phased (.starting (.preparing a name none)) next) w.makeFolder.1
        (.phased (.starting (.preparing a name (some w.makeFolder.2))) next)
  | debugFolder {s : Settings} {exe : Executable} :
      Prepares w (.debugging (.preparing s exe none)) w.makeFolder.1
        (.debugging (.preparing s exe (some w.makeFolder.2)))
  | startLaunch {a : Attempt} {exe : Executable} {p : Nat} {l l' : Launching} {next : List Phase}
      (h : w.arrival? p l = some l') :
      Prepares w (.phased (.starting (.launching a exe p l)) next) w
        (.phased (.starting (.launching a exe p l')) next)
  | debugLaunch {exe : Executable} {p : Nat} {l l' : Launching} (h : w.arrival? p l = some l') :
      Prepares w (.debugging (.launching exe p l)) w (.debugging (.launching exe p l'))
  | launch {p : Nat} {l l' : Launching} (h : w.arrival? p l = some l') :
      Prepares w (.launching p l) w (.launching p l')

namespace World

variable {w v : World} {job job' : Job}

/-- What a call waits for outside, inverted once for all. -/
theorem performJob_prepares (h : w.performJob job = some (v, job')) : w.Prepares job v job' := by
  unfold performJob at h
  split at h
  · obtain ⟨⟨u, place⟩, hplace, heq⟩ := Option.map_eq_some_iff.1 h
    cases heq
    unfold prepareStart at hplace
    split at hplace
    · cases hplace
      exact .startFolder
    · obtain ⟨l, hl, heq⟩ := Option.map_eq_some_iff.1 hplace
      cases heq
      exact .startLaunch hl
    · cases hplace
  · obtain ⟨⟨u, place⟩, hplace, heq⟩ := Option.map_eq_some_iff.1 h
    cases heq
    unfold prepareDebug at hplace
    split at hplace
    · cases hplace
      exact .debugFolder
    · obtain ⟨l, hl, heq⟩ := Option.map_eq_some_iff.1 hplace
      cases heq
      exact .debugLaunch hl
    · cases hplace
  · obtain ⟨l, hl, heq⟩ := Option.map_eq_some_iff.1 h
    cases heq
    exact .launch hl
  · cases h

/-- What comes to a call from outside leaves the outline as it is. -/
theorem performJob_outline (h : w.performJob job = some (v, job')) :
    v.outline = w.outline ∧ job'.role = job.role := by
  cases performJob_prepares h with
  | startFolder | debugFolder => exact ⟨w.outline_makeFolder, rfl⟩
  | startLaunch hl | debugLaunch hl =>
    exact ⟨rfl, congrArg (Role.bringing _ _) (w.arrival?_stage hl)⟩
  | launch hl => exact ⟨rfl, rfl⟩

end World

end SessionHost
