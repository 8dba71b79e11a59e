import SessionHost.Proofs.Lifecycle.Launches
import SessionHost.Session.Start

/-!
# Starts obey the rules

A start stores what it has reached only while it has not been called off, and it ends by
running, by failing or by leaving the status to whoever called it off.

Main results:

- Theorem `World.beginStart_obeys`: the first piece of a start obeys the rules.
- Theorem `World.start_obeys`: so does every other one.
-/

namespace SessionHost

/-! ## Taking the live parts away -/

/-- A start takes away what the generation before has left. -/
theorem releases_clearing (i g : Nat) :
    Releases g fun o x o' x' => Conduct i o (.clearing g x) o' (.clearing g x') where
  refl _ _ := .refl
  trans := .trans
  pass _ h := .turn (.passClearing h)
  take _ h := .of_rule rfl rfl fun hr => .clear hr h
  drop _ _ := .drop .clearing

/-- A start that fails takes away what it has stored. -/
theorem releases_failing (i g : Nat) :
    Releases g fun o x o' x' => Conduct i o (.failing g x) o' (.failing g x') where
  refl _ _ := .refl
  trans := .trans
  pass _ h := .turn (.passFailing h)
  take _ h := .of_rule rfl rfl fun hr => .retract hr h
  drop _ _ := .drop .failing

namespace World

variable (w : World) (i : Nat) (a : Attempt)

/-! ## The ends of a start -/

/-- A start that was called off may quit at any time. -/
theorem quit_conduct {m : Milestone} (h : w.isCancelled (.start a.generation) = true) :
    Conduct i w.outline (.starting a.generation m) w.outline .bystander :=
  .turn (.quit (show .start a.generation ∈ w.cancelled by simpa [isCancelled] using h))

/-- A start fails from every milestone, unless it was called off. -/
theorem failStart_obeys (m : Milestone) (failure : SessionFailure) :
    (w.failStart a failure).Obeys i w.outline (.starting a.generation m) Starting.role
      fun _ => .bystander := by
  unfold failStart
  split
  · rename_i h
    exact w.quit_conduct i a h
  · rename_i h
    exact .turn (.fail (show .start a.generation ∉ w.cancelled by simpa [isCancelled] using h))

/-- A start that has failed leaves an empty session behind. -/
theorem endFailedStart_obeys (failure : SessionFailure) :
    (w.endFailedStart a failure).Obeys i w.outline (.failing a.generation (.holding none))
      Starting.role fun _ => .bystander := by
  have hout := w.outline_transition a.generation [.starting] .failed
  unfold endFailedStart
  generalize w.transition a.generation [.starting] .failed = t at hout ⊢
  obtain ⟨v, moved⟩ := t
  have hv : (if moved then v.record (.failed a.generation failure.notice) else v).outline =
      w.outline.transition a.generation [.starting] .failed := by
    rw [← hout]
    cases moved <;> rfl
  change Conduct i w.outline _ (if moved then _ else v).outline _
  rw [hv]
  exact .of_rule (Outline.transition_setRole ..)
    (congrArg List.length (Outline.transition_roles ..)) fun hr => .endFailed hr

/-- A claim obeys the rules, wherever its details come from. -/
theorem claimStart_conduct {v : World} (h : w.status = .notStarted ∨ w.status = .failed)
    (hv : v.outline = { w.outline with generation := w.generation + 1, status := .starting }) :
    Conduct i w.outline .bystander v.outline (.clearing v.generation .reaching) := by
  have hg : v.generation = w.generation + 1 := congrArg Outline.generation hv
  rw [hg, hv]
  exact .of_rule rfl rfl fun hr => .claimStart hr h

/-- The first piece of a start obeys the rules. -/
theorem beginStart_obeys (name : Option String) :
    (w.beginStart name).Obeys i w.outline .bystander Starting.role fun _ => .bystander := by
  unfold beginStart
  cases hs : w.status with
  | notStarted => exact w.claimStart_conduct i (.inl hs) (outline_setStatus _ _)
  | failed => exact w.claimStart_conduct i (.inr hs) (outline_setStatus _ _)
  | running => exact .refl
  | busy => exact .refl
  | starting => cases w.beginWait? <;> exact .refl
  | stopping => cases w.beginWait? <;> exact .refl

/-! ## Between the claim and the end -/

/-- Choosing a runtime stores nothing. -/
theorem chooseRuntime_obeys (name : Option String) :
    (w.chooseRuntime a name).Obeys i w.outline (.starting a.generation .nothing) Starting.role
      fun _ => .bystander := by
  have hout := w.outline_learn (w.choice a.settings name)
  unfold chooseRuntime
  generalize w.learn (w.choice a.settings name) = t at hout ⊢
  obtain ⟨v, exe⟩ := t
  change v.outline = w.outline at hout
  rw [← hout]
  cases exe with
  | none => exact v.failStart_obeys i a .nothing .discovery
  | some exe => exact .refl

/-- The outcome of a launch ends its role of bringing a process up. -/
theorem afterLaunch_obeys (exe : Executable) (p : Nat) (outcome : LaunchOutcome) :
    (w.afterLaunch a exe outcome).Obeys i w.outline (launchEnd (.main a.generation) p outcome)
      Starting.role fun _ => .bystander := by
  have hlanded : Conduct i w.outline (.bringing (.main a.generation) p .up) w.outline
      (.starting a.generation .process) :=
    .turn .landed
  unfold afterLaunch
  split
  · exact .refl
  · exact hlanded
  · exact Progress.Obeys.after hlanded (w.failStart_obeys i a .process _)
  · split
    · exact hlanded
    · exact Progress.Obeys.after hlanded (w.failStart_obeys i a .process _)

/-- Watching over an exit in a world is the same in its outline. -/
theorem outline_watchExit {p : Nat} {q : ServerProcess} (hq : w.processes[p]? = some q)
    (name : String) :
    (w.watchExit a p name).outline = w.outline.watchExit a.generation p q := by
  simp only [watchExit, hq, Outline.watchExit]
  split
  · rfl
  · simp [outline, setProcess, Watch.lookout, WatchPlace.vigil]

/-- A start puts its process into the session and begins to bring it up. -/
theorem adoptProcess_obeys (exe : Executable) (p : Nat) :
    (w.adoptProcess a exe p).Obeys i w.outline (.bringing (.main a.generation) p .fresh)
      Starting.role fun _ => .bystander := by
  unfold adoptProcess storeUnlessCancelled
  by_cases hc : w.isCancelled (.start a.generation) = true
  · rw [if_pos hc]
    have hcancelled : .start a.generation ∈ w.outline.cancelled :=
      show .start a.generation ∈ w.cancelled by simpa [isCancelled] using hc
    change Conduct i w.outline _ (w.dispose p).outline _
    rw [outline_dispose]
    exact .drop (.unadopted hcancelled)
  · rw [if_neg hc]
    have hcancelled : .start a.generation ∉ w.outline.cancelled :=
      show .start a.generation ∉ w.cancelled by simpa [isCancelled] using hc
    let v : World := { w with session := { w.session with process := some ⟨a.generation, p⟩ } }
    change (((v.watchExit a p exe.name).beginLaunch p).andThen (.launching a exe p)
      fun w outcome => w.afterLaunch a exe outcome).Obeys i _ _ _ _
    cases hq : w.processes[p]? with
    | none =>
      have hblocked : (v.watchExit a p exe.name).beginLaunch p = .blocked := by
        simp [watchExit, beginLaunch, v, hq]
      rw [hblocked]
      trivial
    | some q =>
      have hout : (v.watchExit a p exe.name).outline = v.outline.watchExit a.generation p q :=
        v.outline_watchExit a hq exe.name
      have hadopt : Conduct i w.outline (.bringing (.main a.generation) p .fresh)
          (v.watchExit a p exe.name).outline (.bringing (.main a.generation) p .installed) := by
        rw [hout]
        exact .of_rule (Outline.watchExit_setRole ..)
          (congrArg List.length (Outline.watchExit_roles ..)) fun hr => .adopt hr hq hcancelled
      refine .after hadopt (.andThen (beginLaunch_obeys _ i) (fun _ => rfl) ?_)
      exact fun w outcome => w.afterLaunch_obeys i a exe p outcome

/-- A start may dial. -/
theorem connect_conduct {g c : Nat} {v : World}
    (hv : v.outline = { w.outline with stops := w.outline.stops ++ [0] })
    (hc : c = w.outline.stops.length) :
    Conduct i w.outline (.starting g .details) v.outline (.starting g (.opening c)) := by
  rw [hv, hc]
  exact .of_rule rfl rfl fun hr => .connect hr

/-- A new client is not stored yet. -/
theorem openClient_obeys (connection : Nat) :
    (w.openClient a connection).Obeys i w.outline (.starting a.generation .details)
      Starting.role fun _ => .bystander := by
  unfold openClient newClient
  simp only []
  split
  · trivial
  · rename_i c hc
    simp only [List.getElem?_concat_length, Option.some.injEq] at hc
    subst hc
    refine w.connect_conduct i ?_ ?_
    · simp [outline, setClient, Client.beginOpening, Client.request]
    · simp [outline]

/-- Waiting for the connection stores nothing. -/
theorem awaitConnection_obeys (details : StartedSession) (connection deadline : Nat) :
    (w.awaitConnection a details connection deadline).Obeys i w.outline
      (.starting a.generation .details) Starting.role fun _ => .bystander := by
  unfold awaitConnection
  simp only []
  split
  · exact w.openClient_obeys i a connection
  · exact w.failStart_obeys i a .details _
  · split
    · exact w.failStart_obeys i a .details _
    · trivial

/-- The answer about the version is not stored yet. -/
theorem afterVersion_obeys (answer : Except RequestFailure RuntimeDetails) :
    (w.afterVersion a answer).Obeys i w.outline (.starting a.generation .client) Starting.role
      fun _ => .bystander := by
  unfold afterVersion
  split
  · rename_i version
    refine Conduct.of_eq ?_
    cases versionWarning? version.version <;> rfl
  · exact w.failStart_obeys i a .client _
  · exact w.failStart_obeys i a .client _

/-- A start asks for the version of the server that its client speaks to. -/
theorem keepClient_obeys (c : Nat) :
    (w.keepClient a c).Obeys i w.outline (.starting a.generation (.opening c)) Starting.role
      fun _ => .bystander := by
  unfold keepClient storeUnlessCancelled
  by_cases hc : w.isCancelled (.start a.generation) = true
  · rw [if_pos hc]
    have habandon : (w.abandonClient c).outline = w.outline := w.outline_abandonClient c
    exact (w.quit_conduct i a hc).trans (.of_eq habandon)
  · rw [if_neg hc]
    have hcancelled : .start a.generation ∉ w.outline.cancelled :=
      show .start a.generation ∉ w.cancelled by simpa [isCancelled] using hc
    simp only []
    split
    · trivial
    · rename_i k hk
      have hkept : Conduct i w.outline (.starting a.generation (.opening c))
          { w.outline with
            session := { w.session with client := some ⟨a.generation, c⟩ } }
          (.starting a.generation .client) :=
        .of_rule rfl rfl fun hr => .keep hr hcancelled
      exact hkept.trans (.of_eq (outline_setClient _ hk rfl))

/-- A start that stores its version runs. -/
theorem conclude_obeys (version : RuntimeDetails) :
    (w.conclude a version).Obeys i w.outline (.starting a.generation .client) Starting.role
      fun _ => .bystander := by
  unfold conclude storeUnlessCancelled
  by_cases hc : w.isCancelled (.start a.generation) = true
  · rw [if_pos hc]
    exact w.quit_conduct i a hc
  · rw [if_neg hc]
    have hcancelled : .start a.generation ∉ w.outline.cancelled :=
      show .start a.generation ∉ w.cancelled by simpa [isCancelled] using hc
    let u : World :=
      { w with session := { w.session with version := some ⟨a.generation, version⟩ } }
    have hconclude : Conduct i w.outline (.starting a.generation .client)
        (u.outline.transition a.generation [.starting] .running) .bystander :=
      .of_rule (Outline.transition_setRole ..) (congrArg List.length (Outline.transition_roles ..))
        fun hr => .conclude hr hcancelled version
    have hout := u.outline_transition a.generation [.starting] .running
    rw [← hout] at hconclude
    refine hconclude.trans (.of_eq ?_)
    change (if (u.transition a.generation [.starting] .running).2 then _ else
      (u.transition a.generation [.starting] .running).1).outline = _
    split <;> rfl

/-! ## The pieces of a start -/

/-- Every piece of a start obeys the rules. -/
theorem start_obeys (place : Starting) :
    (w.start place).Obeys i w.outline place.role Starting.role fun _ => .bystander := by
  cases place with
  | joining p =>
    refine .andThen (.of_ends (w.wait_ends p)) (fun _ => rfl) ?_
    exact fun w _ => .refl
  | awaiting name p =>
    refine .andThen (.of_ends (w.wait_ends p)) (fun _ => rfl) ?_
    exact fun w _ => w.beginStart_obeys i name
  | clearing a name r =>
    refine .andThen (release_obeys (releases_clearing i a.generation) w r) (fun _ => rfl) ?_
    exact fun w _ => .turn .cleared
  | preparing a name step =>
    cases step with
    | none => trivial
    | some result =>
      cases result with
      | error kind => exact w.failStart_obeys i a .nothing _
      | ok _ => exact w.chooseRuntime_obeys i a name
  | recording a exe =>
    let u : World := { w with session := { w.session with executable := some exe } }
    have hchoose : Conduct i w.outline (.starting a.generation .nothing) u.outline
        (.starting a.generation .nothing) :=
      .of_rule_at rfl rfl (.choose exe)
    refine hchoose.trans (.of_rule rfl rfl fun hr => .createMain hr ?_)
    constructor <;> rfl
  | adopting a exe p => exact w.adoptProcess_obeys i a exe p
  | launching a exe p l =>
    refine .andThen (w.launch_obeys i l) (fun _ => rfl) ?_
    exact fun w outcome => w.afterLaunch_obeys i a exe p outcome
  | diagnosing a inquiry =>
    simp only [start]
    split
    · trivial
    · exact (w.diagnosis _).1.failStart_obeys i a .process _
  | noting a details =>
    simp only [start, storeUnlessCancelled]
    by_cases hc : w.isCancelled (.start a.generation) = true
    · rw [if_pos hc]
      exact w.quit_conduct i a hc
    · rw [if_neg hc]
      have hcancelled : .start a.generation ∉ w.outline.cancelled :=
        show .start a.generation ∉ w.cancelled by simpa [isCancelled] using hc
      exact Conduct.of_rule rfl rfl fun hr => .note hr hcancelled details
  | connecting a details connection deadline =>
    simp only [start]
    split
    · rename_i hc
      exact w.quit_conduct i a hc
    · exact w.awaitConnection_obeys i a details connection deadline
  | opening a c s =>
    simp only [start]
    split
    · rename_i hc
      exact (w.quit_conduct i a hc).trans (.of_eq (w.outline_abandonClient c))
    · refine .andThen (.of_ends (w.onClient_outline c fun k => s.step_stops w.now rfl))
        (fun _ => rfl) ?_
      intro w result
      split
      · exact .refl
      · have hfail := (w.abandonClient c).failStart_obeys i a (.opening c)
        rw [outline_abandonClient] at hfail
        exact hfail _
  | keeping a c => exact w.keepClient_obeys i a c
  | asking a c request =>
    simp only [start]
    split
    · rename_i hc
      exact w.quit_conduct i a hc
    · refine .andThen (.of_ends (w.onClient_outline c fun k => request.step_stops w.now rfl))
        (fun _ => rfl) ?_
      exact fun w result => w.afterVersion_obeys i a _
  | concluding a version => exact w.conclude_obeys i a version
  | failing a failure r =>
    refine .andThen (release_obeys (releases_failing i a.generation) w r) (fun _ => rfl) ?_
    exact fun w _ => w.endFailedStart_obeys i a failure

/-! ## What comes from outside -/

/-- A launch waits for a look at its session file, and for the next one, while its process is
up. -/
theorem arrival?_stage {p : Nat} {l l' : Launching} (h : w.arrival? p l = some l') :
    l'.stage = l.stage := by
  unfold arrival? at h
  split at h
  · cases h
    rfl
  · split at h
    · cases h
      rfl
    · cases h
  · cases h

@[simp]
theorem outline_makeFolder : w.makeFolder.1.outline = w.outline := by
  unfold makeFolder
  split <;> rfl

end World

end SessionHost
