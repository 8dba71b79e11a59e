import SessionHost.Proofs.Ledger.Changes

/-!
# Work for a session

Stops, starts, debug sessions, watches and the handling of signals leave the settings as they are.
So none of them touches the flag that says that the default runtime is being changed, and none
suggests to restart the session.  Of all their pieces, one puts a process into the room for a debug
session; the others leave the room as it is or empty it.

Main definitions:

- `Event.suggestion?`: the setting for which an event suggests a restart.
- `Phase.isRestart`, `Job.isPhased`: the parts of a restart, and the calls that have parts.
- `World.Work`: work of this kind leads from one world to the other.

Main results:

- Theorems `World.stop_works`, `World.start_works`, `World.debug_works`: what a piece does is work
  of this kind.
- Theorem `World.call_works`: so is a piece of any other call, unless it takes settings over.
- Theorems `World.watch?_work`, `World.pump?_work`: so is what is done for a watch or a signal.
-/

namespace SessionHost

/-- The setting for which an event suggests a restart. -/
def Event.suggestion? : Event → Option String
  | .restartSuggested setting => some setting
  | _ => none

/-- What is told aside suggests nothing. -/
theorem Event.suggestion?_of_isAside {e : Event} (h : e.isAside = true) :
    e.suggestion? = none := by
  cases e <;> first | rfl | cases h

/-- The part of a call is a part of a restart. -/
def Phase.isRestart : Phase → Bool
  | .stop => true
  | .start _ => true
  | _ => false

/-- The call is carried out in parts. -/
def Job.isPhased : Job → Bool
  | .fresh .start => true
  | .fresh .stop => true
  | .fresh (.restart _) => true
  | .fresh (.changeDefault _) => true
  | .phased _ _ => true
  | _ => false

namespace World

/-- What is done for a session without taking settings over.  Where `installs` holds, a process may
be put into the room for a debug session. -/
structure Work (installs : Prop) (w v : World) : Prop where
  settings : v.settings = w.settings
  changing : v.changing = w.changing
  room : v.session.debug = w.session.debug ∨ v.session.debug = none ∨ installs
  log : ∃ events, v.log = w.log ++ events ∧ ∀ e ∈ events, e.suggestion? = none

namespace Work

variable {w v u : World} {P : Prop}

/-- The part of the session that matters stays as it is, and nothing is told. -/
theorem silent (hsettings : v.settings = w.settings) (hchanging : v.changing = w.changing)
    (hroom : v.session.debug = w.session.debug) (hlog : v.log = w.log) : w.Work P v :=
  ⟨hsettings, hchanging, .inl hroom, [], by rw [hlog, List.append_nil],
    fun _ he => absurd he List.not_mem_nil⟩

/-- An event is told that is no suggestion. -/
theorem told {e : Event} (hsettings : v.settings = w.settings) (hchanging : v.changing = w.changing)
    (hroom : v.session.debug = w.session.debug) (hlog : v.log = w.log ++ [e])
    (he : e.suggestion? = none) : w.Work P v :=
  ⟨hsettings, hchanging, .inl hroom, [e], hlog, List.forall_mem_singleton.2 he⟩

theorem refl (P : Prop) (w : World) : w.Work P w :=
  .silent rfl rfl rfl rfl

/-- Work after work is work. -/
theorem trans (h : w.Work P v) (h' : v.Work P u) : w.Work P u where
  settings := h'.settings.trans h.settings
  changing := h'.changing.trans h.changing
  room := by
    rcases h'.room with hroom | hroom
    · rw [hroom]
      exact h.room
    · exact .inr hroom
  log := by
    obtain ⟨es, hes, hquiet⟩ := h.log
    obtain ⟨fs, hfs, hquiet'⟩ := h'.log
    refine ⟨es ++ fs, by rw [hfs, hes, List.append_assoc], fun e he => ?_⟩
    exact (List.mem_append.1 he).elim (hquiet e) (hquiet' e)

/-- The room is emptied, and nothing else is done. -/
theorem empty (w : World) (s : Session) (h : s.debug = none) :
    w.Work P { w with session := s } :=
  ⟨rfl, rfl, .inr (.inl h), [], (List.append_nil _).symm, fun _ he => absurd he List.not_mem_nil⟩

/-- A piece does such work when each of its parts does. -/
theorem andThen {σ τ α β : Type} {x : Progress World σ α} {wrap : σ → τ}
    {next : World → α → Progress World τ β} (h : x.Ends (w.Work P))
    (hnext : ∀ v a, (next v a).Ends (v.Work P)) : (x.andThen wrap next).Ends (w.Work P) :=
  h.bind (fun _ => id) fun v a hv => (hnext v a).imp fun _ => hv.trans

/-- A piece that is preceded by such work. -/
theorem after {σ α : Type} {x : Progress World σ α} (h : w.Work P v) (hx : x.Ends (v.Work P)) :
    x.Ends (w.Work P) :=
  hx.imp fun _ => h.trans

end Work

variable (w : World) {P : Prop}

/-! ## Steps -/

/-- Chores are such work. -/
theorem Chore.work {w v : World} (h : w.Chore v) : w.Work P v := by
  obtain ⟨_, _, _, _, _, es, hes, rfl⟩ := h
  exact ⟨rfl, rfl, .inl rfl, es, rfl, fun e he => Event.suggestion?_of_isAside (hes e he)⟩

/-- The status is told, but nothing is suggested with it. -/
theorem setStatus_work (s : Status) : w.Work P (w.setStatus s) := by
  unfold setStatus
  split
  · exact .refl P w
  · exact .told rfl rfl rfl rfl rfl

/-- A move of the status is told, and nothing is suggested with it. -/
theorem transition_work (g : Nat) (sources : List Status) (target : Status) :
    w.Work P (w.transition g sources target).1 := by
  unfold transition
  split
  · exact w.setStatus_work target
  · exact .refl P w

/-- A client that was opened in vain is nobody's setting. -/
theorem abandonClient_work (c : Nat) : w.Work P (w.abandonClient c) := by
  unfold abandonClient
  split <;> exact .silent rfl rfl rfl rfl

/-- Ending a debug process does not fill the room. -/
theorem endDebugProcess_work (p : Nat) : w.Work P (w.endDebugProcess p) :=
  Work.trans (v := w.cancel (.debug p)) (.silent rfl rfl rfl rfl) (chore_dispose _ p).work

/-- Ending the debug session empties the room. -/
theorem endDebug_work : w.Work P w.endDebug := by
  unfold endDebug
  split
  · exact (Work.empty w _ rfl).trans (endDebugProcess_work _ _)
  · exact .refl P w

/-- What a start stores is not for the debug session. -/
theorem storeUnlessCancelled_work {w v : World} {a : Attempt} {update : Session → Session}
    (h : w.storeUnlessCancelled a update = some v)
    (hroom : (update w.session).debug = w.session.debug) : w.Work P v := by
  unfold storeUnlessCancelled at h
  split at h
  · cases h
  · cases h
    exact .silent rfl rfl hroom rfl

/-- A watch more is nobody's setting. -/
theorem watchExit_work (a : Attempt) (p : Nat) (name : String) :
    w.Work P (w.watchExit a p name) := by
  unfold watchExit
  split
  · split <;> exact .silent rfl rfl rfl rfl
  · exact .refl P w

/-- A piece of an exchange is the client's own work. -/
theorem onClient_works {σ α : Type} (c : Nat) (step : Client → ClientProgress σ α) :
    (w.onClient c step).Ends (w.Work P) := by
  unfold onClient
  split
  · trivial
  · rename_i k _
    cases step k with
    | blocked => trivial
    | going | finished => exact .silent rfl rfl rfl rfl

/-- A wait for the status does no other work. -/
theorem wait_works (place : Wait) : (w.wait place).Ends (w.Work P) :=
  (w.wait_chore place).imp fun _ => Chore.work

/-- A launch that begins does chores only. -/
theorem beginLaunch_works (p : Nat) : (w.beginLaunch p).Ends (w.Work P) :=
  (w.beginLaunch_chore p).imp fun _ => Chore.work

/-- Every piece of a launch does chores only. -/
theorem launch_works (p : Nat) (place : Launching) : (w.launch p place).Ends (w.Work P) :=
  (w.launch_chore p place).imp fun _ => Chore.work

/-! ## Stops -/

/-- A stop moves the status and suggests nothing. -/
theorem beginStop_works : w.beginStop.Ends (w.Work P) := by
  have hclaim : w.Work P ((w.setStatus .stopping).cancel (.start w.generation)) :=
    (w.setStatus_work .stopping).trans (.silent rfl rfl rfl rfl)
  unfold beginStop
  cases w.status with
  | notStarted => exact .refl P w
  | stopping => cases w.beginWait? <;> exact .refl P w
  | _ => exact hclaim

/-- A stop empties the room for a debug session at most. -/
theorem finishStop_works (p d : Option Nat) : (w.finishStop p d).Ends (w.Work P) := by
  have hend (v : World) : v.Work P
      ((v.disposeAny p).transition (v.disposeAny p).generation [.stopping] .notStarted).1 :=
    (v.chore_disposeAny p).work.trans (transition_work _ _ _ _)
  cases d with
  | none => exact hend w
  | some d => exact (w.endDebugProcess_work d).trans (hend _)

/-- Every piece of a stop is such work. -/
theorem stop_works (place : Stopping) : (w.stop place).Ends (w.Work P) := by
  cases place with
  | waiting p => exact Work.andThen (w.wait_works p) fun v _ => .refl P v
  | endingDebug => exact w.endDebug_work
  | taking =>
    have htake : w.Work P { w with session := { w.session.withoutLive with debug := none } } :=
      .empty w _ rfl
    simp only [stop]
    split
    · exact Work.after htake (finishStop_works _ _ _)
    · split
      · exact Work.after htake (finishStop_works _ _ _)
      · exact htake.trans (.silent rfl rfl rfl rfl)
  | closing c p d s => exact Work.andThen (w.onClient_works c _) fun v _ => v.finishStop_works p d

/-- Taking the live parts away is such work. -/
theorem release_works (g : Nat) (place : Release) : (w.release g place).Ends (w.Work P) := by
  cases place with
  | taking =>
    have htake : w.Work P { w with session := w.session.withoutLive } := .silent rfl rfl rfl rfl
    simp only [release]
    split
    · exact .refl P w
    · split
      · exact htake.trans (chore_disposeAny _ _).work
      · split
        · exact htake.trans (chore_disposeAny _ _).work
        · exact .silent rfl rfl rfl rfl
  | closing c p s =>
    exact Work.andThen (w.onClient_works c _) fun v _ => (v.chore_disposeAny p).work

/-! ## Starts -/

/-- A start moves the status and suggests nothing. -/
theorem beginStart_works (name : Option String) : (w.beginStart name).Ends (w.Work P) := by
  by_cases hidle : w.status = .notStarted ∨ w.status = .failed
  · obtain ⟨v, rfl, hbegin⟩ := w.beginStart_of_idle hidle name
    rw [hbegin]
    exact Work.trans (v := { w with generation := w.generation + 1 }) (.silent rfl rfl rfl rfl)
      (setStatus_work _ .starting)
  · unfold beginStart
    cases hs : w.status with
    | running | busy => exact .refl P w
    | starting | stopping => cases w.beginWait? <;> exact .refl P w
    | notStarted => exact absurd (.inl hs) hidle
    | failed => exact absurd (.inr hs) hidle

/-- A start that fails is told about, and nothing is suggested. -/
theorem failStart_works (a : Attempt) (failure : SessionFailure) :
    (w.failStart a failure).Ends (w.Work P) :=
  (w.failStart_chore a failure).imp fun _ => Chore.work

/-- The outcome of a launch is told, and nothing is suggested. -/
theorem afterLaunch_works (a : Attempt) (exe : Executable) (outcome : LaunchOutcome) :
    (w.afterLaunch a exe outcome).Ends (w.Work P) :=
  (w.afterLaunch_chore a exe outcome).imp fun _ => Chore.work

/-- A main process does not go into the room for a debug session. -/
theorem adoptProcess_works (a : Attempt) (exe : Executable) (p : Nat) :
    (w.adoptProcess a exe p).Ends (w.Work P) := by
  unfold adoptProcess
  split
  · exact (w.chore_dispose p).work
  · rename_i v hv
    refine Work.after ((storeUnlessCancelled_work hv rfl).trans (v.watchExit_work a p exe.name)) ?_
    exact Work.andThen (beginLaunch_works _ p) fun u outcome => u.afterLaunch_works a exe outcome

/-- A wait for the connection is such work. -/
theorem awaitConnection_works (a : Attempt) (d : StartedSession) (connection deadline : Nat) :
    (w.awaitConnection a d connection deadline).Ends (w.Work P) := by
  unfold awaitConnection
  simp only []
  split
  · unfold openClient
    simp only []
    split
    · trivial
    · exact .silent rfl rfl rfl rfl
  · exact w.failStart_works a _
  · split
    · exact w.failStart_works a _
    · trivial

/-- A client is stored without a suggestion. -/
theorem keepClient_works (a : Attempt) (c : Nat) : (w.keepClient a c).Ends (w.Work P) := by
  unfold keepClient
  split
  · exact w.abandonClient_work c
  · rename_i v hv
    simp only []
    split
    · trivial
    · exact (storeUnlessCancelled_work hv rfl).trans (.silent rfl rfl rfl rfl)

/-- A start that runs is told about, and nothing is suggested. -/
theorem conclude_works (a : Attempt) (version : RuntimeDetails) :
    (w.conclude a version).Ends (w.Work P) := by
  unfold conclude
  split
  · exact .refl P w
  · rename_i v hv
    refine (storeUnlessCancelled_work hv rfl).trans ?_
    have hmove := v.transition_work (P := P) a.generation [.starting] .running
    split
    · exact hmove.trans (.told rfl rfl rfl rfl rfl)
    · exact hmove

/-- The end of a start that has failed is such work. -/
theorem endFailedStart_works (a : Attempt) (failure : SessionFailure) :
    (w.endFailedStart a failure).Ends (w.Work P) := by
  have hmove := w.transition_work (P := P) a.generation [.starting] .failed
  unfold endFailedStart
  simp only [Progress.Ends]
  split
  · exact hmove.trans (.told rfl rfl rfl rfl rfl)
  · exact hmove

/-- No piece of a start touches the flag, suggests to restart, or fills the room. -/
theorem start_works (place : Starting) : (w.start place).Ends (w.Work P) := by
  cases place with
  | joining p => exact Work.andThen (w.wait_works p) fun v _ => .refl P v
  | awaiting name p => exact Work.andThen (w.wait_works p) fun v _ => v.beginStart_works name
  | clearing a name r => exact Work.andThen (w.release_works _ r) fun v _ => .refl P v
  | preparing a name step =>
    cases step with
    | none => trivial
    | some result =>
      cases result with
      | error kind => exact w.failStart_works a _
      | ok _ => exact (w.chooseRuntime_chore a name).imp fun _ => Chore.work
  | recording a exe => exact .silent rfl rfl rfl rfl
  | adopting a exe p => exact w.adoptProcess_works a exe p
  | launching a exe p l =>
    exact Work.andThen (w.launch_works p l) fun v outcome => v.afterLaunch_works a exe outcome
  | diagnosing a inquiry =>
    simp only [start]
    split
    · trivial
    · exact Work.after (w.chore_diagnosis _).work (failStart_works _ a _)
  | noting a details =>
    simp only [start]
    split
    · exact .refl P w
    · rename_i v hv
      exact (storeUnlessCancelled_work hv rfl).trans (.told rfl rfl rfl rfl rfl)
  | connecting a details connection deadline =>
    simp only [start]
    split
    · exact .refl P w
    · exact w.awaitConnection_works a details connection deadline
  | opening a c s =>
    simp only [start]
    split
    · exact w.abandonClient_work c
    · refine Work.andThen (w.onClient_works c _) fun v result => ?_
      split
      · exact .refl P v
      · exact Work.after (v.abandonClient_work c) (failStart_works _ a _)
  | keeping a c => exact w.keepClient_works a c
  | asking a c request =>
    simp only [start]
    split
    · exact .refl P w
    · exact Work.andThen (w.onClient_works c _) fun v result =>
        (v.afterVersion_chore a _).imp fun _ => Chore.work
  | concluding a version => exact w.conclude_works a version
  | failing a failure r =>
    exact Work.andThen (w.release_works _ r) fun v _ => v.endFailedStart_works a failure

/-! ## Debug sessions -/

/-- The outcome of a debug launch does not fill the room. -/
theorem afterDebugLaunch_works (exe : Executable) (p : Nat) (outcome : LaunchOutcome) :
    (w.afterDebugLaunch exe p outcome).Ends (w.Work P) :=
  (w.afterDebugLaunch_chore exe p outcome).imp fun _ => Chore.work

/-- Choosing for a debug session does chores only. -/
theorem chooseForDebug_works (s : Settings) (name : Option String) :
    (w.chooseForDebug s name).Ends (w.Work P) :=
  (w.chooseForDebug_chore s name).imp fun _ => Chore.work

/-- A debug session begins with chores only. -/
theorem beginDebug_works (name : Option String) : (w.beginDebug name).Ends (w.Work P) := by
  cases name with
  | some name => exact w.chooseForDebug_works w.settings (some name)
  | none => exact .refl P w

/-- A debug process fills the room: this is where the condition is needed. -/
theorem installDebug_works (exe : Executable) (p : Nat) (hP : P) :
    (w.installDebug exe p).Ends (w.Work P) := by
  let u : World := { w with session := { w.session with debug := some p } }
  have hinstall : w.Work P u :=
    ⟨rfl, rfl, .inr (.inr hP), [], (List.append_nil _).symm, fun _ he => absurd he List.not_mem_nil⟩
  have hlaunch (v : World) : ((v.beginLaunch p).andThen (.launching exe p) fun v outcome =>
      v.afterDebugLaunch exe p outcome).Ends (v.Work P) :=
    Work.andThen (v.beginLaunch_works p) fun v outcome => v.afterDebugLaunch_works exe p outcome
  unfold installDebug
  cases w.session.debug with
  | none => exact Work.after hinstall (hlaunch u)
  | some previous =>
    exact Work.after (hinstall.trans (u.endDebugProcess_work previous)) (hlaunch _)

/-- A piece of a debug session fills the room where it installs its process, and nowhere else. -/
theorem debug_works (place : Debugging) (hP : ∀ exe p, place = .installing exe p → P) :
    (w.debug place).Ends (w.Work P) := by
  cases place with
  | choosing s =>
    simp only [debug]
    split
    · exact .refl P w
    · exact w.chooseForDebug_works s none
  | preparing s exe step =>
    cases step with
    | none => trivial
    | some result => cases result <;> exact .silent rfl rfl rfl rfl
  | installing exe p => exact w.installDebug_works exe p (hP exe p rfl)
  | launching exe p l =>
    exact Work.andThen (w.launch_works p l) fun v outcome => v.afterDebugLaunch_works exe p outcome
  | diagnosing p inquiry =>
    simp only [debug]
    split
    · trivial
    · exact (w.chore_diagnosis _).work.trans (chore_dispose _ p).work
  | withdrawing p failure =>
    simp only [debug, Progress.Ends]
    split
    · exact .empty w _ rfl
    · exact .refl P w

/-! ## Calls -/

/-- The parts of a restart are such work. -/
theorem beginPhase_works {p : Phase} (h : p.isRestart = true) :
    (w.beginPhase p).Ends (w.Work P) := by
  cases p with
  | stop => exact Work.andThen w.beginStop_works fun v _ => .refl P v
  | start name => exact Work.andThen (w.beginStart_works name) fun v _ => .refl P v
  | announce | settle => cases h

/-- Every further piece of a part is such work. -/
theorem phase_works (place : PhasePlace) : (w.phase place).Ends (w.Work P) := by
  cases place with
  | stopping p => exact Work.andThen (w.stop_works p) fun v _ => .refl P v
  | starting p => exact Work.andThen (w.start_works p) fun v _ => .refl P v

/-- An exchange begins with the client's own work. -/
theorem beginExchange_works {σ : Type} (c : Nat) (begin : Client → Client × σ) (wrap : σ → Job) :
    (w.beginExchange c begin wrap).Ends (w.Work P) := by
  unfold beginExchange
  split
  · trivial
  · exact .silent rfl rfl rfl rfl

/-- A piece of a call that neither is carried out in parts nor takes settings over. -/
theorem call_works {job : Job} (h : job.isPhased = false)
    (hupdate : ∀ s, job ≠ .fresh (.updateSettings s))
    (hP : ∀ exe p, job = .debugging (.installing exe p) → P) : (w.call job).Ends (w.Work P) := by
  cases job with
  | fresh command =>
    cases command with
    | start | stop | restart | changeDefault => cases h
    | updateSettings s => exact absurd rfl (hupdate s)
    | startDebug name => exact Work.andThen (w.beginDebug_works name) fun v _ => .refl P v
    | reveal preserve =>
      simp only [call, beginCall]
      cases w.session.process with
      | none => exact .refl P w
      | some p => exact (w.chore_tellProcess _ _).work
    | available => exact (w.chore_learn _).work
    | launch p => exact Work.andThen (w.beginLaunch_works p) fun v _ => .refl P v
    | openClient | askVersion | closeClient =>
      simp only [call, beginCall]
      exact w.beginExchange_works _ _ _
    | stopDebug | settings | executable => exact .refl P w
  | phased => cases h
  | debugging place =>
    refine Work.andThen (w.debug_works place fun exe p hplace => ?_) fun v _ => .refl P v
    exact hP exe p (congrArg Job.debugging hplace)
  | endingDebug => exact w.endDebug_work
  | launching p place => exact Work.andThen (w.launch_works p place) fun v _ => .refl P v
  | opening c place =>
    refine Work.andThen (w.onClient_works c _) fun v result => ?_
    unfold endOpening
    split
    · exact .refl P v
    · exact v.abandonClient_work c
  | asking c request => exact Work.andThen (w.onClient_works c _) fun v _ => .refl P v
  | closing c place => exact Work.andThen (w.onClient_works c _) fun v _ => .refl P v

/-! ## Watches and signals -/

/-- An exit is told about, and nothing is suggested. -/
theorem seeExit_work (j : Nat) (x : Watch) (e : ConsoleExit) : w.Work P (w.seeExit j x e) := by
  obtain hover | ⟨-, -, hfall⟩ := w.seeExit_cases j x e
  · rw [hover]
    exact .silent rfl rfl rfl rfl
  · rw [hfall]
    refine (w.setStatus_work .failed).trans ?_
    exact (chore_warn _ .session _).work.trans (.silent rfl rfl rfl rfl)

variable {w} {v : World}

/-- Every piece of a watch is such work. -/
theorem watch?_work {j : Nat} (h : w.watch? j = some v) : w.Work P v := by
  obtain ⟨x, -, ⟨-, q, e, -, -, rfl⟩ | ⟨e, r, -, hcase⟩⟩ := watch?_cases h
  · exact w.seeExit_work j x e
  · have hrelease := w.release_works (P := P) x.generation r
    obtain ⟨u, r', heq, rfl⟩ | ⟨u, heq, rfl⟩ := hcase <;> rw [heq] at hrelease
    · exact Work.trans hrelease (.silent rfl rfl rfl rfl)
    · refine Work.trans hrelease ?_
      exact .told rfl rfl rfl rfl rfl

/-- A pump that ends is nobody's setting. -/
theorem endPump_work (k : Nat) (x : Pump) : w.Work P (w.endPump k x) := by
  unfold endPump
  simp only []
  split <;> exact .silent rfl rfl rfl rfl

/-- What a server signals is told, and nothing is suggested. -/
theorem handle_work (k : Nat) (x : Pump) (signal : ClientSignal) :
    w.Work P (w.handle k x signal) := by
  unfold handle
  split
  · exact endPump_work k x
  · split
    · exact transition_work _ _ _ _
    · exact transition_work _ _ _ _
    · split <;> exact .silent rfl rfl rfl rfl
    · exact endPump_work k x

/-- Every piece of a pump is such work. -/
theorem pump?_work {k : Nat} (h : w.pump? k = some v) : w.Work P v := by
  obtain ⟨x, -, ⟨-, u, rfl | ⟨p, rfl⟩, rfl⟩ | ⟨a, -, -, hcase⟩⟩ := pump?_cases h
  · exact .silent rfl rfl rfl rfl
  · exact (w.chore_tellProcess p keyPress).work.trans (.silent rfl rfl rfl rfl)
  · obtain ⟨-, -, rfl⟩ | ⟨signal, rest, -, rfl⟩ := hcase
    · exact endPump_work k x
    · exact Work.trans (v := w.setClient x.client { a with mailbox := rest })
        (.silent rfl rfl rfl rfl) (handle_work k x signal)

/-- What a call waits for outside is such work. -/
theorem performJob_work {job job' : Job} {u : World} (h : w.performJob job = some (u, job')) :
    w.Work P u := by
  cases performJob_prepares h with
  | startFolder | debugFolder => exact w.chore_makeFolder.work
  | _ => exact .silent rfl rfl rfl rfl

end World

end SessionHost
