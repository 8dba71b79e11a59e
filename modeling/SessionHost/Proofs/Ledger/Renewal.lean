import SessionHost.Proofs.Ledger.Changes

/-!
# How a change of the default runtime goes on

A change of the default runtime writes the name into the settings in its first piece.  After it the
call stops what runs and starts for the name, and only the start's record of its runtime changes
what is told about the runtime.

Main definitions:

- `World.pick`: the runtime that is chosen for a name.
- `Starting.IsFor`, `Job.IsFor`: how far a restart for a name is.
- `Steady`: settings and recorded runtime stay as they are.

Main results:

- Theorems `World.change_isFor`, `World.call_isFor`: the call goes on with the restart for its name.
- Theorem `World.call_steady`: only a record changes the runtime.
-/

namespace SessionHost

/-! ## Where a piece leads -/

/-- The place where the activity waits next has the property. -/
def Progress.Goes {ω σ α : Type} (p : Progress ω σ α) (Q : σ → Prop) : Prop :=
  match p with
  | .going _ s => Q s
  | _ => True

namespace Progress.Goes

variable {ω σ τ α β : Type} {p : Progress ω σ α} {P : ω → Prop} {Q R : σ → Prop}

theorem of_forall (h : ∀ s, Q s) : p.Goes Q := by
  cases p with
  | going w s => exact h s
  | _ => trivial

theorem imp (h : p.Goes Q) (hQR : ∀ s, Q s → R s) : p.Goes R := by
  cases p with
  | going w s => exact hQR s h
  | _ => trivial

/-- Where a piece leads, when it is a part of a larger one. -/
theorem bind {S : τ → Prop} {wrap : σ → τ} {next : ω → α → Progress ω τ β}
    (h : p.Goes fun s => S (wrap s)) (hp : p.Ends P) (hnext : ∀ w a, P w → (next w a).Goes S) :
    (p.andThen wrap next).Goes S := by
  cases p with
  | blocked => trivial
  | going w s => exact h
  | finished w a => exact hnext w a hp

end Progress.Goes

/-! ## What a runtime is chosen by -/

namespace World

variable {u v w : World} {name : String}

/-- The runtime that is chosen for a name. -/
def pick (w : World) (name : String) : Option Executable :=
  (w.choice w.settings (some name)).value

/-- Runtimes are chosen from the same ones. -/
def ChoosesLike (w u : World) : Prop :=
  w.config = u.config ∧ w.settings.additionalPaths = u.settings.additionalPaths

/-- A start chooses by the paths of its own settings. -/
theorem ChoosesLike.choice_eq (h : w.ChoosesLike u) {s : Settings}
    (hs : s.additionalPaths = u.settings.additionalPaths) :
    (w.choice s (some name)).value = u.pick name := by
  simp only [pick, choice, finder, h.1, hs]
  rfl

/-- Worlds that choose alike pick the same runtime. -/
theorem ChoosesLike.pick_eq (h : w.ChoosesLike u) : w.pick name = u.pick name :=
  h.choice_eq h.2

/-- Without a name the default one counts. -/
theorem choice_default (h : w.settings.defaultVersion = some name) :
    (w.choice w.settings none).value = w.pick name := by
  simp only [pick, choice, h]
  rfl

end World

/-! ## How far a restart is -/

/-- The start has recorded its runtime, or it fails. -/
def Starting.isLate : Starting → Bool
  | .joining _ => false
  | .awaiting _ _ => false
  | .clearing _ _ _ => false
  | .preparing _ _ _ => false
  | .recording _ _ => false
  | _ => true

/-- The start is one for the name; `recorded` is what holds once its runtime is recorded. -/
def Starting.IsFor (u : World) (name : String) (recorded : Prop) : Starting → Prop
  | .joining _ => True
  | .awaiting n _ => n = some name
  | .clearing a n _ => n = some name ∧ a.settings.additionalPaths = u.settings.additionalPaths
  | .preparing a n _ => n = some name ∧ a.settings.additionalPaths = u.settings.additionalPaths
  | .recording _ exe => u.pick name = some exe
  | .failing _ _ _ => True
  | _ => recorded

/-- A start that is past its choice is for whatever has been shown of it. -/
theorem Starting.IsFor.of_isLate {u : World} {name : String} {P : Prop} {place : Starting}
    (h : place.isLate = true) (hP : P) : place.IsFor u name P := by
  cases place <;> first | exact hP | trivial

/-- What holds once a runtime is recorded may be said of a later time. -/
theorem Starting.IsFor.imp {u : World} {name : String} {P Q : Prop} {place : Starting}
    (h : place.IsFor u name P) (hPQ : P → Q) : place.IsFor u name Q := by
  cases place <;> first | exact h | exact hPQ h

/-- The call restarts the session for the name. -/
def Job.IsFor (u : World) (name : String) (recorded : Prop) : Job → Prop
  | .phased (.stopping _) next => next = [.start (some name), .settle]
  | .phased (.starting place) next => next = [.settle] ∧ place.IsFor u name recorded
  | _ => False

/-- What a call is for may be said more weakly. -/
theorem Job.IsFor.imp {u : World} {name : String} {P Q : Prop} {job : Job}
    (h : job.IsFor u name P) (hPQ : P → Q) : job.IsFor u name Q := by
  cases job with
  | phased place next =>
    cases place with
    | stopping p => exact h
    | starting p => exact ⟨h.1, h.2.imp hPQ⟩
  | _ => exact h

/-- The runtime that the call records with its next piece. -/
def Job.runtime? : Job → Option Executable
  | .phased (.starting (.recording _ exe)) _ => some exe
  | _ => none

/-- The call puts its process into the session with its next piece. -/
def Job.isAdopting : Job → Bool
  | .phased (.starting (.adopting _ _ _)) _ => true
  | _ => false

/-- The runtime that a call has in hand is the one that is picked. -/
theorem Job.IsFor.pick_eq {u : World} {name : String} {P : Prop} {job : Job} {exe : Executable}
    (h : job.IsFor u name P) (hexe : job.runtime? = some exe) : u.pick name = some exe := by
  unfold runtime? at hexe
  split at hexe
  · cases hexe
    exact h.2
  · cases hexe

/-- A process is put into the session after the runtime was recorded. -/
theorem Job.IsFor.recorded {u : World} {name : String} {P : Prop} {job : Job}
    (h : job.IsFor u name P) (hadopting : job.isAdopting = true) : P := by
  unfold isAdopting at hadopting
  split at hadopting
  · exact h.2
  · cases hadopting

namespace World

variable {u v w : World} {name : String} {P Q : Prop}

/-! ## Starts -/

section

variable (w) (a : Attempt)

/-- A start that fails is past its choice. -/
theorem failStart_late (failure : SessionFailure) :
    (w.failStart a failure).Goes (·.isLate = true) := by
  unfold failStart
  split <;> trivial

/-- A start with the outcome of its launch is past its choice. -/
theorem afterLaunch_late (exe : Executable) (outcome : LaunchOutcome) :
    (w.afterLaunch a exe outcome).Goes (·.isLate = true) := by
  unfold afterLaunch
  split
  · trivial
  · trivial
  · exact w.failStart_late a _
  · split
    · trivial
    · exact w.failStart_late a _

/-- A start that adopts its process is past its choice. -/
theorem adoptProcess_late (exe : Executable) (p : Nat) :
    (w.adoptProcess a exe p).Goes (·.isLate = true) := by
  unfold adoptProcess
  split
  · trivial
  · exact .bind (.of_forall fun _ => rfl) (beginLaunch_ledger _ p)
      fun v outcome _ => v.afterLaunch_late a exe outcome

/-- A start that waits for its connection is past its choice. -/
theorem awaitConnection_late (d : StartedSession) (connection deadline : Nat) :
    (w.awaitConnection a d connection deadline).Goes (·.isLate = true) := by
  unfold awaitConnection
  simp only []
  split
  · simp only [openClient]
    split <;> trivial
  · exact w.failStart_late a _
  · split
    · exact w.failStart_late a _
    · trivial

/-- A start that keeps its client is past its choice. -/
theorem keepClient_late (c : Nat) : (w.keepClient a c).Goes (·.isLate = true) := by
  unfold keepClient
  split
  · trivial
  · simp only []
    split <;> trivial

/-- A start that knows the version is past its choice. -/
theorem afterVersion_late (answer : Except RequestFailure RuntimeDetails) :
    (w.afterVersion a answer).Goes (·.isLate = true) := by
  unfold afterVersion
  split
  · trivial
  · exact w.failStart_late a _
  · exact w.failStart_late a _

end

/-- A start that has recorded its runtime does not record another one. -/
theorem start_late {place : Starting} (h : place.isLate = true) :
    (w.start place).Goes (·.isLate = true) := by
  cases place with
  | joining | awaiting | clearing | preparing | recording => cases h
  | adopting a exe p => exact w.adoptProcess_late a exe p
  | launching a exe p l =>
    exact .bind (.of_forall fun _ => rfl) (w.launch_ledger p l)
      fun v outcome _ => v.afterLaunch_late a exe outcome
  | diagnosing a inquiry =>
    simp only [start]
    split
    · trivial
    · exact failStart_late _ a _
  | noting a details =>
    simp only [start]
    split <;> trivial
  | connecting a details connection deadline =>
    simp only [start]
    split
    · trivial
    · exact w.awaitConnection_late a details connection deadline
  | opening a c o =>
    simp only [start]
    split
    · trivial
    · refine .bind (.of_forall fun _ => rfl) (w.onClient_ledger c _) fun v result _ => ?_
      split
      · trivial
      · exact failStart_late _ a _
  | keeping a c => exact w.keepClient_late a c
  | asking a c request =>
    simp only [start]
    split
    · trivial
    · exact .bind (.of_forall fun _ => rfl) (w.onClient_ledger c _)
        fun v result _ => v.afterVersion_late a _
  | concluding a version =>
    simp only [start, conclude]
    split <;> trivial
  | failing a failure r =>
    exact .bind (.of_forall fun _ => rfl) (w.release_writes none _ r) fun v _ _ => trivial

/-- A start by name is for the runtime that the name picks. -/
theorem beginStart_isFor (h : w.ChoosesLike u) :
    (w.beginStart (some name)).Goes (·.IsFor u name P) := by
  by_cases hidle : w.status = .notStarted ∨ w.status = .failed
  · obtain ⟨v, hv, hbegin⟩ := w.beginStart_of_idle hidle (some name)
    rw [hbegin]
    have hsettings : v.settings = w.settings := by
      rw [hv, setStatus]
      split <;> rfl
    exact ⟨rfl, hsettings ▸ h.2⟩
  · unfold beginStart
    cases hs : w.status with
    | running | busy => trivial
    | starting => cases w.beginWait? <;> trivial
    | stopping =>
      cases w.beginWait? with
      | none => trivial
      | some p => rfl
    | notStarted => exact absurd (.inl hs) hidle
    | failed => exact absurd (.inr hs) hidle

/-- The runtime that is going to be recorded is the one for the name. -/
theorem chooseRuntime_isFor (h : w.ChoosesLike u) (a : Attempt)
    (ha : a.settings.additionalPaths = u.settings.additionalPaths) :
    (w.chooseRuntime a (some name)).Goes (·.IsFor u name P) := by
  have hchoice : (w.learn (w.choice a.settings (some name))).2 = u.pick name := h.choice_eq ha
  unfold chooseRuntime
  generalize w.learn (w.choice a.settings (some name)) = t at hchoice ⊢
  obtain ⟨v, exe⟩ := t
  cases exe with
  | none =>
    simp only [failStart]
    split <;> trivial
  | some exe => exact hchoice.symm

/-- A piece of a start for a name. -/
theorem start_isFor {place : Starting} (h : w.ChoosesLike u) (hplace : place.IsFor u name P)
    (hPQ : P → Q) (hrecord : ∀ a exe, place = .recording a exe → Q) :
    (w.start place).Goes (·.IsFor u name Q) := by
  -- Behind the record nothing is asked but that there was one.
  have hlate : place.isLate = true → P → (w.start place).Goes (·.IsFor u name Q) :=
    fun hlate hP => (start_late hlate).imp fun _ hs => .of_isLate hs (hPQ hP)
  cases place with
  | joining p => exact .bind (.of_forall fun _ => trivial) (w.wait_ledger p) fun _ _ _ => trivial
  | awaiting n p =>
    obtain rfl : n = some name := hplace
    refine .bind (.of_forall fun _ => rfl) (w.wait_ledger p) fun v _ hv => ?_
    exact beginStart_isFor ⟨(congrArg Ledger.config hv).trans h.1,
      (congrArg (·.settings.additionalPaths) hv).trans h.2⟩
  | clearing a n r =>
    exact .bind (.of_forall fun _ => hplace) (w.release_writes none _ r) fun _ _ _ => hplace
  | preparing a n step =>
    obtain ⟨rfl, ha⟩ := hplace
    cases step with
    | none => trivial
    | some result =>
      cases result with
      | error kind =>
        simp only [start, failStart]
        split <;> trivial
      | ok _ => exact chooseRuntime_isFor h a ha
  | recording a exe => exact hrecord a exe rfl
  | failing a failure r =>
    exact .bind (.of_forall fun _ => trivial) (w.release_writes none _ r) fun _ _ _ => trivial
  | adopting | launching | diagnosing | noting | connecting | opening | keeping | asking
    | concluding => exact hlate rfl hplace

end World

/-! ## What stays -/

/-- Settings and recorded runtime stay as they are, and no process comes into the session, unless
the call puts its own one there. -/
structure Steady (adopting : Prop) (l l' : Ledger) : Prop where
  config : l'.config = l.config
  settings : l'.settings = l.settings
  executable : l'.session.executable = l.session.executable
  process : l'.session.process ≠ none → l.session.process ≠ none ∨ adopting

namespace Steady

variable {A : Prop} {l l' l'' : Ledger}

theorem refl (A : Prop) (l : Ledger) : Steady A l l :=
  ⟨rfl, rfl, rfl, .inl⟩

/-- What is steady twice is steady. -/
theorem trans (h : Steady A l l') (h' : Steady A l' l'') : Steady A l l'' where
  config := h'.config.trans h.config
  settings := h'.settings.trans h.settings
  executable := h'.executable.trans h.executable
  process hp := (h'.process hp).elim h.process .inr

end Steady

/-- A posting keeps settings and choices. -/
theorem Posting.steady {own : Option Nat} {A : Prop} {l l' : Ledger} (h : Posting own l l') :
    Steady A l l' := by
  cases h with
  | takeLive => exact ⟨rfl, rfl, rfl, fun hp => absurd rfl hp⟩
  | _ => exact ⟨rfl, rfl, rfl, .inl⟩

/-- Postings that follow each other keep settings and choices. -/
theorem Postings.steady {own : Option Nat} {A : Prop} {l l' : Ledger} (h : Postings own l l') :
    Steady A l l' :=
  h.keeps (P := Steady A l) (fun _ _ hu hposting => hu.trans hposting.steady) (.refl A l)

/-- Nothing but a piece of a call changes settings or runtime. -/
theorem Change.steady {m : Move} {l l' : Ledger} (h : Change m l l')
    (hm : ∀ i, m ≠ .run (.call i)) : Steady False l l' := by
  cases h with
  | call hm' => exact absurd hm' (hm _)
  | release _ _ _ hl | report _ _ _ hl =>
    have hsteady : Steady False l _ := hl.steady
    exact ⟨hsteady.config, hsteady.settings, hsteady.executable, hsteady.process⟩
  | _ => exact ⟨rfl, rfl, rfl, .inl⟩

namespace World

variable {u v w : World} {name : String} {A P Q : Prop}

/-- Worlds choose alike as long as all is steady. -/
theorem ChoosesLike.of_steady (h : w.ChoosesLike u) (hs : Steady A w.ledger v.ledger) :
    v.ChoosesLike u :=
  ⟨hs.config.trans h.1, (congrArg Settings.additionalPaths hs.settings).trans h.2⟩

/-- A part of a call that announces nothing. -/
theorem beginPhase_steady (w : World) {p : Phase} (h : ∀ name, p ≠ .announce name) :
    (w.beginPhase p).Ends fun v => Steady A w.ledger v.ledger := by
  cases p with
  | announce name => exact absurd rfl (h name)
  | stop => exact w.beginStop_writes.bind (fun _ => Postings.steady) fun _ _ => Postings.steady
  | start name =>
    exact (w.beginStart_writes name).bind (fun _ => Postings.steady) fun _ _ => Postings.steady
  | settle => exact ⟨rfl, rfl, rfl, .inl⟩

/-- What a call leaves as it is while it announces nothing. -/
theorem runPhases_steady (w : World) {next : List Phase} (h : ∀ name, .announce name ∉ next) :
    (w.runPhases next).Ends fun v => Steady A w.ledger v.ledger := by
  refine w.runPhases_ends (R := fun u v => Steady A u.ledger v.ledger) (fun _ => .refl _ _)
    .trans fun p hp v => ?_
  exact v.beginPhase_steady fun name heq => h name (heq ▸ hp)

/-- The runtime is recorded, and nothing else is changed that a runtime is chosen by. -/
theorem call_runtime {job : Job} {exe : Executable} (h : job.runtime? = some exe) :
    (w.call job).Ends fun v => v.ledger.config = w.config ∧ v.ledger.settings = w.settings ∧
      v.ledger.session.executable = some exe := by
  unfold Job.runtime? at h
  split at h
  · cases h
    exact ⟨rfl, rfl, rfl⟩
  · cases h

/-- Every piece of a start is steady, but the one that records its runtime. -/
theorem start_steady {place : Starting} (h : ∀ a exe, place ≠ .recording a exe) :
    (w.start place).Ends fun v =>
      Steady (∃ a exe p, place = .adopting a exe p) w.ledger v.ledger := by
  refine (w.start_writes place).imp fun v hv => ?_
  obtain ⟨m, hm, hpostings⟩ := hv
  refine Steady.trans ?_ hpostings.steady
  rcases hm with rfl | hstore
  · exact .refl _ _
  · cases hstore with
    | record => exact absurd rfl (h _ _)
    | adopt => exact ⟨rfl, rfl, rfl, fun _ => .inr ⟨_, _, _, rfl⟩⟩
    | note | keep | conclude => exact ⟨rfl, rfl, rfl, .inl⟩

/-! ## Calls -/

/-- Where a piece of a part of a call leads, and the parts that follow it. -/
theorem call_phased_goes {place : PhasePlace} {next : List Phase} {R : World → Prop}
    {S : Job → Prop} (hgoes : (w.phase place).Goes fun place' => S (.phased place' next))
    (hends : (w.phase place).Ends R) (hnext : ∀ v, R v → (v.runPhases next).Goes S) :
    (w.call (.phased place next)).Goes S := by
  rw [call_phased]
  refine .bind hgoes hends fun v r hv => ?_
  cases r with
  | done => exact hnext v hv
  | aborted => trivial

/-- Once the session is stopped, the call starts for its name. -/
theorem runPhases_start_isFor (h : w.ChoosesLike u) :
    (w.runPhases [.start (some name), .settle]).Goes (Job.IsFor u name P) := by
  have hbegin : (w.beginStart (some name)).Goes (·.IsFor u name P) := beginStart_isFor h
  simp only [runPhases, beginPhase]
  cases hstart : w.beginStart (some name) with
  | blocked => trivial
  | going v place =>
    rw [hstart] at hbegin
    exact ⟨rfl, hbegin⟩
  | finished v result => cases result <;> trivial

/-- A change of the default runtime announces it, and goes on with a restart for the name. -/
theorem change_isFor (h : w.ChoosesLike u) :
    (w.call (.fresh (.changeDefault name))).Goes (Job.IsFor u name P) := by
  have hsettings : (w.announceDefault name).settings =
      { w.settings with defaultVersion := some name } :=
    congrArg Ledger.settings (w.ledger_announceDefault name)
  have hconfig : (w.announceDefault name).config = w.config :=
    congrArg Ledger.config (w.ledger_announceDefault name)
  have hannounced : (w.announceDefault name).ChoosesLike u :=
    ⟨hconfig.trans h.1, (congrArg Settings.additionalPaths hsettings).trans h.2⟩
  have hwrites := (w.announceDefault name).beginStop_writes
  change ((w.announceDefault name).runPhases [.stop, .start (some name), .settle]).Goes _
  rw [runPhases, beginPhase]
  cases hstop : (w.announceDefault name).beginStop with
  | blocked => trivial
  | going v place => rfl
  | finished v result =>
    rw [hstop] at hwrites
    cases result with
    | done => exact runPhases_start_isFor (hannounced.of_steady (Postings.steady (A := P) hwrites))
    | aborted => trivial

/-- What the first piece of a change leaves as it is, once it has announced. -/
theorem change_steady :
    (w.call (.fresh (.changeDefault name))).Ends fun v =>
      Steady A { w.ledger with
        changing := true, settings := { w.settings with defaultVersion := some name } }
        v.ledger := by
  rw [← ledger_announceDefault]
  exact (w.announceDefault name).runPhases_steady (by simp)

/-- A restart for a name goes on. -/
theorem call_isFor {job : Job} (h : w.ChoosesLike u) (hjob : job.IsFor u name P) (hPQ : P → Q)
    (hrecord : ∀ exe, job.runtime? = some exe → Q) :
    (w.call job).Goes (Job.IsFor u name Q) := by
  cases job with
  | phased place next =>
    cases place with
    | stopping p =>
      obtain rfl : next = _ := hjob
      have hends : (w.phase (.stopping p)).Ends (·.ChoosesLike u) :=
        (w.stop_writes p).bind (fun v hv => h.of_steady (Postings.steady (A := P) hv))
          fun v _ hv => h.of_steady (Postings.steady (A := P) hv)
      have hgoes : (w.phase (.stopping p)).Goes fun place =>
          (Job.phased place [.start (some name), .settle]).IsFor u name Q :=
        .bind (.of_forall fun _ => rfl) (w.stop_writes p) fun _ _ _ => trivial
      exact call_phased_goes hgoes hends fun v hv => runPhases_start_isFor hv
    | starting p =>
      obtain ⟨rfl, hplace⟩ := hjob
      have hstart : (w.start p).Goes (·.IsFor u name Q) :=
        start_isFor h hplace hPQ fun a exe hp => hrecord exe (by rw [hp]; rfl)
      have hgoes : (w.phase (.starting p)).Goes fun place =>
          (Job.phased place [.settle]).IsFor u name Q :=
        .bind (hstart.imp fun _ hs => ⟨rfl, hs⟩) (w.start_writes p) fun _ _ _ => trivial
      exact call_phased_goes (R := fun _ => True) hgoes
        ((w.start_writes p).bind (fun _ _ => trivial) fun _ _ _ => trivial) fun _ _ => trivial
  | _ => cases hjob

/-- Only a record changes the runtime, and only a start that has recorded its runtime puts a
process into the session. -/
theorem call_steady {job : Job} (hjob : job.IsFor u name P) (hnone : job.runtime? = none) :
    (w.call job).Ends fun v => Steady (job.isAdopting = true) w.ledger v.ledger := by
  cases job with
  | phased place next =>
    have hphase : (w.phase place).Ends fun v =>
        Steady ((Job.phased place next).isAdopting = true) w.ledger v.ledger := by
      cases place with
      | stopping p =>
        exact (w.stop_writes p).bind (fun _ => Postings.steady) fun _ _ => Postings.steady
      | starting p =>
        have hsteady : (w.start p).Ends fun v =>
            Steady ((Job.phased (.starting p) next).isAdopting = true) w.ledger v.ledger := by
          refine (start_steady fun a exe hp => ?_).imp fun v hv => ?_
          · subst hp
            cases hnone
          · refine ⟨hv.config, hv.settings, hv.executable, fun hp => (hv.process hp).imp id ?_⟩
            rintro ⟨a, exe, q, rfl⟩
            rfl
        exact hsteady.bind (fun _ => id) fun _ _ => id
    have hnext : ∀ name, .announce name ∉ next := by
      cases place with
      | stopping p =>
        obtain rfl : next = _ := hjob
        simp
      | starting p =>
        obtain ⟨rfl, -⟩ := hjob
        simp
    exact w.call_phased_ends hphase fun v hv =>
      (v.runPhases_steady hnext).imp fun x hx => Steady.trans hv hx
  | _ => cases hjob

/-- The file system's work for a restart for a name. -/
theorem performJob_isFor {job job' : Job} (h : w.performJob job = some (v, job'))
    (hjob : job.IsFor u name P) : job'.IsFor u name P := by
  cases performJob_prepares h with
  | startFolder | startLaunch _ => exact hjob
  | _ => cases hjob

end World

end SessionHost
