import SessionHost.Proofs.Ledger.Ledger
import SessionHost.Proofs.Lifecycle.Consistency

/-!
# Postings into the ledger

A piece of a call, from one suspension point to the next, writes into the ledger at most one thing
that its start stores, and after it a chain of other postings: it takes things out of the session,
claims, or ends what it has claimed.

Main definitions:

- `Store`: what a start stores at a place.
- `Posting`, `Postings`: the other postings, and the chains of them.
- `Amendment`, `Writings`: changes of the settings, and chains of these and of postings.
- `Job.Writes`: what a piece of a call writes.

Main results:

- Theorem `World.start_writes`: what a piece of a start writes.
- Theorem `World.call_writes`: what a piece of a call writes.
-/

namespace SessionHost

/-! ## Postings -/

/-- What a start stores at a place, behind the session's lock. -/
inductive Store (l : Ledger) : Starting → Ledger → Prop where
  | record {a : Attempt} {exe : Executable} :
      Store l (.recording a exe) { l with session := { l.session with executable := some exe } }
  | adopt {a : Attempt} {exe : Executable} {p : Nat} (h : .start a.generation ∉ l.cancelled)
      {watches : List Watch}
      (hw : ∀ x ∈ watches, x.generation = a.generation ∧ x.place = .waiting) :
      Store l (.adopting a exe p)
        { l with
          session := { l.session with process := some ⟨a.generation, p⟩ }
          watches := l.watches ++ watches }
  | note {a : Attempt} {d : StartedSession} (h : .start a.generation ∉ l.cancelled) :
      Store l (.noting a d)
        { l with session := { l.session with details := some ⟨a.generation, d⟩ } }
  | keep {a : Attempt} {c : Nat} (h : .start a.generation ∉ l.cancelled) :
      Store l (.keeping a c)
        { l with
          session := { l.session with client := some ⟨a.generation, c⟩ }
          pumps := l.pumps ++ [{ client := c, generation := a.generation }] }
  | conclude {a : Attempt} {v : RuntimeDetails} (h : .start a.generation ∉ l.cancelled) :
      Store l (.concluding a v)
        { l with session := { l.session with version := some ⟨a.generation, v⟩ } }

/-- Everything else that an activity may write; `own` is the generation that it has claimed. -/
inductive Posting (own : Option Nat) (l : Ledger) : Ledger → Prop where
  | callOff (p : Nat) : Posting own l { l with cancelled := l.cancelled ++ [.debug p] }
  | setDebug (d : Option Nat) : Posting own l { l with session := { l.session with debug := d } }
  | takeLive : Posting own l { l with session := l.session.withoutLive }
  | claimStart (h : l.status = .notStarted ∨ l.status = .failed) :
      Posting own l
        { l with
          generation := l.generation + 1
          status := .starting
          news := l.news ++ [.statusChanged (l.generation + 1) .starting] }
  | claimStop (h : l.status ≠ .notStarted) (h' : l.status ≠ .stopping) :
      Posting own l
        { l with
          status := .stopping
          cancelled := l.cancelled ++ [.start l.generation]
          news := l.news ++ [.statusChanged l.generation .stopping] }
  | endStop (h : l.status = .stopping) :
      Posting own l
        { l with
          status := .notStarted
          news := l.news ++ [.statusChanged l.generation .notStarted] }
  | run (h : own = some l.generation) (hs : l.status = .starting) :
      Posting own l
        { l with
          status := .running
          news := l.news ++ [.statusChanged l.generation .running, .started l.generation] }
  | fail (h : own = some l.generation) (hs : l.status = .starting) (notice : Notice) :
      Posting own l
        { l with
          status := .failed
          news := l.news ++ [.statusChanged l.generation .failed, .failed l.generation notice] }

/-- What a caller changes of the settings. -/
inductive Amendment (l : Ledger) : Ledger → Prop where
  | announce (name : String) :
      Amendment l
        { l with changing := true, settings := { l.settings with defaultVersion := some name } }
  | settle : Amendment l { l with changing := false }
  | update (s : Settings) : Amendment l { l with settings := s }

/-- A chain of postings. -/
def Postings (own : Option Nat) : Ledger → Ledger → Prop := Relation.ReflTransGen (Posting own)

namespace Postings

variable {own : Option Nat} {l l' l'' : Ledger}

theorem refl (own : Option Nat) (l : Ledger) : Postings own l l :=
  Relation.ReflTransGen.refl

theorem of_eq (h : l' = l) : Postings own l l' :=
  h ▸ refl own l

/-- One posting is a chain. -/
theorem posting (h : Posting own l l') : Postings own l l' :=
  Relation.ReflTransGen.single h

/-- Chains of postings are put together. -/
theorem trans (h : Postings own l l') (h' : Postings own l' l'') : Postings own l l'' :=
  Relation.ReflTransGen.trans h h'

/-- What every posting keeps is kept by a chain. -/
theorem keeps {P : Ledger → Prop} (h : Postings own l l') (hP : ∀ u v, P u → Posting own u v → P v)
    (hl : P l) : P l' := by
  induction h with
  | refl => exact hl
  | tail _ hposting ih => exact hP _ _ ih hposting

/-- Postings that nobody owns may stand in every chain. -/
theorem of_none (h : Postings none l l') (own : Option Nat) : Postings own l l' := by
  refine h.keeps (P := Postings own l) (fun u v hu hposting => hu.trans (posting ?_)) (refl own l)
  cases hposting with
  | run h hs => cases h
  | fail h hs notice => cases h
  | callOff p => exact .callOff p
  | setDebug d => exact .setDebug d
  | takeLive => exact .takeLive
  | claimStart h => exact .claimStart h
  | claimStop h h' => exact .claimStop h h'
  | endStop h => exact .endStop h

end Postings

/-- A chain of postings and changes of the settings. -/
def Writings (own : Option Nat) : Ledger → Ledger → Prop :=
  Relation.ReflTransGen fun l l' => Posting own l l' ∨ Amendment l l'

namespace Writings

variable {own : Option Nat} {l l' l'' : Ledger}

theorem refl (own : Option Nat) (l : Ledger) : Writings own l l :=
  Relation.ReflTransGen.refl

/-- One posting is a chain of writings. -/
theorem posting (h : Posting own l l') : Writings own l l' :=
  Relation.ReflTransGen.single (.inl h)

theorem of_eq (h : l' = l) : Writings own l l' :=
  h ▸ refl own l

/-- One change of the settings is a chain of writings. -/
theorem amendment (h : Amendment l l') : Writings own l l' :=
  Relation.ReflTransGen.single (.inr h)

/-- Chains of writings are put together. -/
theorem trans (h : Writings own l l') (h' : Writings own l' l'') : Writings own l l'' :=
  Relation.ReflTransGen.trans h h'

/-- Postings are writings. -/
theorem of_postings (h : Postings own l l') : Writings own l l' :=
  h.keeps (P := Writings own l) (fun _ _ hu hposting => hu.trans (posting hposting)) (refl own l)

/-- What postings and changes of the settings keep is kept by a chain. -/
theorem keeps {P : Ledger → Prop} (h : Writings own l l')
    (hP : ∀ u v, P u → Posting own u v → P v) (hA : ∀ u v, P u → Amendment u v → P v)
    (hl : P l) : P l' := by
  induction h with
  | refl => exact hl
  | tail _ hstep ih =>
    rcases hstep with hposting | hamendment
    · exact hP _ _ ih hposting
    · exact hA _ _ ih hamendment

/-- A chain that nobody owns may stand in every other one. -/
theorem of_none (h : Writings none l l') (own : Option Nat) : Writings own l l' :=
  h.keeps (P := Writings own l)
    (fun _ _ hu hposting => hu.trans (of_postings ((Postings.posting hposting).of_none own)))
    (fun _ _ hu hamendment => hu.trans (amendment hamendment)) (refl own l)

end Writings

/-- The generation that a start has claimed. -/
def Starting.generation? (place : Starting) : Option Nat := place.attempt?.map Attempt.generation

/-- What a piece of a start writes. -/
def Starting.Writes (place : Starting) (l l' : Ledger) : Prop :=
  ∃ m, (m = l ∨ Store l place m) ∧ Postings place.generation? m l'

/-- The generation that a call has claimed. -/
def Job.generation? : Job → Option Nat
  | .phased (.starting place) _ => place.generation?
  | _ => none

/-- What a piece of a call writes. -/
def Job.Writes (job : Job) (l l' : Ledger) : Prop :=
  ∃ m, (m = l ∨ ∃ place next, job = .phased (.starting place) next ∧ Store l place m) ∧
    Writings job.generation? m l'

namespace Starting.Writes

variable {place : Starting} {l l' l'' : Ledger}

/-- A start may write what is posted in its name. -/
theorem of_postings (h : Postings place.generation? l l') : place.Writes l l' :=
  ⟨l, .inl rfl, h⟩

theorem of_eq (h : l' = l) : place.Writes l l' :=
  of_postings (.of_eq h)

/-- A start may store what belongs to its place. -/
theorem of_store (h : Store l place l') : place.Writes l l' :=
  ⟨l', .inr h, .refl _ _⟩

/-- What a start writes may be followed by postings in its name. -/
theorem andPostings (h : place.Writes l l') (h' : Postings place.generation? l' l'') :
    place.Writes l l'' := by
  obtain ⟨m, hm, hpostings⟩ := h
  exact ⟨m, hm, hpostings.trans h'⟩

end Starting.Writes

/-- A call may write what nobody owns. -/
theorem Job.Writes.of_writings {job : Job} {l l' : Ledger} (h : Writings none l l') :
    job.Writes l l' :=
  ⟨l, .inl rfl, h.of_none _⟩

/-- A call may post what nobody owns. -/
theorem Job.Writes.of_postings {job : Job} {l l' : Ledger} (h : Postings none l l') :
    job.Writes l l' :=
  of_writings (.of_postings h)

theorem Job.Writes.of_eq {job : Job} {l l' : Ledger} (h : l' = l) : job.Writes l l' :=
  of_postings (.of_eq h)

/-! ## Wherever a piece leads -/

/-- Wherever a piece leads, with the place or the result that it has there. -/
def Progress.Gives {ω σ α : Type} (p : Progress ω σ α) (P : ω → σ → Prop) (Q : ω → α → Prop) :
    Prop :=
  match p with
  | .blocked => True
  | .going w s => P w s
  | .finished w a => Q w a

/-- What a piece gives when it is a part of a larger one. -/
theorem Progress.Gives.andThen {ω σ τ α β : Type} {p : Progress ω σ α} {P : ω → σ → Prop}
    {Q : ω → α → Prop} {P' : ω → τ → Prop} {Q' : ω → β → Prop} {wrap : σ → τ}
    {next : ω → α → Progress ω τ β} (h : p.Gives P Q) (hwrap : ∀ w s, P w s → P' w (wrap s))
    (hnext : ∀ w a, Q w a → (next w a).Gives P' Q') : (p.andThen wrap next).Gives P' Q' := by
  cases p with
  | blocked => trivial
  | going w s => exact hwrap w s h
  | finished w a => exact hnext w a h

/-- What holds at every end of a piece is given with every place and result. -/
theorem Progress.Ends.gives {ω σ α : Type} {p : Progress ω σ α} {P : ω → Prop} (h : p.Ends P) :
    p.Gives (fun w _ => P w) fun w _ => P w :=
  h

namespace World

variable (w : World)

/-! ## Stops -/

/-- A stop claims the status, and calls off whatever the present generation does. -/
theorem beginStop_writes : w.beginStop.Ends fun v => Postings none w.ledger v.ledger := by
  have hclaim (h : w.status ≠ .notStarted) (h' : w.status ≠ .stopping) :
      Postings none w.ledger ((w.setStatus .stopping).cancel (.start w.generation)).ledger := by
    have hposting : Posting none w.ledger _ := .claimStop h h'
    rw [show ((w.setStatus .stopping).cancel (.start w.generation)).ledger =
      { (w.setStatus .stopping).ledger with
        cancelled := (w.setStatus .stopping).ledger.cancelled ++ [.start w.generation] } from rfl,
      w.ledger_setStatus h']
    exact .posting hposting
  unfold beginStop
  cases hs : w.status with
  | notStarted => exact .refl _ _
  | stopping => cases w.beginWait? <;> exact .refl _ _
  | _ => exact hclaim (by rw [hs]; nofun) (by rw [hs]; nofun)

/-- Ending a debug process calls its launch off. -/
theorem endDebugProcess_writes (p : Nat) :
    Postings none w.ledger (w.endDebugProcess p).ledger := by
  unfold endDebugProcess
  rw [ledger_dispose]
  exact .posting (.callOff p)

/-- The room is emptied, and the launch called off. -/
theorem endDebug_writes : Postings none w.ledger w.endDebug.ledger := by
  unfold endDebug
  split
  · rename_i p _
    let u : World := { w with session := { w.session with debug := none } }
    have hempty : Postings none w.ledger u.ledger := .posting (.setDebug none)
    exact hempty.trans (u.endDebugProcess_writes p)
  · exact .refl _ _

/-- A stop ends where nothing is under way. -/
theorem finishStop_writes (p d : Option Nat) :
    (w.finishStop p d).Ends fun v => Postings none w.ledger v.ledger := by
  have hend : ∀ v : World, Postings none v.ledger
      ((v.disposeAny p).transition (v.disposeAny p).generation
        [.stopping] .notStarted).1.ledger := by
    intro v
    generalize hu : v.disposeAny p = u
    have hledger : u.ledger = v.ledger := hu ▸ v.ledger_disposeAny p
    rw [← hledger]
    by_cases hs : u.status = .stopping
    · rw [u.transition_of ⟨rfl, by simp [hs]⟩, u.ledger_setStatus (by rw [hs]; nofun)]
      exact .posting (.endStop hs)
    · rw [u.transition_of_not (by simpa using hs)]
      exact .refl _ _
  cases d with
  | none => exact hend w
  | some d => exact (w.endDebugProcess_writes d).trans (hend _)

/-- What a piece of a stop writes. -/
theorem stop_writes (place : Stopping) :
    (w.stop place).Ends fun v => Postings none w.ledger v.ledger := by
  cases place with
  | waiting p => exact (w.wait_ledger p).bind (fun v => .of_eq) fun v _ => .of_eq
  | endingDebug => exact w.endDebug_writes
  | taking =>
    let u : World := { w with session := { w.session.withoutLive with debug := none } }
    have htake : Postings none w.ledger u.ledger :=
      (Postings.posting .takeLive).trans (.posting (.setDebug none))
    have hfinish : (u.finishStop (w.session.process.map Stored.value) w.session.debug).Ends
        fun v => Postings none w.ledger v.ledger :=
      (u.finishStop_writes _ _).imp fun v hv => htake.trans hv
    simp only [stop]
    split
    · exact hfinish
    · split
      · exact hfinish
      · exact htake
  | closing c p d s =>
    refine (w.onClient_ledger c _).bind (fun v => .of_eq) fun v _ hv => ?_
    rw [← hv]
    exact v.finishStop_writes p d

/-! ## Starts -/

/-- Taking the live parts away empties the session, or changes nothing. -/
theorem release_writes (own : Option Nat) (g : Nat) (place : Release) :
    (w.release g place).Ends fun v => Postings own w.ledger v.ledger := by
  cases place with
  | taking =>
    have htake : Postings own w.ledger
        { w with session := w.session.withoutLive }.ledger := .posting .takeLive
    simp only [release]
    split
    · exact .refl _ _
    · split
      · exact htake.trans (.of_eq (ledger_disposeAny _ _))
      · split
        · exact htake.trans (.of_eq (ledger_disposeAny _ _))
        · exact htake
  | closing c p s =>
    refine (w.onClient_ledger c _).bind (fun v => .of_eq) fun v _ hv => ?_
    exact .of_eq ((v.ledger_disposeAny p).trans hv)

/-- A start's claim is one posting. -/
theorem claimStart_writes {v : World} (h : w.status = .notStarted ∨ w.status = .failed)
    (hv : v.ledger = { w.ledger with generation := w.generation + 1 }) :
    Postings none w.ledger (v.setStatus .starting).ledger := by
  have hs : v.status = w.status := congrArg Ledger.status hv
  have hg : v.generation = w.generation + 1 := congrArg Ledger.generation hv
  have hne : v.status ≠ .starting := by
    rw [hs]
    rcases h with h | h <;> rw [h] <;> nofun
  rw [v.ledger_setStatus hne, hv, hg]
  exact .posting (.claimStart h)

/-- A start that finds nothing under way claims the next generation. -/
theorem beginStart_of_idle (h : w.status = .notStarted ∨ w.status = .failed)
    (name : Option String) :
    ∃ v : World, v = { w with generation := w.generation + 1 }.setStatus .starting ∧
      w.beginStart name = .going v (.clearing ⟨v.generation, v.settings⟩ name .taking) := by
  refine ⟨_, rfl, ?_⟩
  rcases h with h | h <;> simp only [beginStart, h]

/-- A start claims a generation, or leaves the ledger alone. -/
theorem beginStart_writes (name : Option String) :
    (w.beginStart name).Ends fun v => Postings none w.ledger v.ledger := by
  by_cases hidle : w.status = .notStarted ∨ w.status = .failed
  · obtain ⟨v, rfl, hbegin⟩ := w.beginStart_of_idle hidle name
    rw [hbegin]
    exact w.claimStart_writes hidle rfl
  · unfold beginStart
    cases hs : w.status with
    | running => exact .refl _ _
    | busy => exact .refl _ _
    | starting => cases w.beginWait? <;> exact .refl _ _
    | stopping => cases w.beginWait? <;> exact .refl _ _
    | notStarted => exact absurd (.inl hs) hidle
    | failed => exact absurd (.inr hs) hidle

/-- A failure is written down later, when everything has been taken away. -/
theorem failStart_ledger (a : Attempt) (failure : SessionFailure) :
    (w.failStart a failure).Ends (·.ledger = w.ledger) :=
  (w.failStart_chore a failure).imp fun _ => Chore.ledger

/-- The outcome of a launch is not written down yet. -/
theorem afterLaunch_ledger (a : Attempt) (exe : Executable) (outcome : LaunchOutcome) :
    (w.afterLaunch a exe outcome).Ends (·.ledger = w.ledger) :=
  (w.afterLaunch_chore a exe outcome).imp fun _ => Chore.ledger

/-- The choice of a runtime is not written down yet. -/
theorem chooseRuntime_ledger (a : Attempt) (name : Option String) :
    (w.chooseRuntime a name).Ends (·.ledger = w.ledger) :=
  (w.chooseRuntime_chore a name).imp fun _ => Chore.ledger

/-- A wait for the connection writes nothing. -/
theorem awaitConnection_ledger (a : Attempt) (d : StartedSession) (connection deadline : Nat) :
    (w.awaitConnection a d connection deadline).Ends (·.ledger = w.ledger) := by
  unfold awaitConnection
  simp only []
  split
  · simp only [openClient]
    split
    · trivial
    · rfl
  · exact w.failStart_ledger a _
  · split
    · exact w.failStart_ledger a _
    · trivial

/-- An answer about the version writes nothing by itself. -/
theorem afterVersion_ledger (a : Attempt) (answer : Except RequestFailure RuntimeDetails) :
    (w.afterVersion a answer).Ends (·.ledger = w.ledger) :=
  (w.afterVersion_chore a answer).imp fun _ => Chore.ledger

/-- A start stores something, unless it was called off. -/
theorem storeUnlessCancelled_cases (a : Attempt) (update : Session → Session) :
    w.storeUnlessCancelled a update = none ∨
      .start a.generation ∉ w.ledger.cancelled ∧
        w.storeUnlessCancelled a update = some { w with session := update w.session } := by
  unfold storeUnlessCancelled
  by_cases hc : w.isCancelled (.start a.generation) = true
  · exact .inl (if_pos hc)
  · refine .inr ⟨?_, if_neg hc⟩
    change .start a.generation ∉ w.cancelled
    simpa [isCancelled] using hc

/-- At most one watch more, which waits. -/
theorem watchExit_ledger (a : Attempt) (p : Nat) (name : String) :
    ∃ watches : List Watch,
      (∀ x ∈ watches, x.generation = a.generation ∧ x.place = .waiting) ∧
        (w.watchExit a p name).ledger =
          { w.ledger with watches := w.ledger.watches ++ watches } := by
  have hnone : w.ledger = { w.ledger with watches := w.ledger.watches ++ [] } := by simp
  unfold watchExit
  split
  · split
    · exact ⟨[], by simp, hnone⟩
    · exact ⟨[{ process := p, generation := a.generation, name }], by simp, rfl⟩
  · exact ⟨[], by simp, hnone⟩

/-- A start stores its process with the watch over it. -/
theorem adoptProcess_writes (a : Attempt) (exe : Executable) (p : Nat) :
    (w.adoptProcess a exe p).Ends fun v =>
      (Starting.adopting a exe p).Writes w.ledger v.ledger := by
  unfold adoptProcess
  rcases w.storeUnlessCancelled_cases a fun s => { s with process := some ⟨a.generation, p⟩ } with
    hnone | ⟨hc, hsome⟩
  · rw [hnone]
    exact .of_eq (w.ledger_dispose p)
  · rw [hsome]
    let u : World := { w with session := { w.session with process := some ⟨a.generation, p⟩ } }
    obtain ⟨watches, hw, hu⟩ := u.watchExit_ledger a p exe.name
    have hstore :
        (Starting.adopting a exe p).Writes w.ledger (u.watchExit a p exe.name).ledger := by
      rw [hu]
      exact .of_store (.adopt hc hw)
    refine (beginLaunch_ledger _ p).bind (fun v hv => hv ▸ hstore) fun v outcome hv => ?_
    exact (v.afterLaunch_ledger a exe outcome).imp fun v' hv' => hv'.trans hv ▸ hstore

/-- A start stores its client with the pump that hears it. -/
theorem keepClient_writes (a : Attempt) (c : Nat) :
    (w.keepClient a c).Ends fun v => (Starting.keeping a c).Writes w.ledger v.ledger := by
  unfold keepClient
  rcases w.storeUnlessCancelled_cases a fun s => { s with client := some ⟨a.generation, c⟩ } with
    hnone | ⟨hc, hsome⟩
  · rw [hnone]
    exact .of_eq (w.ledger_abandonClient c)
  · rw [hsome]
    simp only []
    split
    · trivial
    · exact .of_store (.keep hc)

/-- The end of a start that runs, if the status is still its own. -/
theorem runStart_writes (g : Nat) {v : World} {moved : Bool}
    (h : w.transition g [.starting] .running = (v, moved)) :
    Postings (some g) w.ledger (if moved then v.record (.started g) else v).ledger := by
  by_cases hmove : w.generation = g ∧ w.status ∈ [.starting]
  · rw [w.transition_of hmove] at h
    cases h
    obtain ⟨rfl, hs⟩ := hmove
    have hstarting : w.status = .starting := by simpa using hs
    rw [if_pos rfl, w.ledger_setStatus_record (by rw [hstarting]; nofun) rfl]
    exact .posting (.run rfl hstarting)
  · rw [w.transition_of_not hmove] at h
    cases h
    exact .refl _ _

/-- The end of a start that has failed, if the status is still its own. -/
theorem endFailedStart_writes (a : Attempt) (failure : SessionFailure) :
    (w.endFailedStart a failure).Ends fun v =>
      Postings (some a.generation) w.ledger v.ledger := by
  unfold endFailedStart
  generalize a.generation = g
  by_cases hmove : w.generation = g ∧ w.status ∈ [.starting]
  · rw [w.transition_of hmove]
    obtain ⟨rfl, hs⟩ := hmove
    have hstarting : w.status = .starting := by simpa using hs
    change Postings _ _ ((w.setStatus .failed).record _).ledger
    rw [w.ledger_setStatus_record (by rw [hstarting]; nofun) rfl]
    have hfail : Posting (some w.ledger.generation) w.ledger _ :=
      .fail rfl hstarting failure.notice
    exact .posting hfail
  · rw [w.transition_of_not hmove]
    exact .refl _ _

/-- A start stores its version and runs, or finds itself called off. -/
theorem conclude_writes (a : Attempt) (version : RuntimeDetails) :
    (w.conclude a version).Ends fun v =>
      (Starting.concluding a version).Writes w.ledger v.ledger := by
  unfold conclude
  rcases w.storeUnlessCancelled_cases a
    fun s => { s with version := some ⟨a.generation, version⟩ } with hnone | ⟨hc, hsome⟩
  · rw [hnone]
    exact .of_eq rfl
  · rw [hsome]
    let u : World :=
      { w with session := { w.session with version := some ⟨a.generation, version⟩ } }
    have hstore : (Starting.concluding a version).Writes w.ledger u.ledger :=
      .of_store (.conclude hc)
    exact hstore.andPostings (u.runStart_writes a.generation rfl)

/-- What a piece of a start writes. -/
theorem start_writes (place : Starting) :
    (w.start place).Ends fun v => place.Writes w.ledger v.ledger := by
  cases place with
  | joining p => exact (w.wait_ledger p).bind (fun v => .of_eq) fun v _ => .of_eq
  | awaiting name p =>
    refine (w.wait_ledger p).bind (fun v => .of_eq) fun v _ hv => ?_
    rw [← hv]
    exact (v.beginStart_writes name).imp fun u hu => .of_postings hu
  | clearing a name r =>
    exact (w.release_writes _ _ r).bind (fun v => .of_postings) fun v _ => .of_postings
  | preparing a name step =>
    cases step with
    | none => trivial
    | some result =>
      cases result with
      | error kind => exact (w.failStart_ledger a _).imp fun v => .of_eq
      | ok _ => exact (w.chooseRuntime_ledger a name).imp fun v => .of_eq
  | recording a exe => exact .of_store .record
  | adopting a exe p => exact w.adoptProcess_writes a exe p
  | launching a exe p l =>
    refine (w.launch_ledger p l).bind (fun v => .of_eq) fun v outcome hv => ?_
    exact (v.afterLaunch_ledger a exe outcome).imp fun u hu => .of_eq (hu.trans hv)
  | diagnosing a inquiry =>
    simp only [start]
    split
    · trivial
    · exact (failStart_ledger _ a _).imp fun v hv => .of_eq (hv.trans (w.ledger_diagnosis _))
  | noting a details =>
    simp only [start]
    rcases w.storeUnlessCancelled_cases a
      fun s => { s with details := some ⟨a.generation, details⟩ } with hnone | ⟨hc, hsome⟩
    · rw [hnone]
      exact .of_eq rfl
    · rw [hsome]
      have hstore : (Starting.noting a details).Writes w.ledger _ := .of_store (.note hc)
      simp only [connect]
      rw [Progress.Ends, ledger_record _ rfl]
      exact hstore
  | connecting a details connection deadline =>
    simp only [start]
    split
    · exact .of_eq rfl
    · exact (w.awaitConnection_ledger a details connection deadline).imp fun v => .of_eq
  | opening a c s =>
    simp only [start]
    split
    · exact .of_eq (w.ledger_abandonClient c)
    · refine (w.onClient_ledger c _).bind (fun v => .of_eq) fun v result hv => ?_
      split
      · exact .of_eq hv
      · refine ((v.abandonClient c).failStart_ledger a _).imp fun u hu => .of_eq ?_
        rw [hu, ledger_abandonClient, hv]
  | keeping a c => exact w.keepClient_writes a c
  | asking a c request =>
    simp only [start]
    split
    · exact .of_eq rfl
    · refine (w.onClient_ledger c _).bind (fun v => .of_eq) fun v result hv => ?_
      exact (v.afterVersion_ledger a _).imp fun u hu => .of_eq (hu.trans hv)
  | concluding a version => exact w.conclude_writes a version
  | failing a failure r =>
    refine (w.release_writes _ _ r).bind (fun v => .of_postings) fun v _ hv => ?_
    exact (v.endFailedStart_writes a failure).imp fun u hu => .of_postings (hv.trans hu)

/-! ## Debug sessions -/

/-- A debug session writes nothing while it chooses. -/
theorem chooseForDebug_ledger (s : Settings) (name : Option String) :
    (w.chooseForDebug s name).Ends (·.ledger = w.ledger) :=
  (w.chooseForDebug_chore s name).imp fun _ => Chore.ledger

/-- The outcome of its launch is not written down. -/
theorem afterDebugLaunch_ledger (exe : Executable) (p : Nat) (outcome : LaunchOutcome) :
    (w.afterDebugLaunch exe p outcome).Ends (·.ledger = w.ledger) :=
  (w.afterDebugLaunch_chore exe p outcome).imp fun _ => Chore.ledger

/-- A debug process is put into its room, and what was there is taken out. -/
theorem installDebug_writes (exe : Executable) (p : Nat) :
    (w.installDebug exe p).Ends fun v => Postings none w.ledger v.ledger := by
  let u : World := { w with session := { w.session with debug := some p } }
  have hinstall : Postings none w.ledger u.ledger := .posting (.setDebug (some p))
  have hlaunch : ∀ v : World, Postings none w.ledger v.ledger →
      ((v.beginLaunch p).andThen (.launching exe p) fun w outcome =>
        w.afterDebugLaunch exe p outcome).Ends fun v => Postings none w.ledger v.ledger := by
    intro v hv
    refine (v.beginLaunch_ledger p).bind (fun u hu => hu ▸ hv) fun u outcome hu => ?_
    exact (u.afterDebugLaunch_ledger exe p outcome).imp fun u' hu' => hu'.trans hu ▸ hv
  unfold installDebug
  cases w.session.debug with
  | none => exact hlaunch u hinstall
  | some previous => exact hlaunch _ (hinstall.trans (u.endDebugProcess_writes previous))

/-- What a piece of the start of a debug session writes. -/
theorem debug_writes (place : Debugging) :
    (w.debug place).Ends fun v => Postings none w.ledger v.ledger := by
  cases place with
  | choosing s =>
    simp only [debug]
    split
    · exact .refl _ _
    · exact (w.chooseForDebug_ledger s none).imp fun v => .of_eq
  | preparing s exe step =>
    cases step with
    | none => trivial
    | some result => cases result <;> exact .refl _ _
  | installing exe p => exact w.installDebug_writes exe p
  | launching exe p l =>
    refine (w.launch_ledger p l).bind (fun v => .of_eq) fun v outcome hv => ?_
    exact (v.afterDebugLaunch_ledger exe p outcome).imp fun u hu => .of_eq (hu.trans hv)
  | diagnosing p inquiry =>
    simp only [debug]
    split
    · trivial
    · exact .of_eq ((ledger_dispose _ p).trans (w.ledger_diagnosis _))
  | withdrawing p failure =>
    simp only [debug]
    split
    · exact .posting (.setDebug none)
    · exact .refl _ _

/-! ## Calls -/

/-- Saving a name is no part of the ledger. -/
@[simp]
theorem ledger_persistDefault (name : String) : (w.persistDefault name).ledger = w.ledger :=
  (w.chore_persistDefault name).ledger

/-- New settings are taken over as they are. -/
@[simp]
theorem ledger_updateSettings (s : Settings) :
    (w.updateSettings s).ledger = { w.ledger with settings := s } := by
  unfold updateSettings
  simp only []
  split
  · rfl
  · split
    · exact ledger_record _ rfl
    · rfl

/-- A new default goes into the settings, with the flag up. -/
@[simp]
theorem ledger_announceDefault (name : String) :
    (w.announceDefault name).ledger =
      { w.ledger with
        changing := true, settings := { w.settings with defaultVersion := some name } } := by
  have hpersist := { w with changing := true }.ledger_persistDefault name
  have hsettings : ({ w with changing := true }.persistDefault name).settings = w.settings :=
    congrArg Ledger.settings hpersist
  rw [announceDefault, ledger_updateSettings, hpersist, hsettings]
  rfl

/-- The first piece of each part writes what nobody owns. -/
theorem beginPhase_writes (p : Phase) :
    (w.beginPhase p).Ends fun v => Writings none w.ledger v.ledger := by
  cases p with
  | announce name =>
    have hannounce : Amendment w.ledger _ := .announce name
    change Writings none w.ledger (w.announceDefault name).ledger
    rw [ledger_announceDefault]
    exact .amendment hannounce
  | stop => exact w.beginStop_writes.bind (fun _ => .of_postings) fun _ _ => .of_postings
  | start name =>
    exact (w.beginStart_writes name).bind (fun _ => .of_postings) fun _ _ => .of_postings
  | settle => exact .amendment .settle

/-- What every part of a call does, all of them do one after the other. -/
theorem runPhases_ends {R : World → World → Prop} (hrefl : ∀ v, R v v)
    (htrans : ∀ {u v v'}, R u v → R v v' → R u v') {next : List Phase}
    (h : ∀ p ∈ next, ∀ v : World, (v.beginPhase p).Ends (R v)) :
    (w.runPhases next).Ends (R w) := by
  induction next generalizing w with
  | nil => exact hrefl w
  | cons p rest ih =>
    rw [runPhases_cons]
    refine (h p List.mem_cons_self w).andThen fun v r hv => ?_
    cases r with
    | done =>
      have hrest := ih (w := v) fun p hp => h p (List.mem_cons_of_mem _ hp)
      exact hrest.imp fun u hu => htrans hv hu
    | aborted => exact hv

/-- First pieces that follow each other write what nobody owns. -/
theorem runPhases_writes (next : List Phase) :
    (w.runPhases next).Ends fun v => Writings none w.ledger v.ledger :=
  w.runPhases_ends (R := fun u v => Writings none u.ledger v.ledger) (fun _ => .refl _ _)
    .trans fun p _ v => v.beginPhase_writes p

/-- A piece of a part of a call, and the parts that follow it. -/
theorem call_phased_ends {place : PhasePlace} {next : List Phase} {P : World → Prop}
    (h : (w.phase place).Ends P) (hnext : ∀ v, P v → (v.runPhases next).Ends P) :
    (w.call (.phased place next)).Ends P := by
  rw [call_phased]
  refine h.andThen fun v r hv => ?_
  cases r with
  | done => exact hnext v hv
  | aborted => exact hv

/-- What the first piece of a call writes. -/
theorem beginCall_writes (command : Command) :
    (w.beginCall command).Ends fun v => Writings none w.ledger v.ledger := by
  cases command with
  | start | stop | restart | changeDefault => exact w.runPhases_writes _
  | startDebug name =>
    unfold beginCall beginDebug
    cases name with
    | none => exact .refl _ _
    | some name =>
      exact (w.chooseForDebug_ledger w.settings (some name)).bind
        (fun v => .of_eq) fun v _ => .of_eq
  | reveal preserve =>
    simp only [beginCall]
    cases w.session.process with
    | none => exact .refl _ _
    | some p => exact .of_eq (w.ledger_tellProcess _ _)
  | updateSettings s =>
    have hupdate : Amendment w.ledger _ := .update s
    change Writings none w.ledger (w.updateSettings s).ledger
    rw [ledger_updateSettings]
    exact .amendment hupdate
  | available => exact .of_eq (w.ledger_learn _)
  | launch p => exact (w.beginLaunch_ledger p).bind (fun v => .of_eq) fun v _ => .of_eq
  | openClient | askVersion | closeClient =>
    simp only [beginCall, beginExchange]
    split
    · trivial
    · exact .refl _ _
  | stopDebug | settings | executable => exact .refl _ _

/-- What a piece of a call writes. -/
theorem call_writes (job : Job) : (w.call job).Ends fun v => job.Writes w.ledger v.ledger := by
  cases job with
  | fresh command => exact (w.beginCall_writes command).imp fun v => .of_writings
  | phased place next =>
    have hphase : (w.phase place).Ends fun v =>
        (Job.phased place next).Writes w.ledger v.ledger := by
      cases place with
      | stopping p =>
        exact (w.stop_writes p).bind (fun v => .of_postings) fun v _ => .of_postings
      | starting p =>
        have hwrites : (w.start p).Ends fun v =>
            (Job.phased (.starting p) next).Writes w.ledger v.ledger := by
          refine (w.start_writes p).imp fun v hv => ?_
          obtain ⟨m, hm, hpostings⟩ := hv
          exact ⟨m, hm.imp id fun hstore => ⟨p, next, rfl, hstore⟩, .of_postings hpostings⟩
        exact hwrites.bind (fun _ => id) fun _ _ => id
    -- Whatever the part of the call has written, the next parts write after it.
    refine w.call_phased_ends hphase fun v hv => ?_
    obtain ⟨m, hm, hwritings⟩ := hv
    exact (v.runPhases_writes next).imp fun u hu => ⟨m, hm, hwritings.trans (hu.of_none _)⟩
  | debugging place =>
    exact (w.debug_writes place).bind (fun v => .of_postings) fun v _ => .of_postings
  | endingDebug => exact .of_postings w.endDebug_writes
  | launching p place => exact (w.launch_ledger p place).bind (fun v => .of_eq) fun v _ => .of_eq
  | opening c place =>
    refine (w.onClient_ledger c _).bind (fun v => .of_eq) fun v result hv => ?_
    unfold endOpening
    split
    · exact .of_eq hv
    · exact .of_eq ((v.ledger_abandonClient c).trans hv)
  | asking c request => exact (w.onClient_ledger c _).bind (fun v => .of_eq) fun v _ => .of_eq
  | closing c place => exact (w.onClient_ledger c _).bind (fun v => .of_eq) fun v _ => .of_eq

end World

end SessionHost
