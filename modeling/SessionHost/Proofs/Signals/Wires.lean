import SessionHost.Proofs.Ledger.Changes
import SessionHost.Proofs.Signals.Hearing

/-!
# Wires

Clients, their connections, and the pumps that hear them are a small part of a session's world, and
few pieces of its activities touch them: a start dials, puts a client on its connection, asks it,
and hands it to a pump; whoever stops a client has a client of its own to say goodbye with.

Main definitions:

- `Wires`, `World.wires`: clients, connections, and whom the pumps hear.
- `Line`: what an activity has in hand of them.
- `Wiring`, `Wirings`: what an activity does to them, in the smallest pieces and in chains.

Main results:

- Theorem `World.call_wired`: every piece of a call on the session is such a chain.
- Theorem `World.release_wired`: so is taking the live parts away.
-/

namespace SessionHost

/-! ## Wires and lines -/

/-- Clients and connections, the client of each pump, and how many signals a new client's mailbox
holds. -/
structure Wires where
  clients : List Client
  connections : List Connection
  pumps : List Nat
  mailboxRoom : Nat

/-- What an activity has in hand of a session's wires. -/
inductive Line where
  | idle
  /-- A connection that has no client yet. -/
  | dialled (connection : Nat)
  /-- A client that nobody hears yet, and whether its first request has been answered. -/
  | opened (client : Nat) (answered : Bool)
  /-- A client that the activity stops. -/
  | closing (client : Nat)

/-- The line of a release. -/
def Release.line : Release → Line
  | .taking => .idle
  | .closing c _ _ => .closing c

/-- The line of a stop. -/
def Stopping.line : Stopping → Line
  | .closing c _ _ _ => .closing c
  | _ => .idle

/-- The line of an opening. -/
def Opening.line (c : Nat) : Opening → Line
  | .asking _ => .opened c false
  | .telling => .opened c true

/-- The line of a start. -/
def Starting.line : Starting → Line
  | .clearing _ _ r => r.line
  | .connecting _ _ k _ => .dialled k
  | .opening _ c o => o.line c
  | .keeping _ c => .opened c true
  | .failing _ _ r => r.line
  | _ => .idle

/-- The line of a part of a call. -/
def PhasePlace.line : PhasePlace → Line
  | .stopping p => p.line
  | .starting p => p.line

/-- The line of a call that is under way. -/
def Job.line : Job → Line
  | .phased place _ => place.line
  | _ => .idle

/-- The line of a call. -/
def Call.line : Call → Line
  | .active job => job.line
  | .over _ => .idle

/-- The line of a watch. -/
def Watch.line (x : Watch) : Line :=
  match x.place with
  | .releasing _ r => r.line
  | _ => .idle

/-- What an activity does to wires, in the smallest pieces. -/
inductive Wiring : Line → Wires → Line → Wires → Prop where
  /-- The activity has nothing in hand any longer. -/
  | drop {l : Line} {x : Wires} : Wiring l x .idle x
  | dial {x : Wires} (endpoint : Endpoint) :
      Wiring .idle x (.dialled x.connections.length)
        { x with connections := x.connections ++ [{ endpoint }] }
  | open {x : Wires} {k : Nat} :
      Wiring (.dialled k) x (.opened x.clients.length false)
        { x with
          clients := x.clients ++ [{ connection := k, mailboxRoom := x.mailboxRoom }] }
  | talk {l : Line} {x : Wires} {c : Nat} {a b : Client} (ha : x.clients[c]? = some a)
      (h : a.Talks b) : Wiring l x l { x with clients := x.clients.set c b }
  | learn {x : Wires} {c : Nat} {a : Client} (ha : x.clients[c]? = some a) (h : a.answers ≠ []) :
      Wiring (.opened c false) x (.opened c true) x
  /-- A client that was opened in vain. -/
  | abandon {x : Wires} {c : Nat} {answered : Bool} {a : Client} (ha : x.clients[c]? = some a) :
      Wiring (.opened c answered) x .idle
        { x with clients := x.clients.set c { a.abandon with heard := false } }
  | keep {x : Wires} {c : Nat} :
      Wiring (.opened c true) x .idle { x with pumps := x.pumps ++ [c] }
  | retire {x : Wires} {c : Nat} {a b : Client} (ha : x.clients[c]? = some a) (h : a.Talks b)
      (hs : a.stops < b.stops) :
      Wiring .idle x (.closing c) { x with clients := x.clients.set c b }
  | close {x : Wires} {c : Nat} {a b : Client} (ha : x.clients[c]? = some a)
      (hk : b.connection = a.connection) (hs : a.stops ≤ b.stops) :
      Wiring (.closing c) x (.closing c) { x with clients := x.clients.set c b }

/-- A chain of such pieces. -/
def Wirings (l : Line) (x : Wires) (l' : Line) (x' : Wires) : Prop :=
  Relation.ReflTransGen (fun p q => Wiring p.1 p.2 q.1 q.2) (l, x) (l', x')

namespace Wirings

variable {l l' l'' : Line} {x x' x'' : Wires}

/-- An activity may leave the wires alone. -/
theorem refl (l : Line) (x : Wires) : Wirings l x l x :=
  Relation.ReflTransGen.refl

theorem of_eq (h : x' = x) : Wirings l x l x' :=
  h ▸ refl l x

/-- One piece is a chain. -/
theorem single (h : Wiring l x l' x') : Wirings l x l' x' :=
  Relation.ReflTransGen.single h

/-- Chains are put together where the line is the same. -/
theorem trans (h : Wirings l x l' x') (h' : Wirings l' x' l'' x'') : Wirings l x l'' x'' :=
  Relation.ReflTransGen.trans h h'

/-- Whatever an activity has in hand, it may let go of it. -/
theorem drop (l : Line) (x : Wires) : Wirings l x .idle x :=
  single .drop

/-- What every piece keeps is kept by a chain. -/
theorem keeps {P : Line → Wires → Prop} (h : Wirings l x l' x')
    (hP : ∀ {l l' : Line} {x x' : Wires}, P l x → Wiring l x l' x' → P l' x') (hx : P l x) :
    P l' x' := by
  have hchain : ∀ {p q : Line × Wires},
      Relation.ReflTransGen (fun p q => Wiring p.1 p.2 q.1 q.2) p q →
        P p.1 p.2 → P q.1 q.2 := by
    intro p q hpq hp
    induction hpq with
    | refl => exact hp
    | tail _ hwiring ih => exact hP ih hwiring
  exact hchain h hx

end Wirings

/-! ## What is left alone -/

namespace World

/-- The wires of a world. -/
def wires (w : World) : Wires :=
  ⟨w.clients, w.connections, w.pumps.map Pump.client, w.config.mailboxRoom⟩

variable (w : World)

/-- Chores leave the wires alone. -/
theorem Chore.wires {w v : World} (h : w.Chore v) : v.wires = w.wires := by
  obtain ⟨_, _, _, _, _, _, -, rfl⟩ := h
  rfl

/-- What a search has found out concerns no wires. -/
@[simp]
theorem wires_learn {α : Type} (t : Discovery.Traced α) : (w.learn t).1.wires = w.wires :=
  (w.chore_learn t).wires

/-- Making the folder for session files concerns no wires. -/
@[simp]
theorem wires_makeFolder : w.makeFolder.1.wires = w.wires :=
  w.chore_makeFolder.wires

/-- A command for a console goes over no wire. -/
@[simp]
theorem wires_tellProcess (p : Nat) (command : ConsoleCommand) :
    (w.tellProcess p command).wires = w.wires :=
  (w.chore_tellProcess p command).wires

/-- A process is disposed without a word to its server. -/
@[simp]
theorem wires_dispose (p : Nat) : (w.dispose p).wires = w.wires :=
  (w.chore_dispose p).wires

@[simp]
theorem wires_disposeAny (p : Option Nat) : (w.disposeAny p).wires = w.wires :=
  (w.chore_disposeAny p).wires

/-- A debug session has no wires. -/
@[simp]
theorem wires_endDebugProcess (p : Nat) : (w.endDebugProcess p).wires = w.wires :=
  wires_dispose _ p

/-- Ending the debug session, too, leaves the wires alone. -/
@[simp]
theorem wires_endDebug : w.endDebug.wires = w.wires := by
  unfold endDebug
  split
  · exact wires_endDebugProcess _ _
  · rfl

@[simp]
theorem wires_setStatus (s : Status) : (w.setStatus s).wires = w.wires := by
  unfold setStatus
  split <;> rfl

/-- A step of the status concerns no wires. -/
@[simp]
theorem wires_transition (g : Nat) (sources : List Status) (target : Status) :
    (w.transition g sources target).1.wires = w.wires := by
  unfold transition
  split
  · exact w.wires_setStatus target
  · rfl

/-- A watch over an exit hears no client. -/
@[simp]
theorem wires_watchExit (a : Attempt) (p : Nat) (name : String) :
    (w.watchExit a p name).wires = w.wires := by
  unfold watchExit
  split
  · split <;> rfl
  · rfl

/-- New settings concern no wires. -/
@[simp]
theorem wires_updateSettings (s : Settings) : (w.updateSettings s).wires = w.wires := by
  unfold updateSettings
  simp only []
  split
  · rfl
  · split <;> rfl

/-- Announcing a new default concerns no wires. -/
@[simp]
theorem wires_announceDefault (name : String) : (w.announceDefault name).wires = w.wires := by
  unfold announceDefault
  rw [wires_updateSettings]
  exact (chore_persistDefault _ name).wires

/-- A wait for the status leaves the wires alone. -/
theorem wait_wires (place : Wait) : (w.wait place).Ends (·.wires = w.wires) :=
  (w.wait_chore place).imp fun _ => Chore.wires

/-! ## Launches -/

/-- Nothing is dialled before a launch has come to its end. -/
theorem beginLaunch_wires (p : Nat) : (w.beginLaunch p).Ends (·.wires = w.wires) :=
  (w.beginLaunch_chore p).imp fun _ => Chore.wires

/-- A launch leaves the wires alone. -/
theorem launch_wires (p : Nat) (place : Launching) :
    (w.launch p place).Ends (·.wires = w.wires) :=
  (w.launch_chore p place).imp fun _ => Chore.wires

end World

/-! ## Exchanges -/

section Exchanges

variable {c c' : Client}

/-- A piece of a request only talks. -/
theorem Request.step_talks (r : Request) (now : Nat) (c : Client) :
    (r.step now c).Ends c.Talks := by
  have hpiece := r.step_piece now c
  generalize r.step now c = x at hpiece ⊢
  cases hpiece with
  | register => exact ⟨rfl, rfl, rfl, rfl, rfl, fun _ ha => ha, Nat.le_refl _⟩
  | post _ hpost => exact Client.post_talks hpost
  | full | wait => trivial
  | refuse | clear | expire => exact .refl c
  | answer | withdraw => exact c.forget_talks r.id

/-- A request with a value has had an answer. -/
theorem Request.answers_of_finished {r : Request} {now : Nat} {v : Json.Value}
    (h : r.step now c = .finished c' (.ok v)) : c.answers ≠ [] := by
  have hpiece := r.step_piece now c
  rw [h] at hpiece
  generalize hresult : Except.ok v = result at hpiece
  cases hpiece with
  | answer _ hanswer =>
    intro hnone
    rw [Client.answerTo?, hnone] at hanswer
    cases hanswer
  | clear | withdraw => cases hresult

/-- What follows the messages of a closing. -/
theorem Closing.drain_ends (now : Nat) (c : Client) :
    (Closing.drain now c).Ends fun d => d.connection = c.connection ∧ c.stops ≤ d.stops := by
  have hdismiss : c.Talks c.dismissWriter := by
    unfold Client.dismissWriter
    split
    · rename_i hpost
      exact Client.post_talks hpost
    · exact .refl c
    · exact .refl c
  simp only [Closing.drain]
  split <;> exact ⟨hdismiss.connection, hdismiss.stops⟩

/-- A piece of a closing leaves the client on its connection. -/
theorem Closing.step_ends (s : Closing) (now : Nat) (c : Client) :
    (s.step now c).Ends fun d => d.connection = c.connection ∧ c.stops ≤ d.stops := by
  unfold Closing.step
  split
  · refine Progress.Ends.orWhenLate ?_ (drain_ends now c)
    refine (Request.step_talks _ now c).bind (fun d hd => ⟨hd.connection, hd.stops⟩) ?_
    intro d result hd
    split
    · exact ⟨hd.connection, hd.stops⟩
    · exact (drain_ends now d).imp fun e he =>
        ⟨he.1.trans hd.connection, Nat.le_trans hd.stops he.2⟩
  · split
    · rename_i d hpost
      have hd := Client.post_talks hpost
      exact (drain_ends now d).imp fun e he =>
        ⟨he.1.trans hd.connection, Nat.le_trans hd.stops he.2⟩
    · exact drain_ends now c
    · split
      · exact drain_ends now c
      · trivial
  · split
    · exact ⟨rfl, Nat.le_refl _⟩
    · split
      · exact ⟨rfl, Nat.le_refl _⟩
      · trivial

end Exchanges

/-! ## Pieces of activities -/

/-- Wherever a piece of an activity leads, a chain leads from a line and wires to the line that
belongs to the place or the result, and to the wires there. -/
def Progress.Wired {σ α : Type} (p : Progress World σ α) (l : Line) (x : Wires)
    (going : σ → Line) (done : α → Line) : Prop :=
  match p with
  | .blocked => True
  | .going w s => Wirings l x (going s) w.wires
  | .finished w a => Wirings l x (done a) w.wires

namespace Progress.Wired

variable {σ τ α β : Type} {p : Progress World σ α} {l l' : Line} {x x' : Wires}
  {going : σ → Line} {done : α → Line}

/-- What a chain precedes does with the wires what it would do after the chain. -/
theorem after (h : Wirings l x l' x') (hp : p.Wired l' x' going done) :
    p.Wired l x going done := by
  cases p with
  | blocked => trivial
  | going w s => exact h.trans hp
  | finished w a => exact h.trans hp

/-- A larger activity does with the wires what its parts do. -/
theorem andThen (hp : p.Wired l x going done) {wrap : σ → τ}
    {next : World → α → Progress World τ β} {going' : τ → Line} {done' : β → Line}
    (hwrap : ∀ s, going' (wrap s) = going s)
    (hnext : ∀ w a, (next w a).Wired (done a) w.wires going' done') :
    (p.andThen wrap next).Wired l x going' done' := by
  cases p with
  | blocked => trivial
  | going w s =>
    have hgoing : Wirings l x (going s) w.wires := hp
    rw [← hwrap] at hgoing
    exact hgoing
  | finished w a => exact after hp (hnext w a)

/-- An activity that leaves the wires alone may keep its line, or have none any longer. -/
theorem of_ends (h : p.Ends (·.wires = x)) (hgoing : ∀ s, going s = l ∨ going s = .idle)
    (hdone : ∀ a, done a = l ∨ done a = .idle) : p.Wired l x going done := by
  cases p with
  | blocked => trivial
  | going w s =>
    rcases hgoing s with hs | hs <;> rw [Progress.Wired, hs, show w.wires = x from h]
    · exact .refl _ _
    · exact .drop _ _
  | finished w a =>
    rcases hdone a with ha | ha <;> rw [Progress.Wired, ha, show w.wires = x from h]
    · exact .refl _ _
    · exact .drop _ _

/-- The same for an activity that has nothing in hand. -/
theorem of_ends_idle (h : p.Ends (·.wires = x)) :
    p.Wired .idle x (fun _ => .idle) fun _ => .idle :=
  of_ends h (fun _ => .inl rfl) fun _ => .inl rfl

end Progress.Wired

namespace World

variable (w : World)

/-- A piece of an exchange, when all that it may do to its client is a piece of wiring. -/
theorem onClient_wired {σ α : Type} {l : Line} {P : Client → Client → Prop} {c : Nat}
    {step : Client → ClientProgress σ α} (h : ∀ a, (step a).Ends (P a))
    (hP : ∀ {a b : Client}, w.clients[c]? = some a → P a b →
      Wiring l w.wires l (w.setClient c b).wires) :
    (w.onClient c step).Wired l w.wires (fun _ => l) fun _ => l := by
  unfold onClient
  split
  · trivial
  · rename_i a ha
    have hends := h a
    generalize step a = p at hends ⊢
    cases p with
    | blocked => trivial
    | going b s => exact .single (hP ha hends)
    | finished b r => exact .single (hP ha hends)

/-- A piece of an exchange that only talks. -/
theorem onClient_talks {σ α : Type} (l : Line) (c : Nat) {step : Client → ClientProgress σ α}
    (h : ∀ a, (step a).Ends a.Talks) :
    (w.onClient c step).Wired l w.wires (fun _ => l) fun _ => l :=
  w.onClient_wired h fun ha hb => .talk ha hb

/-- A piece of a closing. -/
theorem onClient_closing (c : Nat) (s : Closing) :
    (w.onClient c fun a => s.step w.now a).Wired (.closing c) w.wires (fun _ => .closing c)
      fun _ => .closing c :=
  w.onClient_wired (s.step_ends w.now) fun ha hb => .close ha hb.1 hb.2

/-- A piece of an opening: its request is answered before it may go on. -/
theorem onClient_opening (c : Nat) (o : Opening) :
    (w.onClient c fun a => o.step w.now a).Wired (o.line c) w.wires (Opening.line c)
      fun r => match r with
        | .ok _ => .opened c true
        | .error _ => o.line c := by
  unfold onClient
  split
  · trivial
  · rename_i a ha
    cases o with
    | asking request =>
      have htalks := request.step_talks w.now a
      simp only [Opening.step]
      cases hstep : request.step w.now a with
      | blocked => trivial
      | going b s =>
        rw [hstep] at htalks
        exact .single (.talk ha htalks)
      | finished b r =>
        rw [hstep] at htalks
        cases r with
        | error why => exact .single (.talk ha htalks)
        | ok v =>
          have hlearn : Wiring (.opened c false) w.wires (.opened c true) w.wires :=
            .learn ha (Request.answers_of_finished hstep)
          exact (Wirings.single hlearn).trans (.single (.talk ha htalks))
    | telling =>
      simp only [Opening.step]
      let message := Rpc.notificationMessage .initialized (some (.object []))
      cases hpost : a.post (.message message) with
      | taken b => exact .single (.talk ha (Client.post_talks hpost))
      | full => trivial
      | refused => exact .single (.talk ha (.refl a))

/-! ## Stops -/

/-- Taking the session's client to stop it. -/
theorem beginClosing_wired {c : Nat} {a : Client} (ha : w.clients[c]? = some a) (now : Nat)
    (timeout : Duration) :
    Wirings .idle w.wires (.closing c) (w.setClient c (a.beginClosing now timeout).1).wires :=
  .single (.retire ha ⟨rfl, rfl, rfl, rfl, rfl, fun _ => id, Nat.le_succ _⟩
    (Nat.lt_succ_self _))

/-- When its client is stopped, a stop has nothing left in hand. -/
theorem finishStop_wired (l : Line) (p d : Option Nat) :
    (w.finishStop p d).Wired l w.wires Stopping.line fun _ => .idle := by
  refine (Wirings.drop l w.wires).trans (.of_eq ?_)
  rw [wires_transition, wires_disposeAny]
  split
  · exact w.wires_endDebugProcess _
  · rfl

/-- A stop begins with nothing in hand. -/
theorem beginStop_wired : w.beginStop.Wired .idle w.wires Stopping.line fun _ => .idle := by
  unfold beginStop
  cases w.status with
  | notStarted => exact .refl _ _
  | stopping => cases w.beginWait? <;> exact .refl _ _
  | _ => exact .of_eq (w.wires_setStatus .stopping)

/-- Every piece of a stop. -/
theorem stop_wired (place : Stopping) :
    (w.stop place).Wired place.line w.wires Stopping.line fun _ => .idle := by
  cases place with
  | waiting p => exact .andThen (.of_ends_idle (w.wait_wires p)) (fun _ => rfl) fun _ _ => .refl _ _
  | endingDebug => exact .of_eq w.wires_endDebug
  | taking =>
    simp only [stop]
    split
    · exact finishStop_wired _ _ _ _
    · split
      · exact finishStop_wired _ _ _ _
      · rename_i k hk
        exact w.beginClosing_wired hk _ _
  | closing c p d s =>
    exact .andThen (w.onClient_closing c s) (fun _ => rfl) fun v _ => v.finishStop_wired _ p d

/-- Taking the live parts away, for a start or for a watch. -/
theorem release_wired (g : Nat) (place : Release) :
    (w.release g place).Wired place.line w.wires Release.line fun _ => .idle := by
  cases place with
  | taking =>
    simp only [release]
    split
    · exact .refl _ _
    · split
      · exact .of_eq (wires_disposeAny _ _)
      · split
        · exact .of_eq (wires_disposeAny _ _)
        · rename_i k hk
          exact w.beginClosing_wired hk _ _
  | closing c p s =>
    refine .andThen (w.onClient_closing c s) (fun _ => rfl) fun v _ => ?_
    exact (Wirings.drop _ _).trans (.of_eq (v.wires_disposeAny p))

/-! ## Starts -/

/-- A start that fails lets go of what it has in hand. -/
theorem failStart_wired (a : Attempt) (failure : SessionFailure) (l : Line) :
    (w.failStart a failure).Wired l w.wires Starting.line fun _ => .idle := by
  unfold failStart
  split <;> exact .drop _ _

/-- A client that was opened in vain is let go. -/
theorem abandonClient_wired {c : Nat} {answered : Bool} :
    Wirings (.opened c answered) w.wires .idle (w.abandonClient c).wires := by
  unfold abandonClient
  split
  · exact .drop _ _
  · rename_i a ha
    exact .single (.abandon ha)

/-- A start begins with nothing in hand. -/
theorem beginStart_wired (name : Option String) :
    (w.beginStart name).Wired .idle w.wires Starting.line fun _ => .idle := by
  unfold beginStart
  cases w.status with
  | starting => cases w.beginWait? <;> exact .refl _ _
  | stopping => cases w.beginWait? <;> exact .refl _ _
  | running => exact .refl _ _
  | busy => exact .refl _ _
  | _ => exact .of_eq (wires_setStatus _ _)

/-- Choosing a runtime concerns no wires. -/
theorem chooseRuntime_wired (a : Attempt) (name : Option String) :
    (w.chooseRuntime a name).Wired .idle w.wires Starting.line fun _ => .idle := by
  have hlearn := w.wires_learn (w.choice a.settings name)
  unfold chooseRuntime
  generalize w.learn (w.choice a.settings name) = t at hlearn ⊢
  obtain ⟨v, exe⟩ := t
  cases exe with
  | none => exact hlearn ▸ v.failStart_wired a .discovery .idle
  | some exe => exact .of_eq hlearn

/-- The outcome of a launch concerns no wires. -/
theorem afterLaunch_wired (a : Attempt) (exe : Executable) (outcome : LaunchOutcome) :
    (w.afterLaunch a exe outcome).Wired .idle w.wires Starting.line fun _ => .idle := by
  unfold afterLaunch
  split
  · exact .refl _ _
  · exact .refl _ _
  · exact w.failStart_wired a _ _
  · split
    · exact .refl _ _
    · exact w.failStart_wired a _ _

/-- What a start stores in the session concerns no wires. -/
theorem storeUnlessCancelled_wires {a : Attempt} {update : Session → Session} {v : World}
    (h : w.storeUnlessCancelled a update = some v) : v.wires = w.wires := by
  unfold storeUnlessCancelled at h
  split at h <;> cases h
  rfl

/-- A start that adopts its process has nothing in hand yet. -/
theorem adoptProcess_wired (a : Attempt) (exe : Executable) (p : Nat) :
    (w.adoptProcess a exe p).Wired .idle w.wires Starting.line fun _ => .idle := by
  unfold adoptProcess
  split
  · exact .of_eq (w.wires_dispose p)
  · rename_i v hv
    have hwatch : (v.watchExit a p exe.name).wires = w.wires :=
      (v.wires_watchExit a p exe.name).trans (w.storeUnlessCancelled_wires hv)
    rw [← hwatch]
    refine .andThen (.of_ends_idle (beginLaunch_wires _ p)) (fun _ => rfl) fun u outcome => ?_
    exact u.afterLaunch_wired a exe outcome

/-- A connection that is up gets its client. -/
theorem openClient_wired (a : Attempt) (k : Nat) :
    (w.openClient a k).Wired (.dialled k) w.wires Starting.line fun _ => .idle := by
  unfold openClient newClient
  simp only []
  split
  · trivial
  · rename_i c hc
    have hopen : Wiring (.dialled k) w.wires (.opened w.clients.length false)
        { w.wires with
          clients := w.clients ++ [{ connection := k, mailboxRoom := w.config.mailboxRoom }] } :=
      .open
    refine (Wirings.single hopen).trans (.single (.talk hc ?_))
    exact ⟨rfl, rfl, rfl, rfl, rfl, fun _ => id, Nat.le_refl _⟩

/-- A start waits for its connection, puts a client on it, or gives it up. -/
theorem awaitConnection_wired (a : Attempt) (d : StartedSession) (k deadline : Nat) :
    (w.awaitConnection a d k deadline).Wired (.dialled k) w.wires Starting.line
      fun _ => .idle := by
  unfold awaitConnection
  simp only []
  split
  · exact w.openClient_wired a k
  · exact w.failStart_wired a _ _
  · split
    · exact w.failStart_wired a _ _
    · trivial

/-- With the answer about the version a start has nothing in hand. -/
theorem afterVersion_wired (a : Attempt) (answer : Except RequestFailure RuntimeDetails) :
    (w.afterVersion a answer).Wired .idle w.wires Starting.line fun _ => .idle := by
  unfold afterVersion
  split
  · simp only []
    split <;> exact .refl _ _
  · exact w.failStart_wired a _ _
  · exact w.failStart_wired a _ _

/-- A start hands its client to a pump, and asks it for the version. -/
theorem keepClient_wired (a : Attempt) (c : Nat) :
    (w.keepClient a c).Wired (.opened c true) w.wires Starting.line fun _ => .idle := by
  unfold keepClient
  split
  · exact w.abandonClient_wired
  · rename_i v hv
    have hwires := w.storeUnlessCancelled_wires hv
    simp only []
    split
    · trivial
    · rename_i b hb
      rw [← hwires]
      let u : World := { v with pumps := v.pumps ++ [{ client := c, generation := a.generation }] }
      have hkeep : Wiring (.opened c true) v.wires .idle u.wires := by
        rw [show u.wires = { v.wires with pumps := v.wires.pumps ++ [c] } by simp [wires, u]]
        exact .keep
      refine (Wirings.single hkeep).trans (.single (.talk hb ?_))
      exact ⟨rfl, rfl, rfl, rfl, rfl, fun _ => id, Nat.le_refl _⟩

/-- The end of a start concerns no wires. -/
theorem conclude_wired (a : Attempt) (version : RuntimeDetails) :
    (w.conclude a version).Wired .idle w.wires Starting.line fun _ => .idle := by
  unfold conclude
  split
  · exact .refl _ _
  · rename_i v hv
    have hwires := w.storeUnlessCancelled_wires hv
    have hrun := (v.wires_transition a.generation [.starting] .running).trans hwires
    refine .of_eq (Eq.trans ?_ hrun)
    change (if _ then _ else _ : World).wires = _
    split <;> rfl

/-- A start that has failed has let go of everything before. -/
theorem endFailedStart_wired (a : Attempt) (failure : SessionFailure) :
    (w.endFailedStart a failure).Wired .idle w.wires Starting.line fun _ => .idle := by
  refine .of_eq (Eq.trans ?_ (w.wires_transition a.generation [.starting] .failed))
  change (if _ then _ else _ : World).wires = _
  split <;> rfl

/-- Every piece of a start. -/
theorem start_wired (place : Starting) :
    (w.start place).Wired place.line w.wires Starting.line fun _ => .idle := by
  cases place with
  | joining p => exact .andThen (.of_ends_idle (w.wait_wires p)) (fun _ => rfl) fun _ _ => .refl _ _
  | awaiting name p =>
    refine .andThen (.of_ends_idle (w.wait_wires p)) (fun _ => rfl) fun v _ => ?_
    exact v.beginStart_wired name
  | clearing a name r =>
    exact .andThen (w.release_wired a.generation r) (fun _ => rfl) fun _ _ => .refl _ _
  | preparing a name step =>
    cases step with
    | none => trivial
    | some result =>
      cases result with
      | error kind => exact w.failStart_wired a _ _
      | ok _ => exact w.chooseRuntime_wired a name
  | recording a exe => exact .refl _ _
  | adopting a exe p => exact w.adoptProcess_wired a exe p
  | launching a exe p l =>
    refine .andThen (.of_ends_idle (w.launch_wires p l)) (fun _ => rfl) fun v outcome => ?_
    exact v.afterLaunch_wired a exe outcome
  | diagnosing a inquiry =>
    simp only [start]
    split
    · trivial
    · exact (w.diagnosis _).1.failStart_wired a _ _
  | noting a details =>
    simp only [start]
    split
    · exact .refl _ _
    · rename_i v hv
      rw [← w.storeUnlessCancelled_wires hv]
      exact .single (.dial details.languageService)
  | connecting a details k deadline =>
    simp only [start]
    split
    · exact .drop _ _
    · exact w.awaitConnection_wired a details k deadline
  | opening a c o =>
    simp only [start]
    split
    · cases o <;> exact w.abandonClient_wired
    · refine .andThen (w.onClient_opening c o) (fun _ => rfl) fun v result => ?_
      split
      · exact .refl _ _
      · refine .after ?_ ((v.abandonClient c).failStart_wired a _ .idle)
        cases o <;> exact v.abandonClient_wired
  | keeping a c => exact w.keepClient_wired a c
  | asking a c request =>
    simp only [start]
    split
    · exact .refl _ _
    · refine .andThen (w.onClient_talks .idle c (request.step_talks w.now)) (fun _ => rfl) ?_
      exact fun v result => v.afterVersion_wired a _
  | concluding a version => exact w.conclude_wired a version
  | failing a failure r =>
    refine .andThen (w.release_wired a.generation r) (fun _ => rfl) fun v _ => ?_
    exact v.endFailedStart_wired a failure

/-! ## Debug sessions -/

/-- Debug sessions choose a runtime without the wires. -/
theorem chooseForDebug_wires (s : Settings) (name : Option String) :
    (w.chooseForDebug s name).Ends (·.wires = w.wires) :=
  (w.chooseForDebug_chore s name).imp fun _ => Chore.wires

/-- Debug sessions dial nobody. -/
theorem afterDebugLaunch_wires (exe : Executable) (p : Nat) (outcome : LaunchOutcome) :
    (w.afterDebugLaunch exe p outcome).Ends (·.wires = w.wires) :=
  (w.afterDebugLaunch_chore exe p outcome).imp fun _ => Chore.wires

/-- A debug process in its room has no wires. -/
theorem installDebug_wires (exe : Executable) (p : Nat) :
    (w.installDebug exe p).Ends (·.wires = w.wires) := by
  have hlaunch : ∀ v : World, v.wires = w.wires →
      ((v.beginLaunch p).andThen (.launching exe p) fun w outcome =>
        w.afterDebugLaunch exe p outcome).Ends (·.wires = w.wires) := by
    intro v hv
    refine (v.beginLaunch_wires p).bind (fun u hu => hu.trans hv) fun u outcome hu => ?_
    exact (u.afterDebugLaunch_wires exe p outcome).imp fun u' hu' => hu'.trans (hu.trans hv)
  unfold installDebug
  cases w.session.debug with
  | none => exact hlaunch _ rfl
  | some previous => exact hlaunch _ (wires_endDebugProcess _ previous)

/-- The start of a debug session leaves the wires alone. -/
theorem debug_wires (place : Debugging) : (w.debug place).Ends (·.wires = w.wires) := by
  cases place with
  | choosing s =>
    simp only [debug]
    split
    · rfl
    · exact w.chooseForDebug_wires s none
  | preparing s exe step =>
    cases step with
    | none => trivial
    | some result => cases result <;> rfl
  | installing exe p => exact w.installDebug_wires exe p
  | launching exe p l =>
    refine (w.launch_wires p l).bind (fun v => id) fun v outcome hv => ?_
    exact (v.afterDebugLaunch_wires exe p outcome).imp fun u hu => hu.trans hv
  | diagnosing p inquiry =>
    simp only [debug]
    split
    · trivial
    · exact wires_dispose _ p
  | withdrawing p failure =>
    simp only [debug, Progress.Ends]
    split <;> rfl

/-! ## Calls -/

/-- Every part of a call begins with nothing in hand. -/
theorem beginPhase_wired (p : Phase) :
    (w.beginPhase p).Wired .idle w.wires PhasePlace.line fun _ => .idle := by
  cases p with
  | announce name => exact .of_eq (w.wires_announceDefault name)
  | stop => exact .andThen w.beginStop_wired (fun _ => rfl) fun _ _ => .refl _ _
  | start name => exact .andThen (w.beginStart_wired name) (fun _ => rfl) fun _ _ => .refl _ _
  | settle => exact .refl _ _

/-- Parts of a call that follow each other begin with nothing in hand. -/
theorem runPhases_wired (next : List Phase) :
    (w.runPhases next).Wired .idle w.wires Job.line fun _ => .idle := by
  induction next generalizing w with
  | nil => exact .refl _ _
  | cons p rest ih =>
    rw [runPhases_cons]
    refine .andThen (w.beginPhase_wired p) (fun _ => rfl) fun v r => ?_
    cases r with
    | done => exact ih v
    | aborted => exact .refl _ _

/-- A part of a call does with the wires what its stop or its start does. -/
theorem phase_wired (place : PhasePlace) :
    (w.phase place).Wired place.line w.wires PhasePlace.line fun _ => .idle := by
  cases place with
  | stopping p => exact .andThen (w.stop_wired p) (fun _ => rfl) fun _ _ => .refl _ _
  | starting p => exact .andThen (w.start_wired p) (fun _ => rfl) fun _ _ => .refl _ _

/-- A debug session begins without wires. -/
theorem beginDebug_wires (name : Option String) :
    (w.beginDebug name).Ends (·.wires = w.wires) := by
  unfold beginDebug
  split
  · exact w.chooseForDebug_wires w.settings _
  · rfl

/-- Every call of the session begins with nothing in hand. -/
theorem beginCall_wired (command : Command) (h : command.ofSession = true) :
    (w.beginCall command).Wired .idle w.wires Job.line fun _ => .idle := by
  cases command with
  | start => exact w.runPhases_wired _
  | stop => exact w.runPhases_wired _
  | restart name => exact w.runPhases_wired _
  | changeDefault name => exact w.runPhases_wired _
  | startDebug name =>
    exact .andThen (.of_ends_idle (w.beginDebug_wires name)) (fun _ => rfl) fun _ _ => .refl _ _
  | stopDebug => exact .refl _ _
  | reveal preserve =>
    refine .of_eq ?_
    cases w.session.process with
    | none => rfl
    | some p => exact w.wires_tellProcess p.value _
  | updateSettings s => exact .of_eq (w.wires_updateSettings s)
  | settings => exact .refl _ _
  | available => exact .of_eq (w.wires_learn ((w.finder w.settings).all w.config.probe))
  | executable => exact .refl _ _
  | launch p => cases h
  | openClient c profileLoading cwd timeout => cases h
  | askVersion c timeout => cases h
  | closeClient c timeout => cases h

/-- Every piece of a call on the session. -/
theorem call_wired (job : Job) (h : job.role ≠ .outsider) :
    (w.call job).Wired job.line w.wires Job.line fun _ => .idle := by
  cases job with
  | fresh command =>
    by_cases hc : command.ofSession = true
    · exact w.beginCall_wired command hc
    · exact absurd (if_neg hc) h
  | phased place next =>
    rw [call_phased]
    refine .andThen (w.phase_wired place) (fun _ => rfl) fun v r => ?_
    cases r with
    | done => exact v.runPhases_wired next
    | aborted => exact .refl _ _
  | debugging place =>
    exact .andThen (.of_ends_idle (w.debug_wires place)) (fun _ => rfl) fun _ _ => .refl _ _
  | endingDebug => exact .of_eq w.wires_endDebug
  | launching p place => exact absurd rfl h
  | opening c place => exact absurd rfl h
  | asking c request => exact absurd rfl h
  | closing c place => exact absurd rfl h

/-- The work on the file system leaves wires and lines alone. -/
theorem performJob_wires {job job' : Job} {u : World} (h : w.performJob job = some (u, job')) :
    u.wires = w.wires ∧ job'.line = job.line := by
  cases performJob_prepares h with
  | startFolder | debugFolder => exact ⟨w.wires_makeFolder, rfl⟩
  | _ => exact ⟨rfl, rfl⟩

end World

end SessionHost
