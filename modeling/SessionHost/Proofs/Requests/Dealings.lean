import SessionHost.Proofs.Signals.Wires

/-!
# Dealings with requests

An activity has at most one request under way.  Every piece of it deals with that request in one of
a few ways: it begins it, polls it, or lets go of it.  Whatever else the piece does to clients
leaves alone which of their requests wait and which have been answered.

Main definitions:

- `Job.request?`, `Watch.request?`: the request that an activity has under way.
- `Client.Agrees`, `Spares`: what a piece does to clients apart from its request.
- `Client.Polls`, `Dealing`: what a piece does to its request.

Main results:

- Theorem `Closing.step_polls`: a piece of a closing polls its request.
- Theorem `World.call_deals`: every piece of a call deals with its request in one of these ways.
- Theorem `World.release_deals`: so does taking the live parts away.
-/

namespace SessionHost

/-! ## Requests under way -/

/-- The request that an opening has under way. -/
def Opening.request? : Opening → Option Request
  | .asking request => some request
  | .telling => none

/-- The request that a closing has under way. -/
def Closing.request? : Closing → Option Request
  | .asking request _ => some request
  | _ => none

/-- The request that a release has under way, after the number of its client. -/
def Release.request? : Release → Option (Nat × Request)
  | .taking => none
  | .closing c _ s => s.request?.map (c, ·)

/-- The request that a stop has under way, after the number of its client. -/
def Stopping.request? : Stopping → Option (Nat × Request)
  | .closing c _ _ s => s.request?.map (c, ·)
  | _ => none

/-- The request that a start has under way, after the number of its client. -/
def Starting.request? : Starting → Option (Nat × Request)
  | .clearing _ _ r => r.request?
  | .opening _ c o => o.request?.map (c, ·)
  | .asking _ c request => some (c, request)
  | .failing _ _ r => r.request?
  | _ => none

/-- The request that a part of a call has under way, after the number of its client. -/
def PhasePlace.request? : PhasePlace → Option (Nat × Request)
  | .stopping p => p.request?
  | .starting p => p.request?

/-- The request that a call has under way, after the number of its client. -/
def Job.request? : Job → Option (Nat × Request)
  | .phased place _ => place.request?
  | .opening c o => o.request?.map (c, ·)
  | .asking c request => some (c, request)
  | .closing c s => s.request?.map (c, ·)
  | _ => none

/-- The request that a watch has under way, after the number of its client. -/
def Watch.request? (x : Watch) : Option (Nat × Request) :=
  match x.place with
  | .releasing _ r => r.request?
  | _ => none

/-- A start that has been called off lets go of its request. -/
def Starting.letsGo (w : World) : Starting → Bool
  | .opening a _ _ => w.isCancelled (.start a.generation)
  | .asking a _ _ => w.isCancelled (.start a.generation)
  | _ => false

/-- A call lets go of its request when its start does. -/
def Job.letsGo (w : World) : Job → Bool
  | .phased (.starting p) _ => p.letsGo w
  | _ => false

/-! ## What is left alone -/

/-- A client whose requests are as they were.  Its activities may have been ended, and its writing
activity may have been given more to send. -/
structure Client.Agrees (a b : Client) : Prop where
  nextId : b.nextId = a.nextId
  waiting : b.waiting = a.waiting
  answers : b.answers = a.answers
  reading : b.reading = a.reading ∨ b.reading = .over
  sending : b.writing.isOver = true ∨ b.writing = a.writing ∧ a.outbox <+: b.outbox

/-- A client that has no request and no response on its hands. -/
structure Client.Unasked (a : Client) : Prop where
  waiting : a.waiting = []
  answers : a.answers = []
  reading : a.reading.isAnswering = false

namespace Client.Agrees

variable {a b c : Client}

/-- A client of which nothing has changed that its requests and its activities have to do with. -/
theorem of_same (hid : b.nextId = a.nextId) (hwaiting : b.waiting = a.waiting)
    (hanswers : b.answers = a.answers) (hreading : b.reading = a.reading)
    (hwriting : b.writing = a.writing) (houtbox : b.outbox = a.outbox) : a.Agrees b :=
  ⟨hid, hwaiting, hanswers, .inl hreading, .inr ⟨hwriting, houtbox ▸ List.prefix_rfl⟩⟩

theorem refl (a : Client) : a.Agrees a :=
  .of_same rfl rfl rfl rfl rfl rfl

/-- Agreement is kept by a second change. -/
theorem trans (h : a.Agrees b) (h' : b.Agrees c) : a.Agrees c where
  nextId := h'.nextId.trans h.nextId
  waiting := h'.waiting.trans h.waiting
  answers := h'.answers.trans h.answers
  reading := by
    rcases h'.reading with heq | hover
    · rw [heq]
      exact h.reading
    · exact .inr hover
  sending := by
    rcases h'.sending with hover | ⟨heq, hmore⟩
    · exact .inl hover
    · rw [heq]
      exact h.sending.imp_right fun hs => ⟨hs.1, hs.2.trans hmore⟩

/-- A client that agrees with an idle one is idle. -/
theorem unasked (h : a.Agrees b) (ha : a.Unasked) : b.Unasked where
  waiting := h.waiting.trans ha.waiting
  answers := h.answers.trans ha.answers
  reading := by
    rcases h.reading with heq | hover
    · rw [heq]
      exact ha.reading
    · rw [hover]
      rfl

/-- Handing a message over has nothing to do with requests. -/
theorem of_post {item : Outgoing} (h : a.post item = .taken b) : a.Agrees b := by
  obtain ⟨rfl, -⟩ := Client.post_eq_taken h
  exact ⟨rfl, rfl, rfl, .inl rfl, .inr ⟨rfl, List.prefix_append _ _⟩⟩

/-- Ending the writing activity is nobody's request. -/
theorem dismissWriter (a : Client) : a.Agrees a.dismissWriter := by
  unfold Client.dismissWriter
  split
  · rename_i hpost
    exact of_post hpost
  · exact refl a
  · exact refl a

end Client.Agrees

/-- Clients that agree with earlier ones, behind them perhaps new ones. -/
structure Spares (x y : List Client) : Prop where
  old : ∀ {c : Nat} {a : Client}, x[c]? = some a → ∃ b, y[c]? = some b ∧ a.Agrees b
  new : ∀ {c : Nat} {b : Client}, x[c]? = none → y[c]? = some b → b.Unasked

namespace Spares

variable {x y z : List Client} {c : Nat} {a b : Client}

theorem refl (x : List Client) : Spares x x where
  old {_ a} h := ⟨a, h, .refl a⟩
  new h h' := nomatch h.symm.trans h'

theorem of_eq (h : y = x) : Spares x y :=
  h ▸ refl x

/-- Sparing is kept by a second change. -/
theorem trans (h : Spares x y) (h' : Spares y z) : Spares x z where
  old hc := by
    obtain ⟨b, hb, hab⟩ := h.old hc
    obtain ⟨d, hd, hbd⟩ := h'.old hb
    exact ⟨d, hd, hab.trans hbd⟩
  new {c d} hc hd := by
    cases hb : y[c]? with
    | none => exact h'.new hb hd
    | some b =>
      obtain ⟨e, he, hbe⟩ := h'.old hb
      cases he.symm.trans hd
      exact hbe.unasked (h.new hc hb)

/-- One client may be replaced by one that agrees with it. -/
theorem set (ha : x[c]? = some a) (h : a.Agrees b) : Spares x (x.set c b) where
  old {d e} hd := by
    by_cases hcd : c = d
    · subst hcd
      cases ha.symm.trans hd
      exact ⟨b, getElem?_set_at ha b, h⟩
    · exact ⟨e, (List.getElem?_set_ne hcd).trans hd, .refl e⟩
  new {d e} hd he := by
    have hcd : c ≠ d := by
      rintro rfl
      cases ha.symm.trans hd
    cases hd.symm.trans ((List.getElem?_set_ne hcd).symm.trans he)

/-- A new client that nobody has asked may come behind the others. -/
theorem append (x : List Client) (hb : b.Unasked) : Spares x (x ++ [b]) where
  old {c a} h := ⟨a, getElem?_append_of_some h _, .refl a⟩
  new {c d} h h' := by
    obtain hold | ⟨-, rfl⟩ := getElem?_append_cases h'
    · cases h.symm.trans hold
    · exact hb

end Spares

/-! ## What is done -/

/-- Polling the request of an exchange: it goes on, it has a result, or the exchange gives it up
because the time is over. -/
inductive Client.Polls (now : Nat) : Option Request → Client → Option Request → Client → Prop where
  | rest {a b : Client} (h : a.Agrees b) : Polls now none a none b
  | going {q q' : Request} {a b : Client} (h : q.step now a = .going b q') :
      Polls now (some q) a (some q') b
  | finish {q : Request} {a b d : Client} {result : RequestResult}
      (h : q.step now a = .finished b result) (hd : b.Agrees d) : Polls now (some q) a none d
  | late {q : Request} {a b : Client} (h : q.step now a = .blocked) (hb : a.Agrees b) :
      Polls now (some q) a none b

/-- What a piece of an activity does to the request that it has under way, and to all clients. -/
inductive Dealing (now : Nat) (letsGo : Bool) :
    Option (Nat × Request) → List Client → Option (Nat × Request) → List Client → Prop where
  | rest {x y : List Client} (h : Spares x y) : Dealing now letsGo none x none y
  | begin {x y z : List Client} {c : Nat} {a b : Client} {q : Request} (hx : Spares x y)
      (ha : y[c]? = some a) (hid : q.id = a.nextId) (hplace : q.place = .registering)
      (hb : { a with nextId := a.nextId + 1 }.Agrees b) (hz : Spares (y.set c b) z) :
      Dealing now letsGo none x (some (c, q)) z
  | poll {x y : List Client} {c : Nat} {a b : Client} {q : Request} {q? : Option Request}
      (ha : x[c]? = some a) (h : a.Polls now (some q) q? b) (hy : Spares (x.set c b) y)
      (hpolls : letsGo = false) : Dealing now letsGo (some (c, q)) x (q?.map (c, ·)) y
  | letGo {x y : List Client} {c : Nat} {q : Request} (h : Spares x y) (hlets : letsGo = true) :
      Dealing now letsGo (some (c, q)) x none y

/-! ## Exchanges -/

section Exchanges

/-- What a piece gives that may go on late. -/
theorem Progress.Gives.orWhenLate {ω σ α : Type} {p late : Progress ω σ α} {P : ω → σ → Prop}
    {Q : ω → α → Prop} {expired : Bool} (h : p.Gives P Q) (hlate : p = .blocked → late.Gives P Q) :
    (p.orWhenLate expired late).Gives P Q := by
  cases p with
  | blocked =>
    simp only [Progress.orWhenLate]
    split
    · exact hlate rfl
    · trivial
  | going w s => exact h
  | finished w a => exact h

variable {now : Nat}

/-- A piece of an opening polls its request. -/
theorem Opening.step_polls (o : Opening) (now : Nat) (a : Client) :
    (o.step now a).Gives (fun b o' => a.Polls now o.request? o'.request? b)
      fun b _ => a.Polls now o.request? none b := by
  cases o with
  | asking q =>
    simp only [Opening.step]
    cases hstep : q.step now a with
    | blocked => trivial
    | going b q' => exact .going hstep
    | finished b result => cases result <;> exact .finish hstep (.refl b)
  | telling =>
    simp only [Opening.step]
    split
    · rename_i hpost
      exact .rest (.of_post hpost)
    · trivial
    · exact .rest (.refl a)

/-- What a closing does after its messages, however its request has ended. -/
theorem Closing.drain_polls {q? : Option Request} {a b : Client}
    (h : ∀ d, b.Agrees d → a.Polls now q? none d) :
    (Closing.drain now b).Gives (fun d s => a.Polls now q? s.request? d)
      fun d _ => a.Polls now q? none d := by
  have hdismiss := Client.Agrees.dismissWriter b
  simp only [Closing.drain]
  split
  · exact h _ (hdismiss.trans ⟨rfl, rfl, rfl, .inr rfl, .inr ⟨rfl, List.prefix_rfl⟩⟩)
  · exact h _ (hdismiss.trans (.of_same rfl rfl rfl rfl rfl rfl))

/-- A piece of a closing polls its request, until its time is over. -/
theorem Closing.step_polls (s : Closing) (now : Nat) (a : Client) :
    (s.step now a).Gives (fun b s' => a.Polls now s.request? s'.request? b)
      fun b _ => a.Polls now s.request? none b := by
  cases s with
  | asking q deadline =>
    simp only [Closing.step]
    cases hstep : q.step now a with
    | blocked => exact .orWhenLate trivial fun _ => drain_polls fun d => .late hstep
    | going b q' => exact .going hstep
    | finished b result =>
      cases result with
      | ok v => exact .finish hstep (.refl b)
      | error why =>
        -- What follows the messages never has to wait, so the deadline plays no part here.
        refine .orWhenLate (drain_polls fun d => .finish hstep) fun hblocked => ?_
        simp only [Progress.andThen_finished, drain] at hblocked
        split at hblocked <;> cases hblocked
  | telling deadline =>
    simp only [Closing.step]
    split
    · rename_i b hpost
      exact drain_polls fun d hd => .rest ((Client.Agrees.of_post hpost).trans hd)
    · exact drain_polls fun d => .rest
    · split
      · exact drain_polls fun d => .rest
      · trivial
  | draining deadline =>
    simp only [Closing.step]
    split
    · exact .rest ⟨rfl, rfl, rfl, .inr rfl, .inr ⟨rfl, List.prefix_rfl⟩⟩
    · split
      · exact .rest ⟨rfl, rfl, rfl, .inr rfl, .inl rfl⟩
      · trivial

end Exchanges

/-! ## Pieces of activities -/

section Pieces

variable {now : Nat} {letsGo : Bool} {s s' : Option (Nat × Request)} {x y z : List Client}

/-- What spares the clients may follow any dealing. -/
theorem Dealing.spares (h : Dealing now letsGo s x s' y) (hz : Spares y z) :
    Dealing now letsGo s x s' z := by
  cases h with
  | rest hy => exact .rest (hy.trans hz)
  | begin hx ha hid hplace hb hy => exact .begin hx ha hid hplace hb (hy.trans hz)
  | poll ha hpolls hy hl => exact .poll ha hpolls (hy.trans hz) hl
  | letGo hy hl => exact .letGo (hy.trans hz) hl

/-- Polling the request of one client is a dealing with that client. -/
theorem Dealing.of_polls {c : Nat} {a b : Client} {q? q?' : Option Request} (ha : x[c]? = some a)
    (h : a.Polls now q? q?' b) :
    Dealing now false (q?.map (c, ·)) x (q?'.map (c, ·)) (x.set c b) := by
  cases q? with
  | none =>
    cases h with
    | rest hb => exact .rest (.set ha hb)
  | some q => exact .poll ha h (.refl _) rfl

/-- Wherever a piece of an activity leads, it has dealt with the request that was under way. -/
def Progress.Deals {σ α : Type} (p : Progress World σ α) (now : Nat) (letsGo : Bool)
    (s : Option (Nat × Request)) (x : List Client) (request? : σ → Option (Nat × Request)) : Prop :=
  p.Gives (fun w place => Dealing now letsGo s x (request? place) w.clients)
    fun w _ => Dealing now letsGo s x none w.clients

/-- A piece that has nothing to do with requests. -/
def Progress.Rests {σ α : Type} (p : Progress World σ α) (x : List Client)
    (request? : σ → Option (Nat × Request)) : Prop :=
  p.Gives (fun w place => Spares x w.clients ∧ request? place = none) fun w _ => Spares x w.clients

namespace Progress

variable {σ τ α β : Type} {p : Progress World σ α} {r : σ → Option (Nat × Request)}
  {r' : τ → Option (Nat × Request)} {wrap : σ → τ} {next : World → α → Progress World τ β}

/-- A piece that rests may follow what spares the clients. -/
theorem Rests.after (hy : Spares x y) (h : p.Rests y r) : p.Rests x r := by
  cases p with
  | blocked => trivial
  | going w place => exact ⟨hy.trans h.1, h.2⟩
  | finished w a => exact hy.trans h

/-- A larger activity rests when its parts do. -/
theorem Rests.andThen (h : p.Rests x r) (hwrap : ∀ place, r' (wrap place) = r place)
    (hnext : ∀ w a, (next w a).Rests w.clients r') : (p.andThen wrap next).Rests x r' :=
  Gives.andThen h (fun _ place hplace => ⟨hplace.1, (hwrap place).trans hplace.2⟩)
    fun w a hw => Rests.after hw (hnext w a)

/-- A piece that has nothing to do with requests, after what has dealt with one. -/
theorem Rests.deals_after (hs : Dealing now letsGo s x none y) (h : p.Rests y r) :
    p.Deals now letsGo s x r := by
  cases p with
  | blocked => trivial
  | going w place =>
    obtain ⟨hspares, hnone⟩ := h
    rw [Deals, Gives, hnone]
    exact hs.spares hspares
  | finished w a => exact hs.spares h

/-- Resting is a way of dealing with no request. -/
theorem Rests.deals (h : p.Rests x r) : p.Deals now letsGo none x r :=
  h.deals_after (.rest (.refl x))

/-- A piece that leaves the wires alone, at places without requests. -/
theorem Rests.of_ends {w : World} (h : p.Ends (·.wires = w.wires))
    (hr : ∀ place, r place = none) : p.Rests w.clients r := by
  cases p with
  | blocked => trivial
  | going v place => exact ⟨.of_eq (congrArg Wires.clients h), hr place⟩
  | finished v a => exact .of_eq (congrArg Wires.clients h)

/-- A result that is there at once leaves the clients alone. -/
theorem Rests.finished (w : World) (a : α) :
    (finished w a : Progress World σ α).Rests w.clients r :=
  Spares.refl _

/-- What follows in the same piece has nothing to do with requests. -/
theorem Deals.andThen (h : p.Deals now letsGo s x r) (hwrap : ∀ place, r' (wrap place) = r place)
    (hnext : ∀ w a, (next w a).Rests w.clients r') :
    (p.andThen wrap next).Deals now letsGo s x r' :=
  Gives.andThen h (fun _ place hplace => hwrap place ▸ hplace) fun w a hw =>
    Rests.deals_after hw (hnext w a)

/-- A larger activity with a part at places without requests. -/
theorem Deals.of_ends {w : World} (h : p.Ends (·.wires = w.wires))
    (hwrap : ∀ place, r' (wrap place) = none) (hnext : ∀ v a, (next v a).Rests v.clients r') :
    (p.andThen wrap next).Deals now letsGo none w.clients r' :=
  Rests.deals (Rests.andThen (Rests.of_ends (r := fun _ => none) h fun _ => rfl) hwrap hnext)

end Progress

end Pieces

namespace World

variable (w : World)

/-- What leaves the wires alone spares the clients. -/
theorem spares_of_wires {v : World} (h : v.wires = w.wires) : Spares w.clients v.clients :=
  .of_eq (congrArg Wires.clients h)

/-- Replacing a client by one that agrees with it spares all clients. -/
theorem spares_setClient {c : Nat} {a b : Client} (ha : w.clients[c]? = some a)
    (h : a.Agrees b) : Spares w.clients (w.setClient c b).clients :=
  .set ha h

/-- A client that was opened in vain lets go of no request of its own. -/
theorem spares_abandonClient (c : Nat) : Spares w.clients (w.abandonClient c).clients := by
  unfold abandonClient
  split
  · exact .refl _
  · rename_i a ha
    exact w.spares_setClient ha ⟨rfl, rfl, rfl, .inr rfl, .inl rfl⟩

/-- A piece of an exchange polls its request. -/
theorem onClient_deals {σ α : Type} {c : Nat} {step : Client → ClientProgress σ α}
    (q? : Option Request) (r : σ → Option Request)
    (h : ∀ a, (step a).Gives (fun b s => a.Polls w.now q? (r s) b)
      fun b _ => a.Polls w.now q? none b) :
    (w.onClient c step).Deals w.now false (q?.map (c, ·)) w.clients fun s => (r s).map (c, ·) := by
  unfold onClient
  split
  · trivial
  · rename_i a ha
    have hpolls := h a
    generalize step a = p at hpolls ⊢
    cases p with
    | blocked => trivial
    | going b s => exact .of_polls ha hpolls
    | finished b result => exact .of_polls ha hpolls

/-- A piece of a request polls it. -/
theorem request_deals (c : Nat) (q : Request) :
    (w.onClient c fun a => q.step w.now a).Deals w.now false (some (c, q)) w.clients
      fun q => some (c, q) := by
  refine w.onClient_deals (some q) some fun a => ?_
  cases hstep : q.step w.now a with
  | blocked => trivial
  | going b q' => exact .going hstep
  | finished b result => exact .finish hstep (.refl b)

/-- A piece of a closing deals with the goodbye that it has sent. -/
theorem closing_deals (c : Nat) (s : Closing) :
    (w.onClient c fun a => s.step w.now a).Deals w.now false (s.request?.map (c, ·)) w.clients
      fun s => s.request?.map (c, ·) :=
  w.onClient_deals s.request? Closing.request? fun a => s.step_polls w.now a

/-- A piece of an opening deals with the question that it has asked. -/
theorem opening_deals (c : Nat) (o : Opening) :
    (w.onClient c fun a => o.step w.now a).Deals w.now false (o.request?.map (c, ·)) w.clients
      fun o => o.request?.map (c, ·) :=
  w.onClient_deals o.request? Opening.request? fun a => o.step_polls w.now a

/-- Beginning a request of a client that is there. -/
theorem begin_deals {now : Nat} {letsGo : Bool} {x : List Client} {c : Nat} {a b : Client}
    {q : Request} (hx : Spares x w.clients) (ha : w.clients[c]? = some a) (hid : q.id = a.nextId)
    (hplace : q.place = .registering) (hb : { a with nextId := a.nextId + 1 }.Agrees b) :
    Dealing now letsGo none x (some (c, q)) (w.setClient c b).clients :=
  .begin hx ha hid hplace hb (.refl _)

/-! ## Stops -/

/-- The end of a stop has no request. -/
theorem finishStop_rests (p d : Option Nat) :
    (w.finishStop p d).Rests w.clients Stopping.request? := by
  refine w.spares_of_wires ?_
  rw [wires_transition, wires_disposeAny]
  split
  · exact w.wires_endDebugProcess _
  · rfl

/-- A stop that begins has no request yet. -/
theorem beginStop_rests : w.beginStop.Rests w.clients Stopping.request? := by
  unfold beginStop
  cases w.status with
  | notStarted => exact ⟨.refl _, rfl⟩
  | stopping => cases w.beginWait? <;> first | exact ⟨.refl _, rfl⟩ | exact .refl _
  | _ => exact ⟨w.spares_of_wires (w.wires_setStatus .stopping), rfl⟩

/-- Every piece of a stop. -/
theorem stop_deals (place : Stopping) :
    (w.stop place).Deals w.now false place.request? w.clients Stopping.request? := by
  cases place with
  | waiting p =>
    exact .of_ends (w.wait_wires p) (fun _ => rfl) fun _ _ => .finished _ _
  | endingDebug => exact .rest (w.spares_of_wires w.wires_endDebug)
  | taking =>
    simp only [stop]
    split
    · exact (finishStop_rests _ _ _).deals
    · split
      · exact (finishStop_rests _ _ _).deals
      · rename_i k hk
        exact w.begin_deals (.refl _) hk rfl rfl (.of_same rfl rfl rfl rfl rfl rfl)
  | closing c p d s =>
    exact .andThen (w.closing_deals c s) (fun _ => rfl) fun v _ => v.finishStop_rests p d

/-- Taking the live parts away, for a start or for a watch. -/
theorem release_deals (g : Nat) (place : Release) :
    (w.release g place).Deals w.now false place.request? w.clients Release.request? := by
  cases place with
  | taking =>
    simp only [release]
    split
    · exact .rest (.refl _)
    · split
      · exact .rest (w.spares_of_wires (wires_disposeAny _ _))
      · split
        · exact .rest (w.spares_of_wires (wires_disposeAny _ _))
        · rename_i k hk
          exact w.begin_deals (.refl _) hk rfl rfl (.of_same rfl rfl rfl rfl rfl rfl)
  | closing c p s =>
    refine .andThen (w.closing_deals c s) (fun _ => rfl) fun v _ => ?_
    exact v.spares_of_wires (v.wires_disposeAny p)

/-! ## Starts -/

/-- A start that fails has no request. -/
theorem failStart_rests (a : Attempt) (failure : SessionFailure) :
    (w.failStart a failure).Rests w.clients Starting.request? := by
  unfold failStart
  split
  · exact .refl _
  · exact ⟨.refl _, rfl⟩

/-- A start that begins has no request yet. -/
theorem beginStart_rests (name : Option String) :
    (w.beginStart name).Rests w.clients Starting.request? := by
  unfold beginStart
  cases w.status with
  | starting => cases w.beginWait? <;> first | exact ⟨.refl _, rfl⟩ | exact .refl _
  | stopping => cases w.beginWait? <;> first | exact ⟨.refl _, rfl⟩ | exact .refl _
  | running => exact .refl _
  | busy => exact .refl _
  | _ => exact ⟨w.spares_of_wires (wires_setStatus _ _), rfl⟩

/-- Choosing a runtime asks no server. -/
theorem chooseRuntime_rests (a : Attempt) (name : Option String) :
    (w.chooseRuntime a name).Rests w.clients Starting.request? := by
  have hlearn := w.wires_learn (w.choice a.settings name)
  unfold chooseRuntime
  generalize w.learn (w.choice a.settings name) = t at hlearn ⊢
  obtain ⟨v, exe⟩ := t
  have hspares := w.spares_of_wires hlearn
  cases exe with
  | none => exact .after hspares (v.failStart_rests a .discovery)
  | some exe => exact ⟨hspares, rfl⟩

/-- After a launch nobody has been asked yet. -/
theorem afterLaunch_rests (a : Attempt) (exe : Executable) (outcome : LaunchOutcome) :
    (w.afterLaunch a exe outcome).Rests w.clients Starting.request? := by
  unfold afterLaunch
  split
  · exact .refl _
  · exact ⟨.refl _, rfl⟩
  · exact w.failStart_rests a _
  · split
    · exact ⟨.refl _, rfl⟩
    · exact w.failStart_rests a _

/-- Storing something in the session leaves the clients alone. -/
theorem storeUnlessCancelled_clients {a : Attempt} {update : Session → Session} {v : World}
    (h : w.storeUnlessCancelled a update = some v) : v.clients = w.clients :=
  congrArg Wires.clients (w.storeUnlessCancelled_wires h)

/-- Adopting a process asks no server. -/
theorem adoptProcess_rests (a : Attempt) (exe : Executable) (p : Nat) :
    (w.adoptProcess a exe p).Rests w.clients Starting.request? := by
  unfold adoptProcess
  split
  · exact w.spares_of_wires (w.wires_dispose p)
  · rename_i v hv
    have hwatch : (v.watchExit a p exe.name).wires = w.wires :=
      (v.wires_watchExit a p exe.name).trans (w.storeUnlessCancelled_wires hv)
    have hlaunch := beginLaunch_wires (v.watchExit a p exe.name) p
    refine .after (w.spares_of_wires hwatch) ?_
    exact .andThen (.of_ends hlaunch fun _ => rfl) (fun _ => rfl) fun u outcome =>
      u.afterLaunch_rests a exe outcome

/-- Opening a new client begins its first request. -/
theorem openClient_deals (a : Attempt) (k : Nat) :
    (w.openClient a k).Deals w.now false none w.clients Starting.request? := by
  unfold openClient newClient
  simp only []
  split
  · trivial
  · rename_i b hb
    have hnew : Spares w.clients
        (w.clients ++ [{ connection := k, mailboxRoom := w.config.mailboxRoom }]) :=
      .append _ ⟨rfl, rfl, rfl⟩
    exact .begin hnew hb rfl rfl (.of_same rfl rfl rfl rfl rfl rfl) (.refl _)

/-- A connection that is up gets a client, which is asked at once. -/
theorem awaitConnection_deals (a : Attempt) (d : StartedSession) (k deadline : Nat) :
    (w.awaitConnection a d k deadline).Deals w.now false none w.clients Starting.request? := by
  unfold awaitConnection
  simp only []
  split
  · exact w.openClient_deals a k
  · exact (w.failStart_rests a _).deals
  · split
    · exact (w.failStart_rests a _).deals
    · trivial

/-- When the version is known, no request is left. -/
theorem afterVersion_rests (a : Attempt) (answer : Except RequestFailure RuntimeDetails) :
    (w.afterVersion a answer).Rests w.clients Starting.request? := by
  unfold afterVersion
  split
  · simp only []
    split <;> exact ⟨.refl _, rfl⟩
  · exact w.failStart_rests a _
  · exact w.failStart_rests a _

/-- A start that keeps its client begins the request for the version. -/
theorem keepClient_deals (a : Attempt) (c : Nat) :
    (w.keepClient a c).Deals w.now false none w.clients Starting.request? := by
  unfold keepClient
  split
  · exact .rest (w.spares_abandonClient c)
  · rename_i v hv
    have hclients := w.storeUnlessCancelled_clients hv
    simp only []
    split
    · trivial
    · rename_i b hb
      exact .begin (.of_eq hclients) hb rfl rfl (.of_same rfl rfl rfl rfl rfl rfl) (.refl _)

/-- The end of a start has no request. -/
theorem conclude_rests (a : Attempt) (version : RuntimeDetails) :
    (w.conclude a version).Rests w.clients Starting.request? := by
  unfold conclude
  split
  · exact .refl _
  · rename_i v hv
    have hrun := (v.wires_transition a.generation [.starting] .running).trans
      (w.storeUnlessCancelled_wires hv)
    refine w.spares_of_wires (Eq.trans ?_ hrun)
    change (if _ then _ else _ : World).wires = _
    split <;> rfl

/-- The end of a start that has failed has no request. -/
theorem endFailedStart_rests (a : Attempt) (failure : SessionFailure) :
    (w.endFailedStart a failure).Rests w.clients Starting.request? := by
  refine w.spares_of_wires (Eq.trans ?_ (w.wires_transition a.generation [.starting] .failed))
  change (if _ then _ else _ : World).wires = _
  split <;> rfl

/-- Every piece of a start. -/
theorem start_deals (place : Starting) :
    (w.start place).Deals w.now (place.letsGo w) place.request? w.clients Starting.request? := by
  cases place with
  | joining p =>
    exact .of_ends (w.wait_wires p) (fun _ => rfl) fun _ _ => .finished _ _
  | awaiting name p =>
    exact .of_ends (w.wait_wires p) (fun _ => rfl) fun v _ => v.beginStart_rests name
  | clearing a name r =>
    exact .andThen (w.release_deals a.generation r) (fun _ => rfl) fun v _ => ⟨.refl _, rfl⟩
  | preparing a name step =>
    cases step with
    | none => trivial
    | some result =>
      cases result with
      | error kind => exact (w.failStart_rests a _).deals
      | ok _ => exact (w.chooseRuntime_rests a name).deals
  | recording a exe => exact .rest (.refl _)
  | adopting a exe p => exact (w.adoptProcess_rests a exe p).deals
  | launching a exe p l =>
    exact .of_ends (w.launch_wires p l) (fun _ => rfl) fun v outcome =>
      v.afterLaunch_rests a exe outcome
  | diagnosing a inquiry =>
    simp only [start]
    split
    · trivial
    · exact ((w.diagnosis _).1.failStart_rests a _).deals
  | noting a details =>
    simp only [start]
    split
    · exact .rest (.refl _)
    · rename_i v hv
      have hclients : v.clients = w.clients := w.storeUnlessCancelled_clients hv
      exact .rest (.of_eq hclients)
  | connecting a details k deadline =>
    simp only [start]
    split
    · exact .rest (.refl _)
    · exact w.awaitConnection_deals a details k deadline
  | opening a c o =>
    simp only [start, Starting.letsGo]
    split
    · rename_i hcancelled
      rw [hcancelled]
      have hspares := w.spares_abandonClient c
      cases o with
      | asking q => exact .letGo hspares rfl
      | telling => exact .rest hspares
    · rename_i hcancelled
      rw [Bool.not_eq_true] at hcancelled
      rw [hcancelled]
      refine .andThen (w.opening_deals c o) (fun _ => rfl) fun v result => ?_
      split
      · exact ⟨.refl _, rfl⟩
      · exact .after (v.spares_abandonClient c) ((v.abandonClient c).failStart_rests a _)
  | keeping a c => exact w.keepClient_deals a c
  | asking a c q =>
    simp only [start, Starting.letsGo]
    split
    · rename_i hcancelled
      rw [hcancelled]
      exact .letGo (.refl _) rfl
    · rename_i hcancelled
      rw [Bool.not_eq_true] at hcancelled
      rw [hcancelled]
      exact .andThen (w.request_deals c q) (fun _ => rfl) fun v result => v.afterVersion_rests a _
  | concluding a version => exact (w.conclude_rests a version).deals
  | failing a failure r =>
    exact .andThen (w.release_deals a.generation r) (fun _ => rfl) fun v _ =>
      v.endFailedStart_rests a failure

/-! ## Calls -/

/-- A part of a call begins without a request. -/
theorem beginPhase_rests (p : Phase) :
    (w.beginPhase p).Rests w.clients PhasePlace.request? := by
  cases p with
  | announce name => exact w.spares_of_wires (w.wires_announceDefault name)
  | stop => exact .andThen w.beginStop_rests (fun _ => rfl) fun _ _ => .finished _ _
  | start name => exact .andThen (w.beginStart_rests name) (fun _ => rfl) fun _ _ => .finished _ _
  | settle => exact .refl _

/-- The parts of a call begin without a request. -/
theorem runPhases_rests (next : List Phase) :
    (w.runPhases next).Rests w.clients Job.request? := by
  induction next generalizing w with
  | nil => exact .refl _
  | cons p rest ih =>
    rw [runPhases_cons]
    refine .andThen (w.beginPhase_rests p) (fun _ => rfl) fun v r => ?_
    cases r with
    | done => exact ih v
    | aborted => exact .finished _ _

/-- Beginning an exchange begins its request. -/
theorem beginExchange_deals {σ : Type} {c : Nat} {begin : Client → Client × σ} {wrap : σ → Job}
    (h : ∀ a, ∃ q, (wrap (begin a).2).request? = some (c, q) ∧ q.id = a.nextId ∧
      q.place = .registering ∧ { a with nextId := a.nextId + 1 }.Agrees (begin a).1) :
    (w.beginExchange c begin wrap).Deals w.now false none w.clients Job.request? := by
  unfold beginExchange
  split
  · trivial
  · rename_i a ha
    obtain ⟨q, hq, hid, hplace, hb⟩ := h a
    simp only [Progress.Deals, Progress.Gives, hq]
    exact w.begin_deals (.refl _) ha hid hplace hb

/-- A call begins with one request at most. -/
theorem beginCall_deals (command : Command) :
    (w.beginCall command).Deals w.now false none w.clients Job.request? := by
  cases command with
  | start => exact (w.runPhases_rests _).deals
  | stop => exact (w.runPhases_rests _).deals
  | restart name => exact (w.runPhases_rests _).deals
  | changeDefault name => exact (w.runPhases_rests _).deals
  | startDebug name =>
    exact .of_ends (w.beginDebug_wires name) (fun _ => rfl) fun _ _ => .finished _ _
  | stopDebug => exact .rest (.refl _)
  | reveal preserve =>
    refine .rest (w.spares_of_wires ?_)
    cases w.session.process with
    | none => rfl
    | some p => exact w.wires_tellProcess p.value _
  | updateSettings s => exact .rest (w.spares_of_wires (w.wires_updateSettings s))
  | settings => exact .rest (.refl _)
  | available =>
    exact .rest (w.spares_of_wires (w.wires_learn ((w.finder w.settings).all w.config.probe)))
  | executable => exact .rest (.refl _)
  | launch p =>
    exact .of_ends (w.beginLaunch_wires p) (fun _ => rfl) fun _ _ => .finished _ _
  | openClient c profileLoading cwd timeout =>
    simp only [beginCall]
    exact w.beginExchange_deals fun a => ⟨_, rfl, rfl, rfl, .of_same rfl rfl rfl rfl rfl rfl⟩
  | askVersion c timeout =>
    simp only [beginCall]
    exact w.beginExchange_deals fun a => ⟨_, rfl, rfl, rfl, .of_same rfl rfl rfl rfl rfl rfl⟩
  | closeClient c timeout =>
    simp only [beginCall]
    exact w.beginExchange_deals fun a => ⟨_, rfl, rfl, rfl, .of_same rfl rfl rfl rfl rfl rfl⟩

/-- A part of a call deals with the request of its stop or its start. -/
theorem phase_deals (place : PhasePlace) (next : List Phase) :
    (w.phase place).Deals w.now (Job.letsGo w (.phased place next)) place.request? w.clients
      PhasePlace.request? := by
  cases place with
  | stopping p => exact .andThen (w.stop_deals p) (fun _ => rfl) fun _ _ => .finished _ _
  | starting p => exact .andThen (w.start_deals p) (fun _ => rfl) fun _ _ => .finished _ _

/-- Every piece of a call deals with the request that the call has under way. -/
theorem call_deals (job : Job) :
    (w.call job).Deals w.now (job.letsGo w) job.request? w.clients Job.request? := by
  cases job with
  | fresh command => exact w.beginCall_deals command
  | phased place next =>
    rw [call_phased]
    refine .andThen (w.phase_deals place next) (fun _ => rfl) fun v r => ?_
    cases r with
    | done => exact v.runPhases_rests next
    | aborted => exact .finished _ _
  | debugging place =>
    exact .of_ends (w.debug_wires place) (fun _ => rfl) fun _ _ => .finished _ _
  | endingDebug => exact .rest (w.spares_of_wires w.wires_endDebug)
  | launching p place =>
    exact .of_ends (w.launch_wires p place) (fun _ => rfl) fun _ _ => .finished _ _
  | opening c o =>
    refine .andThen (w.opening_deals c o) (fun _ => rfl) fun v result => ?_
    cases result with
    | ok _ => exact .refl _
    | error why => exact v.spares_abandonClient c
  | asking c q => exact .andThen (w.request_deals c q) (fun _ => rfl) fun _ _ => .finished _ _
  | closing c s => exact .andThen (w.closing_deals c s) (fun _ => rfl) fun _ _ => .finished _ _

end World

end SessionHost
