import SessionHost.Proofs.Lifecycle.Outline
import SessionHost.Proofs.Signals.Activities

/-!
# What a dialogue leaves alone

The exchanges of a client with its server, and its reading and writing activities, change the
inner state of the client only.  The outline of the world stays the same, except when somebody
sets out to stop the client.

Main definitions:

- `Progress.Ends`: what holds wherever a piece of an activity leads.

Main results:

- Theorem `World.onClient_outline`: a piece of an exchange leaves the outline as it is.
- Theorem `World.onWire_outline`: so does a piece of reading or writing.
-/

namespace SessionHost

/-! ## Wherever a piece leads -/

/-- The property holds of the world that a piece of an activity leads to. -/
def Progress.Ends {ω σ α : Type} (p : Progress ω σ α) (P : ω → Prop) : Prop :=
  match p with
  | .blocked => True
  | .going w _ => P w
  | .finished w _ => P w

namespace Progress.Ends

variable {ω υ σ τ α β : Type} {p : Progress ω σ α} {P Q : ω → Prop}

/-- What holds at every end may be said more weakly. -/
theorem imp (h : p.Ends P) (hPQ : ∀ w, P w → Q w) : p.Ends Q := by
  cases p with
  | blocked => trivial
  | going w s => exact hPQ w h
  | finished w a => exact hPQ w h

/-- What a piece leads to, when it is a part of a larger one. -/
theorem bind (h : p.Ends P) (hPQ : ∀ w, P w → Q w) {wrap : σ → τ}
    {next : ω → α → Progress ω τ β} (hnext : ∀ w a, P w → (next w a).Ends Q) :
    (p.andThen wrap next).Ends Q := by
  cases p with
  | blocked => trivial
  | going w s => exact hPQ w h
  | finished w a => exact hnext w a h

/-- A larger piece ends where its second part does, after the first. -/
theorem andThen (h : p.Ends P) {wrap : σ → τ} {next : ω → α → Progress ω τ β}
    (hnext : ∀ w a, P w → (next w a).Ends P) : (p.andThen wrap next).Ends P :=
  h.bind (fun _ => id) hnext

/-- A piece with a time limit ends where it would without, or late. -/
theorem orWhenLate (h : p.Ends P) {expired : Bool} {late : Progress ω σ α}
    (hlate : late.Ends P) : (p.orWhenLate expired late).Ends P := by
  cases p with
  | blocked => cases expired <;> assumption
  | going w s => exact h
  | finished w a => exact h

/-- A piece of one part of a world ends in a world with that part. -/
theorem within (h : p.Ends P) {embed : ω → υ} {Q : υ → Prop} (hQ : ∀ w, P w → Q (embed w)) :
    (p.within embed).Ends Q := by
  cases p with
  | blocked => trivial
  | going w s => exact hQ w h
  | finished w a => exact hQ w h

end Progress.Ends

/-! ## How often a client was stopped -/

namespace Client

variable {c c' : Client} {n : Nat}

theorem post_stops {item : Outgoing} (h : c.post item = .taken c') : c'.stops = c.stops := by
  obtain ⟨rfl, -⟩ := post_eq_taken h
  rfl

@[simp]
theorem answer_stops (id : Nat) (result : Except Rpc.ResponseError Json.Value) :
    (c.answer id result).stops = c.stops := by
  unfold answer
  split <;> rfl

@[simp]
theorem dismissWriter_stops : c.dismissWriter.stops = c.stops := by
  unfold dismissWriter
  split
  · rename_i h
    exact post_stops h
  · rfl
  · rfl

end Client

section Exchanges

variable {c : Client} {n : Nat}

/-- Nobody stops a client by asking it. -/
theorem Request.step_stops (r : Request) (now : Nat) (h : c.stops = n) :
    (r.step now c).Ends (·.stops = n) := by
  have hpiece := r.step_piece now c
  generalize r.step now c = x at hpiece ⊢
  cases hpiece with
  | post _ hpost => exact (Client.post_stops hpost).trans h
  | full | wait => trivial
  | register | refuse | answer | clear | expire | withdraw => exact h

/-- Nobody stops a client by opening it. -/
theorem Opening.step_stops (s : Opening) (now : Nat) (h : c.stops = n) :
    (s.step now c).Ends (·.stops = n) := by
  unfold Opening.step
  split
  · refine (Request.step_stops _ now h).andThen fun c' result h' => ?_
    split <;> exact h'
  · split
    · rename_i hpost
      exact (Client.post_stops hpost).trans h
    · trivial
    · exact h

theorem Closing.drain_stops (now : Nat) (h : c.stops = n) :
    (Closing.drain now c).Ends (·.stops = n) := by
  simp only [Closing.drain]
  split <;> exact Client.dismissWriter_stops.trans h

/-- A closing counts as a stop when it begins, and not again. -/
theorem Closing.step_stops (s : Closing) (now : Nat) (h : c.stops = n) :
    (s.step now c).Ends (·.stops = n) := by
  unfold Closing.step
  split
  · refine Progress.Ends.orWhenLate ?_ (drain_stops now h)
    refine (Request.step_stops _ now h).andThen fun c' result h' => ?_
    split
    · exact h'
    · exact drain_stops now h'
  · split
    · rename_i hpost
      exact drain_stops now ((Client.post_stops hpost).trans h)
    · exact drain_stops now h
    · split
      · exact drain_stops now h
      · trivial
  · split
    · exact h
    · split
      · exact h
      · trivial

end Exchanges

namespace Client

variable {c c' : Client} {k k' : Connection}

/-- Reading is no stop. -/
theorem read?_stops (h : c.read? k = some (c', k')) : c'.stops = c.stops := by
  cases read?_piece h with
  | answer hr => exact answer_stops _ _
  | _ => rfl

/-- Writing is no stop. -/
theorem write?_stops (h : c.write? k = some (c', k')) : c'.stops = c.stops := by
  cases write?_piece h <;> rfl

end Client

/-! ## The outline of the world -/

namespace World

variable {w v : World}

/-- A piece of an exchange leaves the outline as it is. -/
theorem onClient_outline {σ α : Type} (w : World) (i : Nat) {step : Client → ClientProgress σ α}
    (h : ∀ c, (step c).Ends (·.stops = c.stops)) :
    (w.onClient i step).Ends (·.outline = w.outline) := by
  unfold onClient
  split
  · trivial
  · rename_i c hc
    exact (h c).within fun c' hc' => w.outline_setClient hc hc'

/-- A piece of reading or writing is about one client and its connection. -/
theorem onWire?_cases {i : Nat} {step : Client → Connection → Option (Client × Connection)}
    (h : w.onWire? i step = some v) :
    ∃ c k c' k', w.clients[i]? = some c ∧ w.connections[c.connection]? = some k ∧
      step c k = some (c', k') ∧ v = (w.setClient i c').setConnection c.connection k' := by
  simp only [onWire?, Option.bind_eq_bind, Option.bind_eq_some_iff, Option.some.injEq] at h
  obtain ⟨c, hc, k, hk, ⟨c', k'⟩, hstep, rfl⟩ := h
  exact ⟨c, k, c', k', hc, hk, hstep, rfl⟩

/-- A piece of reading or writing leaves the outline as it is. -/
theorem onWire_outline {i : Nat} {step : Client → Connection → Option (Client × Connection)}
    (hstep : ∀ {c c' : Client} {k k' : Connection}, step c k = some (c', k') →
      c'.stops = c.stops) (h : w.onWire? i step = some v) : v.outline = w.outline := by
  obtain ⟨c, k, c', k', hc, -, hck, rfl⟩ := onWire?_cases h
  rw [outline_setConnection, w.outline_setClient hc (hstep hck)]

end World

end SessionHost
