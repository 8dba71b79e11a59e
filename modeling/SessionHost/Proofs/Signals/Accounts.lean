import SessionHost.Proofs.Signals.Wires

/-!
# The accounts of all clients

A connection belongs to one client, a client to one start or one pump, and whoever stops a client
has one that was taken out of the session.  So what was sent on the connection of a client that was
not stopped, and what was heard from this client, are told by this client's own account, whatever
happens to others.

Main definitions:

- `Wires.Account`: the account of a client.
- `Accounts`: who is at which end of the wires, and that all accounts are right.

Main results:

- Theorem `Wiring.accounts`: every piece of an activity keeps the accounts.
- Theorem `Accounts.modify`: so does every change of a client that its own account answers for.
-/

namespace SessionHost

open Rpc (FrameReader ServerSignal)

/-! ## Accounts -/

/-- The account of a client, right as long as the client was not stopped; and whether a response
must have been read. -/
def Wires.Account (x : Wires) (sent : Nat → List UInt8) (heard : Nat → List ServerSignal)
    (c : Nat) (answered : Bool) : Prop :=
  ∃ a q, x.clients[c]? = some a ∧ x.connections[a.connection]? = some q ∧
    (a.stops = 0 → ∃ read, Hearing x.mailboxRoom a q (sent a.connection) read (heard c) ∧
      (answered = true → read.any isResponse = true))

/-- Who is at which end of the wires.  Everybody has an end of his own, and all accounts are
right. -/
structure Accounts (sent : Nat → List UInt8) (heard : Nat → List ServerSignal) (x : Wires)
    (line : Runner → Line) : Prop where
  unsent : ∀ {k : Nat}, x.connections.length ≤ k → sent k = []
  unheard : ∀ {c : Nat}, c ∉ x.pumps → heard c = []
  attached : ∀ {c : Nat} {a : Client}, x.clients[c]? = some a →
    a.connection < x.connections.length
  alone : ∀ {c d : Nat} {a b : Client}, x.clients[c]? = some a → x.clients[d]? = some b →
    a.connection = b.connection → c = d
  dialled : ∀ {r : Runner} {k : Nat}, line r = .dialled k →
    (∃ q, x.connections[k]? = some q ∧ sent k = q.toClient) ∧
      (∀ {c : Nat} {a : Client}, x.clients[c]? = some a → a.connection ≠ k) ∧
      ∀ {s : Runner}, line s = .dialled k → r = s
  opened : ∀ {r : Runner} {c : Nat} {answered : Bool}, line r = .opened c answered →
    x.Account sent heard c answered ∧ c ∉ x.pumps ∧
      ∀ {s : Runner} {answered' : Bool}, line s = .opened c answered' → r = s
  closing : ∀ {r : Runner} {c : Nat}, line r = .closing c →
    ∃ a, x.clients[c]? = some a ∧ 0 < a.stops
  pumped : ∀ {c : Nat}, c ∈ x.pumps → x.Account sent heard c true
  once : x.pumps.Nodup

namespace Wires.Account

variable {x x' : Wires} {sent sent' : Nat → List UInt8} {heard heard' : Nat → List ServerSignal}
  {c : Nat} {answered : Bool}

/-- The account of a client that has changed together with its connection. -/
theorem imp (h : x.Account sent heard c answered) (hroom : x'.mailboxRoom = x.mailboxRoom)
    (hx : ∀ {a : Client} {q : Connection}, x.clients[c]? = some a →
      x.connections[a.connection]? = some q →
      ∃ b p, x'.clients[c]? = some b ∧ x'.connections[b.connection]? = some p ∧
        (b.stops = 0 → a.stops = 0 ∧ ∀ {read},
          Hearing x.mailboxRoom a q (sent a.connection) read (heard c) →
          (answered = true → read.any isResponse = true) →
          ∃ read', read <+: read' ∧
            Hearing x.mailboxRoom b p (sent' b.connection) read' (heard' c))) :
    x'.Account sent' heard' c answered := by
  obtain ⟨a, q, ha, hq, hread⟩ := h
  obtain ⟨b, p, hb, hp, hcase⟩ := hx ha hq
  refine ⟨b, p, hb, hp, fun hs => ?_⟩
  rw [hroom]
  obtain ⟨hs', himp⟩ := hcase hs
  obtain ⟨read, hhearing, hany⟩ := hread hs'
  obtain ⟨read', ⟨more, rfl⟩, hhearing'⟩ := himp hhearing hany
  refine ⟨_, hhearing', fun hanswered => ?_⟩
  rw [List.any_append, hany hanswered, Bool.true_or]

/-- The account of a client that others do not touch. -/
theorem of_same (h : x.Account sent heard c answered) (hroom : x'.mailboxRoom = x.mailboxRoom)
    (hc : x'.clients[c]? = x.clients[c]?)
    (hk : ∀ {a : Client}, x.clients[c]? = some a →
      x'.connections[a.connection]? = x.connections[a.connection]? ∧
        sent' a.connection = sent a.connection) (hheard : heard' c = heard c) :
    x'.Account sent' heard' c answered :=
  h.imp hroom fun {a q} ha hq =>
    ⟨a, q, hc.trans ha, (hk ha).1.trans hq, fun hs => ⟨hs, fun {read} hread _ =>
      ⟨read, List.prefix_rfl, by rw [(hk ha).2, hheard]; exact hread⟩⟩⟩

end Wires.Account

/-! ## What others have in hand -/

namespace Line

variable {line : Runner → Line} {r s t : Runner} {l : Line}

/-- An activity has something else in hand, or it is another one. -/
theorem update_cases {P : Line → Prop} (h : P (Function.update line r l s)) :
    s = r ∧ P l ∨ s ≠ r ∧ P (line s) := by
  by_cases hsr : s = r
  · subst hsr
    rw [Function.update_self] at h
    exact .inl ⟨rfl, h⟩
  · rw [Function.update_of_ne hsr] at h
    exact .inr ⟨hsr, h⟩

/-- What one activity alone had in hand is in nobody's hands when it has nothing any longer. -/
theorem gone {P : Line → Prop} (hidle : ¬ P .idle) (honce : ∀ {s}, P (line s) → r = s)
    (t : Runner) : ¬ P (Function.update line r .idle t) := fun h => by
  rcases update_cases h with ⟨-, hnew⟩ | ⟨htr, hold⟩
  · exact hidle hnew
  · exact htr (honce hold).symm

/-- What nobody else has in hand stays in the hands of one. -/
theorem once_update {P : Line → Prop} (hnew : P l → ∀ s, s ≠ r → ¬ P (line s))
    (hold : ∀ {s t}, P (line s) → P (line t) → s = t) (hs : P (Function.update line r l s))
    (ht : P (Function.update line r l t)) : s = t := by
  rcases update_cases hs with ⟨hsr, hs'⟩ | ⟨hsr, hs'⟩ <;>
    rcases update_cases ht with ⟨htr, ht'⟩ | ⟨htr, ht'⟩
  · rw [hsr, htr]
  · exact absurd ht' (hnew hs' t htr)
  · exact absurd hs' (hnew ht' s hsr)
  · exact hold hs' ht'

end Line

/-! ## Changes of the wires -/

namespace Accounts

variable {sent sent' : Nat → List UInt8} {heard heard' : Nat → List ServerSignal} {x : Wires}
  {line : Runner → Line} {c j : Nat} {a b : Client} {p q : Connection}

/-- An activity has something else in hand. -/
theorem update (h : Accounts sent heard x line) (r : Runner) {l : Line}
    (hdialled : ∀ {k : Nat}, l = .dialled k →
      (∃ q, x.connections[k]? = some q ∧ sent k = q.toClient) ∧
        (∀ {c : Nat} {a : Client}, x.clients[c]? = some a → a.connection ≠ k) ∧
          ∀ s, s ≠ r → line s ≠ .dialled k)
    (hopened : ∀ {c : Nat} {answered : Bool}, l = .opened c answered →
      x.Account sent heard c answered ∧ c ∉ x.pumps ∧
        ∀ s answered', s ≠ r → line s ≠ .opened c answered')
    (hclosing : ∀ {c : Nat}, l = .closing c → ∃ a, x.clients[c]? = some a ∧ 0 < a.stops) :
    Accounts sent heard x (Function.update line r l) where
  unsent := h.unsent
  unheard := h.unheard
  attached := h.attached
  alone := h.alone
  pumped := h.pumped
  once := h.once
  closing {s c} hs := by
    rcases Line.update_cases (P := (· = .closing c)) hs with ⟨-, hs⟩ | ⟨-, hs⟩
    · exact hclosing hs
    · exact h.closing hs
  dialled {s k} hs := by
    have honce : ∀ {t : Runner}, Function.update line r l t = .dialled k → s = t :=
      Line.once_update (P := (· = .dialled k)) (fun hl => (hdialled hl).2.2)
        (fun hs ht => (h.dialled hs).2.2 ht) hs
    rcases Line.update_cases (P := (· = .dialled k)) hs with ⟨-, hs⟩ | ⟨-, hs⟩
    · obtain ⟨hq, hfree, -⟩ := hdialled hs
      exact ⟨hq, hfree, honce⟩
    · obtain ⟨hq, hfree, -⟩ := h.dialled hs
      exact ⟨hq, hfree, honce⟩
  opened {s c answered} hs := by
    have honce : ∀ {t : Runner} {answered' : Bool},
        Function.update line r l t = .opened c answered' → s = t := fun ht =>
      Line.once_update (P := fun l => ∃ answered, l = .opened c answered)
        (fun ⟨_, hl⟩ t htr ⟨answered', ht⟩ => (hopened hl).2.2 t answered' htr ht)
        (fun ⟨_, hs⟩ ⟨_, ht⟩ => (h.opened hs).2.2 ht) ⟨_, hs⟩ ⟨_, ht⟩
    rcases Line.update_cases (P := (· = .opened c answered)) hs with ⟨-, hs⟩ | ⟨-, hs⟩
    · obtain ⟨hq, hfree, -⟩ := hopened hs
      exact ⟨hq, hfree, honce⟩
    · obtain ⟨hq, hfree, -⟩ := h.opened hs
      exact ⟨hq, hfree, honce⟩

/-- An activity has nothing in hand any longer. -/
theorem drop (h : Accounts sent heard x line) (r : Runner) :
    Accounts sent heard x (Function.update line r .idle) :=
  h.update r nofun nofun nofun

/-- A client changes together with its connection.  Only a client with an account has to answer
for the change. -/
theorem modify (h : Accounts sent heard x line) (ha : x.clients[c]? = some a)
    (hq : x.connections[a.connection]? = some q) (hk : b.connection = a.connection)
    (hs : a.stops ≤ b.stops) (hother : ∀ d, d ≠ c → heard' d = heard d)
    (hunheard : c ∉ x.pumps → heard' c = [])
    (hhear : (c ∈ x.pumps ∨ ∃ r answered, line r = .opened c answered) → b.stops = 0 →
      ∀ {read}, Hearing x.mailboxRoom a q (sent a.connection) read (heard c) →
        (c ∈ x.pumps → read.any isResponse = true) →
        ∃ read', read <+: read' ∧
          Hearing x.mailboxRoom b p (sent a.connection) read' (heard' c)) :
    Accounts sent heard'
      { x with clients := x.clients.set c b, connections := x.connections.set a.connection p }
      line := by
  have hconnection {d : Nat} {e : Client} (he : (x.clients.set c b)[d]? = some e) :
      ∃ e', x.clients[d]? = some e' ∧ e'.connection = e.connection := by
    rcases getElem?_set_cases he with ⟨rfl, rfl⟩ | ⟨-, he⟩
    · exact ⟨a, ha, hk.symm⟩
    · exact ⟨e, he, rfl⟩
  have haccount {d : Nat} {answered : Bool} (hd : x.Account sent heard d answered)
      (hheld : d ∈ x.pumps ∨ ∃ r answered, line r = .opened d answered)
      (hpump : d ∈ x.pumps → answered = true) :
      Wires.Account
        { x with clients := x.clients.set c b, connections := x.connections.set a.connection p }
        sent heard' d answered := by
    by_cases hdc : d = c
    · subst hdc
      refine hd.imp rfl fun {a' q'} ha' hq' => ?_
      obtain rfl : a = a' := Option.some.inj (ha.symm.trans ha')
      obtain rfl : q = q' := Option.some.inj (hq.symm.trans hq')
      refine ⟨b, p, getElem?_set_at ha b, by rw [hk]; exact getElem?_set_at hq p, fun hb => ?_⟩
      refine ⟨by omega, fun {read} hread hany => ?_⟩
      rw [hk]
      exact hhear hheld hb hread fun hmem => hany (hpump hmem)
    · refine hd.of_same rfl (List.getElem?_set_ne (Ne.symm hdc)) (fun {e} he => ?_) (hother d hdc)
      exact ⟨List.getElem?_set_ne fun heq => hdc (h.alone he ha heq.symm), rfl⟩
  constructor
  case unsent =>
    intro k hk
    exact h.unsent (by simpa using hk)
  case unheard =>
    intro d hd
    by_cases hdc : d = c
    · subst hdc
      exact hunheard hd
    · rw [hother d hdc]
      exact h.unheard hd
  case attached =>
    intro d e he
    obtain ⟨e', he', hconn⟩ := hconnection he
    rw [← hconn]
    simpa using h.attached he'
  case alone =>
    intro d d' e e' he he' heq
    obtain ⟨f, hf, hconn⟩ := hconnection he
    obtain ⟨f', hf', hconn'⟩ := hconnection he'
    exact h.alone hf hf' (by rw [hconn, hconn', heq])
  case dialled =>
    intro r k hr
    obtain ⟨⟨q', hq', hsent⟩, hfree, honce⟩ := h.dialled hr
    refine ⟨⟨q', ?_, hsent⟩, fun {d e} he => ?_, honce⟩
    · rw [List.getElem?_set_ne (hfree ha)]
      exact hq'
    · obtain ⟨f, hf, hconn⟩ := hconnection he
      rw [← hconn]
      exact hfree hf
  case opened =>
    intro r d answered hr
    obtain ⟨hd, hfree, honce⟩ := h.opened hr
    exact ⟨haccount hd (.inr ⟨r, answered, hr⟩) fun hmem => absurd hmem hfree, hfree, honce⟩
  case closing =>
    intro r d hr
    obtain ⟨e, he, hstops⟩ := h.closing hr
    rcases getElem?_set_or ha he b with ⟨rfl, rfl⟩ | he
    · exact ⟨b, getElem?_set_at ha b, Nat.lt_of_lt_of_le hstops hs⟩
    · exact ⟨e, he, hstops⟩
  case pumped =>
    intro d hd
    exact haccount (h.pumped hd) (.inl hd) fun _ => rfl
  case once => exact h.once

/-- A client changes, and its connection does not. -/
theorem setClient (h : Accounts sent heard x line) (ha : x.clients[c]? = some a)
    (hk : b.connection = a.connection) (hs : a.stops ≤ b.stops)
    (hother : ∀ d, d ≠ c → heard' d = heard d) (hunheard : c ∉ x.pumps → heard' c = [])
    (hhear : (c ∈ x.pumps ∨ ∃ r answered, line r = .opened c answered) → b.stops = 0 →
      ∀ {q read}, Hearing x.mailboxRoom a q (sent a.connection) read (heard c) →
        (c ∈ x.pumps → read.any isResponse = true) →
        ∃ read', read <+: read' ∧
          Hearing x.mailboxRoom b q (sent a.connection) read' (heard' c)) :
    Accounts sent heard' { x with clients := x.clients.set c b } line := by
  obtain ⟨hlt, hget⟩ : ∃ hlt : a.connection < x.connections.length,
      x.connections[a.connection]? = some x.connections[a.connection] :=
    ⟨h.attached ha, List.getElem?_eq_getElem _⟩
  have hmodify := h.modify (p := x.connections[a.connection]) ha hget hk hs hother hunheard
    fun hheld hb _ hread hany => hhear hheld hb hread hany
  rwa [List.set_getElem_self hlt] at hmodify

/-- A client that only talks. -/
theorem talk (h : Accounts sent heard x line) (ha : x.clients[c]? = some a) (ht : a.Talks b) :
    Accounts sent heard { x with clients := x.clients.set c b } line :=
  h.setClient ha ht.connection ht.stops (fun _ _ => rfl) h.unheard
    fun _ _ {_ read} hread _ => ⟨read, List.prefix_rfl, hread.talk ht⟩

/-- A connection changes at its server's end. -/
theorem setConnection (h : Accounts sent heard x line) (hq : x.connections[j]? = some q)
    (hother : ∀ k, k ≠ j → sent' k = sent k)
    (hdial : sent j = q.toClient → sent' j = p.toClient)
    (hhear : ∀ {a read heard'}, Hearing x.mailboxRoom a q (sent j) read heard' →
      Hearing x.mailboxRoom a p (sent' j) read heard') :
    Accounts sent' heard { x with connections := x.connections.set j p } line := by
  have haccount {d : Nat} {answered : Bool} (hd : x.Account sent heard d answered) :
      Wires.Account { x with connections := x.connections.set j p } sent' heard d answered := by
    refine hd.imp rfl fun {a q'} ha hq' => ?_
    by_cases hj : a.connection = j
    · obtain rfl : q = q' := by rw [hj, hq] at hq'; exact Option.some.inj hq'
      refine ⟨a, p, ha, by rw [hj]; exact getElem?_set_at hq p, fun hs => ⟨hs, ?_⟩⟩
      intro read hread _
      rw [hj] at hread ⊢
      exact ⟨read, List.prefix_rfl, hhear hread⟩
    · have hq'' : (x.connections.set j p)[a.connection]? = some q' := by
        rw [List.getElem?_set_ne (Ne.symm hj)]
        exact hq'
      refine ⟨a, q', ha, hq'', fun hs => ⟨hs, fun {read} hread _ => ⟨read, List.prefix_rfl, ?_⟩⟩⟩
      rw [hother _ hj]
      exact hread
  have hlt : j < x.connections.length := (List.getElem?_eq_some_iff.1 hq).1
  constructor
  case unsent =>
    intro k hk
    have hk' : x.connections.length ≤ k := by simpa using hk
    rw [hother k (by omega)]
    exact h.unsent hk'
  case unheard => exact h.unheard
  case attached =>
    intro d e he
    simpa using h.attached he
  case alone => exact h.alone
  case dialled =>
    intro r k hr
    obtain ⟨⟨q', hq', hsent⟩, hfree, honce⟩ := h.dialled hr
    refine ⟨?_, hfree, honce⟩
    by_cases hk : k = j
    · subst hk
      obtain rfl : q = q' := Option.some.inj (hq.symm.trans hq')
      exact ⟨p, getElem?_set_at hq p, hdial hsent⟩
    · refine ⟨q', ?_, by rw [hother k hk]; exact hsent⟩
      rw [List.getElem?_set_ne (Ne.symm hk)]
      exact hq'
  case opened =>
    intro r d answered hr
    obtain ⟨hd, hfree, honce⟩ := h.opened hr
    exact ⟨haccount hd, hfree, honce⟩
  case closing => exact h.closing
  case pumped =>
    intro d hd
    exact haccount (h.pumped hd)
  case once => exact h.once

/-- Somebody dials. -/
theorem appendConnection (h : Accounts sent heard x line) (q : Connection) :
    Accounts sent heard { x with connections := x.connections ++ [q] } line := by
  have haccount {d : Nat} {answered : Bool} (hd : x.Account sent heard d answered) :
      Wires.Account { x with connections := x.connections ++ [q] } sent heard d answered := by
    refine hd.of_same rfl rfl (fun {a} ha => ⟨?_, rfl⟩) rfl
    exact List.getElem?_append_left (h.attached ha)
  constructor
  case unsent =>
    intro k hk
    refine h.unsent ?_
    simp only [List.length_append, List.length_singleton] at hk
    omega
  case unheard => exact h.unheard
  case attached =>
    intro d e he
    rw [List.length_append]
    exact Nat.lt_add_right _ (h.attached he)
  case alone => exact h.alone
  case dialled =>
    intro r k hr
    obtain ⟨⟨q', hq', hsent⟩, hfree, honce⟩ := h.dialled hr
    exact ⟨⟨q', getElem?_append_of_some hq' q, hsent⟩, hfree, honce⟩
  case opened =>
    intro r d answered hr
    obtain ⟨hd, hfree, honce⟩ := h.opened hr
    exact ⟨haccount hd, hfree, honce⟩
  case closing => exact h.closing
  case pumped =>
    intro d hd
    exact haccount (h.pumped hd)
  case once => exact h.once

/-- A client is put on a connection that nobody else has. -/
theorem appendClient (h : Accounts sent heard x line) (hb : b.connection < x.connections.length)
    (halone : ∀ {c : Nat} {a : Client}, x.clients[c]? = some a → a.connection ≠ b.connection)
    (hdial : ∀ r, line r ≠ .dialled b.connection) :
    Accounts sent heard { x with clients := x.clients ++ [b] } line := by
  have haccount {d : Nat} {answered : Bool} (hd : x.Account sent heard d answered) :
      Wires.Account { x with clients := x.clients ++ [b] } sent heard d answered := by
    refine hd.of_same rfl ?_ (fun {a} ha => ⟨rfl, rfl⟩) rfl
    obtain ⟨a, q, ha, -⟩ := hd
    rw [ha]
    exact getElem?_append_of_some ha b
  constructor
  case unsent => exact h.unsent
  case unheard => exact h.unheard
  case attached =>
    intro d e he
    rcases getElem?_append_cases he with he | ⟨-, rfl⟩
    · exact h.attached he
    · exact hb
  case alone =>
    intro d d' e e' he he' heq
    rcases getElem?_append_cases he with hold | ⟨hd, rfl⟩
    · rcases getElem?_append_cases he' with hold' | ⟨-, rfl⟩
      · exact h.alone hold hold' heq
      · exact absurd heq (halone hold)
    · rcases getElem?_append_cases he' with hold' | ⟨hd', -⟩
      · exact absurd heq.symm (halone hold')
      · rw [hd, hd']
  case dialled =>
    intro r k hr
    obtain ⟨hq, hfree, honce⟩ := h.dialled hr
    refine ⟨hq, fun {d e} he => ?_, honce⟩
    rcases getElem?_append_cases he with he | ⟨-, rfl⟩
    · exact hfree he
    · intro hk
      exact hdial r (hk ▸ hr)
  case opened =>
    intro r d answered hr
    obtain ⟨hd, hfree, honce⟩ := h.opened hr
    exact ⟨haccount hd, hfree, honce⟩
  case closing =>
    intro r d hr
    obtain ⟨e, he, hs⟩ := h.closing hr
    exact ⟨e, getElem?_append_of_some he b, hs⟩
  case pumped =>
    intro d hd
    exact haccount (h.pumped hd)
  case once => exact h.once

/-- A client is handed to a pump. -/
theorem appendPump (h : Accounts sent heard x line) (hc : x.Account sent heard c true)
    (hfree : c ∉ x.pumps) (hopened : ∀ r answered, line r ≠ .opened c answered) :
    Accounts sent heard { x with pumps := x.pumps ++ [c] } line := by
  constructor
  case unsent => exact h.unsent
  case unheard => exact fun hd => h.unheard fun hmem => hd (List.mem_append_left _ hmem)
  case attached => exact h.attached
  case alone => exact h.alone
  case dialled => exact h.dialled
  case opened =>
    intro r d answered hr
    obtain ⟨hd, hnot, honce⟩ := h.opened hr
    refine ⟨hd, fun hmem => ?_, honce⟩
    rcases List.mem_append.1 hmem with hmem | hmem
    · exact hnot hmem
    · obtain rfl := List.mem_singleton.1 hmem
      exact hopened r answered hr
  case closing => exact h.closing
  case pumped =>
    intro d hd
    rcases List.mem_append.1 hd with hd | hd
    · exact h.pumped hd
    · obtain rfl := List.mem_singleton.1 hd
      exact hc
  case once =>
    exact List.nodup_append.2 ⟨h.once, List.pairwise_singleton _ c, fun d hd e he => by
      rw [List.mem_singleton.1 he]
      exact fun hdc => hfree (hdc ▸ hd)⟩

end Accounts

/-! ## Pieces of activities -/

section Pieces

variable {sent : Nat → List UInt8} {heard : Nat → List ServerSignal} {x x' : Wires}
  {line : Runner → Line} {r : Runner} {l l' : Line}

/-- Every piece of an activity keeps the accounts. -/
theorem Wiring.accounts (h : Wiring l x l' x') (s : Accounts sent heard x line)
    (hl : line r = l) : Accounts sent heard x' (Function.update line r l') := by
  have hsame : Function.update line r l = line := hl ▸ Function.update_eq_self r line
  cases h with
  | drop => exact s.drop r
  | dial endpoint =>
    refine (s.appendConnection _).update r (fun {k} hk => ?_) nofun nofun
    cases hk
    have hsent := s.unsent (Nat.le_refl x.connections.length)
    refine ⟨⟨_, List.getElem?_concat_length, hsent⟩, fun {c a} ha => ?_, fun t _ ht => ?_⟩
    · exact Nat.ne_of_lt (s.attached ha)
    · obtain ⟨⟨q, hq, -⟩, -⟩ := s.dialled ht
      rw [List.getElem?_eq_none (Nat.le_refl _)] at hq
      cases hq
  | @«open» _ k =>
    obtain ⟨⟨q, hq, hsent⟩, hfree, honce⟩ := s.dialled hl
    have hnew {c : Nat} {answered : Bool} (hc : x.Account sent heard c answered) :
        c ≠ x.clients.length := by
      obtain ⟨a, q, ha, -⟩ := hc
      exact Nat.ne_of_lt (List.getElem?_eq_some_iff.1 ha).1
    have hdropped := (s.drop r).appendClient
      (b := { connection := k, mailboxRoom := x.mailboxRoom })
      (List.getElem?_eq_some_iff.1 hq).1 hfree
      fun t => Line.gone (P := (· = .dialled k)) nofun honce t
    rw [← Function.update_idem (a := r) (v := Line.idle)]
    refine hdropped.update r nofun (fun {c answered} hc => ?_) nofun
    cases hc
    have hpump : x.clients.length ∉ x.pumps := fun hmem => hnew (s.pumped hmem) rfl
    refine ⟨⟨_, q, List.getElem?_concat_length, hq, fun _ => ⟨[], ?_, nofun⟩⟩, hpump, ?_⟩
    · rw [s.unheard hpump]
      exact .of_new rfl rfl rfl rfl hsent.symm rfl
    · intro t answered' htr ht
      rw [Function.update_of_ne htr] at ht
      exact hnew (s.opened ht).1 rfl
  | talk ha ht =>
    rw [hsame]
    exact s.talk ha ht
  | @learn _ c a ha hanswers =>
    obtain ⟨hc, hfree, honce⟩ := s.opened hl
    refine s.update r nofun (fun {d answered} hd => ?_) nofun
    cases hd
    refine ⟨?_, hfree, fun t answered' htr ht => htr (honce ht).symm⟩
    obtain ⟨a', q, ha', hq, hread⟩ := hc
    obtain rfl : a = a' := Option.some.inj (ha.symm.trans ha')
    refine ⟨a, q, ha, hq, fun hs => ?_⟩
    obtain ⟨read, hhearing, -⟩ := hread hs
    exact ⟨read, hhearing, fun _ => hhearing.answered (.inl hanswers)⟩
  | @abandon _ c answered a ha =>
    obtain ⟨-, hfree, honce⟩ := s.opened hl
    refine (s.drop r).setClient ha rfl (Nat.le_refl _) (fun _ _ => rfl) s.unheard ?_
    rintro (hmem | ⟨t, ht⟩)
    · exact absurd hmem hfree
    · refine absurd ht (Line.gone (P := fun l => ∃ answered, l = .opened c answered) nofun ?_ t)
      exact fun ⟨_, hs⟩ => honce hs
  | @keep _ c =>
    obtain ⟨hc, hfree, honce⟩ := s.opened hl
    refine (s.drop r).appendPump hc hfree fun t answered => ?_
    exact Line.gone (P := (· = .opened c answered)) nofun honce t
  | @retire _ c a b ha ht hs =>
    refine (s.talk ha ht).update r nofun nofun fun {d} hd => ?_
    cases hd
    exact ⟨b, getElem?_set_at ha b, by omega⟩
  | @close _ c a b ha hk hs =>
    obtain ⟨a', ha', hstops⟩ := s.closing hl
    obtain rfl : a = a' := Option.some.inj (ha.symm.trans ha')
    rw [hsame]
    refine s.setClient ha hk hs (fun _ _ => rfl) s.unheard fun _ hb => ?_
    omega

/-- So does a chain of them. -/
theorem Wirings.accounts (h : Wirings l x l' x') (s : Accounts sent heard x line)
    (hl : line r = l) : Accounts sent heard x' (Function.update line r l') := by
  refine h.keeps (P := fun l x => Accounts sent heard x (Function.update line r l)) ?_ ?_
  · intro m m' y y' hy hwiring
    have hnext := hwiring.accounts (r := r) hy (Function.update_self r m line)
    rwa [Function.update_idem] at hnext
  · rw [← hl, Function.update_eq_self]
    exact s

end Pieces

end SessionHost
