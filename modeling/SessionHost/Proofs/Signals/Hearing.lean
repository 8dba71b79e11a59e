import SessionHost.Client.Request
import SessionHost.Proofs.Signals.Activities
import SessionHost.Proofs.Signals.Stream

/-!
# What a client has heard

Between the bytes that a server sends and the signals that a session hears stand the connection,
the reading activity and the mailbox.  None of them loses or reorders a signal of a client that
nobody has given up: what was sent is what was heard, what the client keeps, and what is still
ahead of it.

Nothing is heard before the client's first request is answered, so all signals in front of the
first response have to fit into the mailbox.

Main definitions:

- `Client.kept`, `Client.pending`: the signals that have been read, and all that were not heard.
- `Client.Talks`: what an exchange may change of a client.
- `Hearing`: what was sent, read and heard.

Main results:

- Theorem `Hearing.read?`: the reading activity keeps the account.
- Theorem `Hearing.deliver`: so does the server, whatever it sends.
- Theorem `Hearing.hear`: so does whoever takes a signal out of the mailbox.
-/

namespace SessionHost

open Json (Value)
open Rpc (FrameReader ServerSignal)

/-! ## What a client keeps -/

/-- The frame reader with which the reading activity goes on. -/
def Reading.reader : Reading → FrameReader
  | .bytes r => r
  | _ => .idle

/-- The signal with which the reading activity waits. -/
def Reading.held : Reading → List ServerSignal
  | .signalling s => [s]
  | _ => []

/-- The reading activity waits with an answer. -/
def Reading.isAnswering : Reading → Bool
  | .answering _ _ => true
  | _ => false

/-- The server's part in what a mailbox holds. -/
def ClientSignal.server? : ClientSignal → Option ServerSignal
  | .server s => some s
  | .closed => none

namespace Client

/-- The signals that have been read and not heard. -/
def kept (c : Client) : List ServerSignal :=
  c.mailbox.filterMap ClientSignal.server? ++ c.reading.held

/-- The signals that have been sent and not heard. -/
def pending (c : Client) (k : Connection) : List ServerSignal :=
  c.kept ++ signals (c.reading.reader.messages k.toClient)

/-- What an exchange may change of a client: neither its reading nor its mailbox, and it brings no
answer. -/
structure Talks (c c' : Client) : Prop where
  connection : c'.connection = c.connection
  reading : c'.reading = c.reading
  mailbox : c'.mailbox = c.mailbox
  mailboxRoom : c'.mailboxRoom = c.mailboxRoom
  heard : c'.heard = c.heard
  answers : c'.answers ⊆ c.answers
  stops : c.stops ≤ c'.stops

namespace Talks

variable {c c' : Client}

theorem refl (c : Client) : c.Talks c :=
  ⟨rfl, rfl, rfl, rfl, rfl, fun _ => id, Nat.le_refl _⟩

theorem kept (h : c.Talks c') : c'.kept = c.kept := by
  rw [Client.kept, Client.kept, h.mailbox, h.reading]

end Talks

theorem post_talks {c c' : Client} {item : Outgoing} (h : c.post item = .taken c') :
    c.Talks c' := by
  obtain ⟨rfl, -⟩ := post_eq_taken h
  exact ⟨rfl, rfl, rfl, rfl, rfl, fun _ => id, Nat.le_refl _⟩

theorem forget_talks (c : Client) (id : Nat) : c.Talks (c.forget id) :=
  { Talks.refl c with answers := fun _ ha => (List.mem_filter.1 ha).1 }

/-- A message that has been routed is held if it is a signal, and given to a request only if it is
a response. -/
theorem route_reading (m : Value) :
    (route m).reader = .idle ∧ signals [m] = (route m).held ∧
      ((route m).isAnswering = true → isResponse m = true) := by
  rcases route_cases m with ⟨s, hm, hs, -⟩ | ⟨id, result, hm, hs, hresponse⟩ |
      ⟨reply, hm, hs, -⟩ | ⟨hm, hs, -⟩ <;>
    rw [hm] <;> simp [signals, Reading.reader, Reading.held, Reading.isAnswering, *]

/-- The reading activity leaves the client on its connection. -/
theorem read?_connection {c c' : Client} {k k' : Connection} (h : c.read? k = some (c', k')) :
    c'.connection = c.connection := by
  cases read?_piece h with
  | answer hr =>
    unfold answer
    split <;> rfl
  | _ => rfl

/-- The writing activity only talks, and takes nothing off the connection. -/
theorem write?_talks {c c' : Client} {k k' : Connection} (h : c.write? k = some (c', k')) :
    c.Talks c' ∧ k'.toClient = k.toClient ∧ k'.serverSilent = k.serverSilent := by
  cases write?_piece h <;> exact ⟨⟨rfl, rfl, rfl, rfl, rfl, fun _ => id, Nat.le_refl _⟩, rfl, rfl⟩

end Client

/-! ## The account of a client -/

/-- A server has sent bytes, its client has read messages, and somebody has heard signals. -/
structure Hearing (size : Nat) (c : Client) (k : Connection) (sent : List UInt8)
    (read : List Value) (heard : List ServerSignal) : Prop where
  /-- What was sent is what has been read and what is ahead.  After the end of its way a server
  sends nothing more. -/
  ahead : ∀ more, (k.serverSilent = true → more = []) →
    FrameReader.idle.messages (sent ++ more) =
      read ++ c.reading.reader.messages (k.toClient ++ more)
  kept : signals read = heard ++ c.kept
  /-- The end of the stream is the last thing that a mailbox gets. -/
  box : ∃ (front : List ServerSignal) (back : List ClientSignal),
    c.mailbox = front.map ClientSignal.server ++ back ∧
      (back = [] ∨ back = [.closed] ∧ c.reading.isOver = true)
  sized : c.mailboxRoom = size
  room : c.mailbox.length ≤ size
  listened : c.heard = true ∨ c.reading.isOver = true
  answered : c.answers ≠ [] ∨ c.reading.isAnswering = true → read.any isResponse = true
  /-- The signals in front of the first response have been in the mailbox, all at once. -/
  early : read.any isResponse = true → (earlySignals read).length ≤ size
  /-- Nothing is heard before the first response. -/
  first : heard = [] ∨ read.any isResponse = true

namespace Hearing

variable {size : Nat} {c c' : Client} {k k' : Connection} {sent : List UInt8}
  {read : List Value} {heard : List ServerSignal}

/-- A client that nobody has written to has read nothing. -/
theorem of_new (hreading : c.reading = .bytes .idle) (hmailbox : c.mailbox = [])
    (hanswers : c.answers = []) (hheard : c.heard = true) (hsent : k.toClient = sent)
    (hsize : c.mailboxRoom = size) : Hearing size c k sent [] [] where
  ahead more _ := by rw [hreading, ← hsent]; rfl
  kept := by rw [Client.kept, hmailbox, hreading]; rfl
  box := ⟨[], [], by rw [hmailbox]; rfl, .inl rfl⟩
  sized := hsize
  room := by rw [hmailbox]; exact Nat.zero_le _
  listened := .inl hheard
  answered h := by
    rcases h with h | h
    · exact absurd hanswers h
    · rw [hreading] at h
      cases h
  early h := by cases h
  first := .inl rfl

/-- What was sent is what was heard and what is pending. -/
theorem signals_sent (h : Hearing size c k sent read heard) :
    signals (FrameReader.idle.messages sent) = heard ++ c.pending k := by
  have hahead := h.ahead [] fun _ => rfl
  rw [List.append_nil, List.append_nil] at hahead
  rw [hahead, signals_append, h.kept, Client.pending, List.append_assoc]

/-- The signals that were sent in front of the first response have been in the mailbox. -/
theorem early_sent (h : Hearing size c k sent read heard) (hread : read.any isResponse = true) :
    (earlySignals (FrameReader.idle.messages sent)).length ≤ size := by
  have hahead := h.ahead [] fun _ => rfl
  rw [List.append_nil] at hahead
  rw [hahead, earlySignals_append hread]
  exact h.early hread

/-- As long as the client reads, its mailbox holds signals of the server only. -/
theorem box_of_reading (h : Hearing size c k sent read heard) (hover : c.reading.isOver = false) :
    ∃ front : List ServerSignal, c.mailbox = front.map ClientSignal.server := by
  obtain ⟨front, back, hbox, rfl | ⟨-, hback⟩⟩ := h.box
  · exact ⟨front, by rw [hbox, List.append_nil]⟩
  · rw [hover] at hback
    cases hback

/-- As long as the client reads, somebody hears it. -/
theorem heard_of_reading (h : Hearing size c k sent read heard) (hover : c.reading.isOver = false) :
    c.heard = true :=
  h.listened.resolve_right (by rw [hover]; nofun)

theorem talk (h : Hearing size c k sent read heard) (ht : c.Talks c') :
    Hearing size c' k sent read heard where
  ahead more hmore := by rw [ht.reading]; exact h.ahead more hmore
  kept := by rw [ht.kept]; exact h.kept
  box := by rw [ht.mailbox, ht.reading]; exact h.box
  sized := ht.mailboxRoom.trans h.sized
  room := by rw [ht.mailbox]; exact h.room
  listened := by rw [ht.heard, ht.reading]; exact h.listened
  answered ha := by
    refine h.answered (ha.imp (fun hne heq => hne ?_) fun hr => ht.reading ▸ hr)
    exact List.eq_nil_of_subset_nil (heq ▸ ht.answers)
  early := h.early
  first := h.first

/-! ## The server's end -/

/-- The server ends its way, or takes bytes off the other one. -/
theorem connection (h : Hearing size c k sent read heard) (hbytes : k'.toClient = k.toClient)
    (hsilent : k.serverSilent = true → k'.serverSilent = true) :
    Hearing size c k' sent read heard :=
  { h with ahead := fun more hmore => hbytes ▸ h.ahead more fun hs => hmore (hsilent hs) }

/-- The server sends bytes. -/
theorem deliver (h : Hearing size c k sent read heard) (bytes : List UInt8) :
    Hearing size c (k.deliver bytes) (sent ++ if k.serverSilent then [] else bytes) read heard := by
  unfold Connection.deliver
  split
  · rw [List.append_nil]
    exact h
  · rename_i hloud
    refine { h with ahead := fun more _ => ?_ }
    rw [List.append_assoc, List.append_assoc]
    exact h.ahead (bytes ++ more) fun hs => absurd hs hloud

/-! ## Reading -/

/-- The reading activity goes on to something else, and has read no message. -/
theorem proceed {p : Reading} (h : Hearing size c k sent read heard)
    (hover : c.reading.isOver = false) (hheld : p.held = c.reading.held)
    (hanswer : p.isAnswering = false)
    (hahead : ∀ more, (k'.serverSilent = true → more = []) →
      FrameReader.idle.messages (sent ++ more) =
        read ++ p.reader.messages (k'.toClient ++ more)) :
    Hearing size { c with reading := p } k' sent read heard where
  ahead := hahead
  kept := by rw [h.kept, Client.kept, Client.kept, hheld]
  box := by
    obtain ⟨front, hbox⟩ := h.box_of_reading hover
    exact ⟨front, [], by simpa using hbox, .inl rfl⟩
  sized := h.sized
  room := h.room
  listened := .inl (h.heard_of_reading hover)
  answered ha := h.answered (.inl (ha.resolve_right (by rw [hanswer]; nofun)))
  early := h.early
  first := h.first

/-- The reading activity takes a message off the connection. -/
theorem take {r next : FrameReader} {m : Value} {rest : List UInt8}
    (h : Hearing size c k sent read heard) (hr : c.reading = .bytes r)
    (ht : takeFrame r k.toClient = (next, rest, some (.ok m))) :
    Hearing size { c with reading := Client.route m } { k with toClient := rest } sent (read ++ [m])
      heard := by
  have hover : c.reading.isOver = false := by rw [hr]; rfl
  have hheld : c.reading.held = [] := by rw [hr]; rfl
  have hkept : signals read = heard ++ c.mailbox.filterMap ClientSignal.server? := by
    rw [h.kept, Client.kept, hheld, List.append_nil]
  obtain ⟨hidle, hsignal, hanswer⟩ := Client.route_reading m
  constructor
  case ahead =>
    intro more hmore
    rw [h.ahead more hmore, hr, hidle, List.append_assoc]
    exact congrArg (read ++ ·) (takeFrame_some ht more)
  case kept =>
    rw [signals_append, hkept, hsignal, List.append_assoc]
    rfl
  case box =>
    obtain ⟨front, hbox⟩ := h.box_of_reading hover
    exact ⟨front, [], by simpa using hbox, .inl rfl⟩
  case sized => exact h.sized
  case room => exact h.room
  case listened => exact .inl (h.heard_of_reading hover)
  case answered =>
    intro ha
    rw [List.any_append, Bool.or_eq_true]
    rcases ha with ha | ha
    · exact .inl (h.answered (.inl ha))
    · exact .inr (by simpa using hanswer ha)
  case early =>
    intro hany
    by_cases hread : read.any isResponse = true
    · rw [earlySignals_append hread]
      exact h.early hread
    · -- The first response: whatever was read before it is still in the mailbox.
      have hnone : read.any isResponse = false := by simpa using hread
      have hresponse : isResponse m = true := by
        rw [List.any_append, hnone] at hany
        simpa using hany
      have hempty : heard = [] := h.first.resolve_right hread
      calc (earlySignals (read ++ [m])).length
          = (signals read).length := by rw [earlySignals_concat hnone hresponse]
        _ = (c.mailbox.filterMap ClientSignal.server?).length := by
            rw [hkept, hempty, List.nil_append]
        _ ≤ c.mailbox.length := List.length_filterMap_le _ _
        _ ≤ size := h.room
  case first =>
    refine h.first.imp id fun hread => ?_
    rw [List.any_append, hread, Bool.true_or]

/-- The reading activity puts the signal that it holds into the mailbox. -/
theorem put {s : ServerSignal} (h : Hearing size c k sent read heard)
    (hr : c.reading = .signalling s) (hroom : c.mailbox.length < size) :
    Hearing size { c with mailbox := c.mailbox ++ [.server s], reading := .bytes .idle } k sent read
      heard where
  ahead more hmore := by
    rw [h.ahead more hmore, hr]
    rfl
  kept := by
    rw [h.kept, Client.kept, Client.kept, hr]
    simp [ClientSignal.server?, Reading.held]
  box := by
    obtain ⟨front, hbox⟩ := h.box_of_reading (by rw [hr]; rfl)
    exact ⟨front ++ [s], [], by simp [hbox], .inl rfl⟩
  sized := h.sized
  room := by
    rw [List.length_append]
    exact hroom
  listened := .inl (h.heard_of_reading (by rw [hr]; rfl))
  answered ha := h.answered (.inl (ha.resolve_right nofun))
  early := h.early
  first := h.first

/-- The reading activity ends with a word to whoever hears the client. -/
theorem close (h : Hearing size c k sent read heard) (hr : c.reading = .closing)
    (hroom : c.mailbox.length < size) :
    Hearing size { c with mailbox := c.mailbox ++ [.closed], reading := .over } k sent read
      heard where
  ahead more hmore := by
    rw [h.ahead more hmore, hr]
    rfl
  kept := by
    rw [h.kept, Client.kept, Client.kept, hr]
    simp [ClientSignal.server?, Reading.held]
  box := by
    obtain ⟨front, hbox⟩ := h.box_of_reading (by rw [hr]; rfl)
    exact ⟨front, [.closed], by simp [hbox], .inr ⟨rfl, rfl⟩⟩
  sized := h.sized
  room := by
    rw [List.length_append]
    exact hroom
  listened := .inr rfl
  answered ha := h.answered (.inl (ha.resolve_right nofun))
  early := h.early
  first := h.first

/-- An answer reaches its request, or nobody. -/
theorem answer (h : Hearing size c k sent read heard) (hread : read.any isResponse = true)
    (id : Nat) (result : Except Rpc.ResponseError Value) :
    Hearing size (c.answer id result) k sent read heard := by
  unfold Client.answer
  split
  · exact { h with answered := fun _ => hread }
  · exact h

/-- The reading activity goes on to the next message. -/
theorem next {p : Reading} (h : Hearing size c k sent read heard) (hr : c.reading = p)
    (hp : p.isOver = false ∧ p.held = [] ∧ p.reader = .idle) :
    Hearing size { c with reading := .bytes .idle } k sent read heard := by
  obtain ⟨hover, hheld, hidle⟩ := hr ▸ hp
  exact h.proceed hover hheld.symm rfl fun more hmore => by rw [h.ahead more hmore, hidle]; rfl

/-- The reading activity keeps the account. -/
theorem read? (h : Hearing size c k sent read heard) (hstep : c.read? k = some (c', k')) :
    ∃ read', read <+: read' ∧ Hearing size c' k' sent read' heard := by
  -- Nobody but the end of the stream makes a client deaf.
  have hhears (hover : c.reading.isOver = false) (hdeaf : c.heard = false) : False := by
    rw [h.heard_of_reading hover] at hdeaf
    cases hdeaf
  cases Client.read?_piece hstep with
  | finish hr hbytes hsilent =>
    refine ⟨read, List.prefix_rfl, h.proceed (by rw [hr]; rfl) (by rw [hr]; rfl) rfl
      fun more hmore => ?_⟩
    obtain rfl := hmore hsilent
    rw [h.ahead [] hmore, hbytes]
    rfl
  | gather hr hbytes htake =>
    refine ⟨read, List.prefix_rfl, h.proceed (by rw [hr]; rfl) (by rw [hr]; rfl) rfl
      fun more hmore => ?_⟩
    obtain ⟨rfl, hmessages⟩ := takeFrame_none htake more
    rw [h.ahead more hmore, hr]
    exact congrArg (read ++ ·) hmessages
  | take hr htake => exact ⟨_, List.prefix_append _ _, h.take hr htake⟩
  | fail hr htake =>
    refine ⟨read, List.prefix_rfl, h.proceed (by rw [hr]; rfl) (by rw [hr]; rfl) rfl
      fun more hmore => ?_⟩
    rw [h.ahead more hmore, hr]
    exact congrArg (read ++ ·) (takeFrame_some htake more)
  | @answer id result hr =>
    have hreading : (c.answer id result).reading = .answering id result := by
      unfold Client.answer
      split <;> exact hr
    have hread : read.any isResponse = true := h.answered (.inr (by rw [hr]; rfl))
    exact ⟨read, List.prefix_rfl, (h.answer hread id result).next hreading ⟨rfl, rfl, rfl⟩⟩
  | @reply m hr hwrites hroom =>
    have htalk : c.Talks { c with outbox := c.outbox ++ [.message m] } :=
      ⟨rfl, rfl, rfl, rfl, rfl, fun _ => id, Nat.le_refl _⟩
    exact ⟨read, List.prefix_rfl, (h.talk htalk).next hr ⟨rfl, rfl, rfl⟩⟩
  | dropReply hr hover => exact ⟨read, List.prefix_rfl, h.next hr ⟨rfl, rfl, rfl⟩⟩
  | signal hr hheard hroom =>
    exact ⟨read, List.prefix_rfl, h.put hr (Nat.lt_of_lt_of_eq hroom h.sized)⟩
  | dropSignal hr hdeaf => exact (hhears (by rw [hr]; rfl) hdeaf).elim
  | forget hr =>
    have htalk : c.Talks c.forgetAll := ⟨rfl, rfl, rfl, rfl, rfl, fun _ => id, Nat.le_refl _⟩
    have hreading : c.forgetAll.reading = .forgetting := hr
    refine ⟨read, List.prefix_rfl, (h.talk htalk).proceed (by rw [hreading]; rfl)
      (by rw [hreading]; rfl) rfl fun more hmore => ?_⟩
    rw [h.ahead more hmore, hr]
    rfl
  | close hr hheard hroom =>
    exact ⟨read, List.prefix_rfl, h.close hr (Nat.lt_of_lt_of_eq hroom h.sized)⟩
  | dropClose hr hdeaf => exact (hhears (by rw [hr]; rfl) hdeaf).elim

/-! ## Hearing -/

/-- Somebody takes a signal of the server out of the mailbox. -/
theorem hear {s : ServerSignal} {rest : List ClientSignal} (h : Hearing size c k sent read heard)
    (hread : read.any isResponse = true) (hbox : c.mailbox = .server s :: rest) :
    Hearing size { c with mailbox := rest } k sent read (heard ++ [s]) where
  ahead := h.ahead
  kept := by
    rw [h.kept, Client.kept, Client.kept, hbox]
    simp [ClientSignal.server?]
  box := by
    obtain ⟨front, back, hfront, hback⟩ := h.box
    cases front with
    | nil =>
      rcases hback with rfl | ⟨rfl, -⟩ <;> rw [hbox] at hfront <;> cases hfront
    | cons t front =>
      rw [hbox, List.map_cons, List.cons_append] at hfront
      exact ⟨front, back, (List.cons.inj hfront).2, hback⟩
  sized := h.sized
  room := by
    have hroom := h.room
    rw [hbox] at hroom
    exact Nat.le_of_succ_le hroom
  listened := h.listened
  answered := h.answered
  early := h.early
  first := .inr hread

/-- Behind the end of the stream there is nothing in the mailbox. -/
theorem over_of_closed {rest : List ClientSignal} (h : Hearing size c k sent read heard)
    (hbox : c.mailbox = .closed :: rest) : rest = [] ∧ c.reading.isOver = true := by
  obtain ⟨front, back, hfront, hback⟩ := h.box
  cases front with
  | nil =>
    rcases hback with rfl | ⟨rfl, hover⟩ <;> rw [hbox] at hfront <;> cases hfront
    exact ⟨rfl, hover⟩
  | cons t front =>
    rw [hbox] at hfront
    cases hfront

/-- Nobody hears the client any longer, after its last word. -/
theorem leave (h : Hearing size c k sent read heard) (hover : c.reading.isOver = true)
    (hbox : c.mailbox.filterMap ClientSignal.server? = []) :
    Hearing size { c with heard := false, mailbox := [] } k sent read heard where
  ahead := h.ahead
  kept := by rw [h.kept, Client.kept, Client.kept, hbox]; rfl
  box := ⟨[], [], rfl, .inl rfl⟩
  sized := h.sized
  room := Nat.zero_le _
  listened := .inr hover
  answered := h.answered
  early := h.early
  first := h.first

end Hearing

end SessionHost
