import SessionHost.Proofs.Requests.Ids
import SessionHost.Proofs.Signals.Routing

/-!
# Routes

As long as a client is neither stopped nor left, and its writes go through, everything that its
stream asks for is handed on, and nothing else: the signals go to the mailbox in their order, with
one more for the end of the stream, and the replies go to the server.

Main definitions:

- `World.received`, `World.told`, `World.replied`: what the reading activity of a client takes off
  its connection, puts into the mailbox and gives to the writing activity.
- `World.given`, `World.written`: what the writing activity is given, and puts on the connection.
- `World.Served`: a client that is neither stopped nor left, and whose writing activity goes on.
- `World.Routes`: messages are routed as they ask for, all through a history of moves.

Main results:

- Theorems `World.Routing.read`, `World.Routing.write`, `World.Routing.other`: one move keeps what
  has been handed on in step with the stream.
- Theorem `World.routing`: so do all moves.
- Theorem `World.routes`: messages are routed as they ask for, whatever moves are made.
-/

namespace SessionHost

open Json (Value)

/-! ## What moves hand on -/

/-- A move is a piece of a client's reading activity. -/
def Move.reads (c : Nat) : Move → Bool
  | .run (.reading d) => d == c
  | _ => false

/-- A move is a piece of a client's writing activity. -/
def Move.writes (c : Nat) : Move → Bool
  | .run (.writing d) => d == c
  | _ => false

/-- A client reads in the moves of its reading activity. -/
theorem Move.reads_iff {c : Nat} {m : Move} : m.reads c = true ↔ m = .run (.reading c) := by
  cases m with
  | run r => cases r <;> simp [reads]
  | _ => simp [reads]

/-- A client writes in the moves of its writing activity. -/
theorem Move.writes_iff {c : Nat} {m : Move} : m.writes c = true ↔ m = .run (.writing c) := by
  cases m with
  | run r => cases r <;> simp [writes]
  | _ => simp [writes]

namespace World

/-- What a client's mailbox holds. -/
def box (w : World) (c : Nat) : List ClientSignal := (w.clients[c]?.map Client.mailbox).getD []

/-- What a client's writing activity has been given and not begun. -/
def queue (w : World) (c : Nat) : List Outgoing := (w.clients[c]?.map Client.outbox).getD []

/-- The connection of a client. -/
def link? (w : World) (c : Nat) : Option Connection :=
  w.clients[c]?.bind fun a => w.connections[a.connection]?

/-- The bytes on the way to a client. -/
def ahead (w : World) (c : Nat) : List UInt8 := ((w.link? c).map Connection.toClient).getD []

/-- The bytes on the way from a client. -/
def behind (w : World) (c : Nat) : List UInt8 := ((w.link? c).map Connection.toServer).getD []

/-- The bytes that a piece of a client's reading activity takes off the connection. -/
def takes (c : Nat) (w : World) (m : Move) : List UInt8 :=
  if m.reads c then (w.ahead c).take ((w.ahead c).length - ((w.after m).ahead c).length) else []

/-- What a piece of a client's reading activity puts into the mailbox. -/
def tells (c : Nat) (w : World) (m : Move) : List ClientSignal :=
  if m.reads c then ((w.after m).box c).drop (w.box c).length else []

/-- What a piece of a client's writing activity puts on the connection. -/
def writes (c : Nat) (w : World) (m : Move) : List UInt8 :=
  if m.writes c then ((w.after m).behind c).drop (w.behind c).length else []

/-- What a move gives to a client's writing activity. -/
def gives (c : Nat) (w : World) (m : Move) : List Outgoing :=
  if m.writes c then [] else ((w.after m).queue c).drop (w.queue c).length

/-- What a piece of a client's reading activity gives to the writing activity. -/
def replies (c : Nat) (w : World) (m : Move) : List Outgoing :=
  if m.reads c then gives c w m else []

/-- The bytes that moves take off the connection of a client. -/
def received (w : World) (c : Nat) (ms : List Move) : List UInt8 := w.gather (takes c) ms

/-- What moves tell the mailbox of a client. -/
def told (w : World) (c : Nat) (ms : List Move) : List ClientSignal := w.gather (tells c) ms

/-- The replies of a client to requests of its server. -/
def replied (w : World) (c : Nat) (ms : List Move) : List Outgoing := w.gather (replies c) ms

/-- What moves give to the writing activity of a client, replies and everything else. -/
def given (w : World) (c : Nat) (ms : List Move) : List Outgoing := w.gather (gives c) ms

/-- What moves put on the connection of a client. -/
def written (w : World) (c : Nat) (ms : List Move) : List UInt8 := w.gather (writes c) ms

section Gathering

variable {w v : World} {m : Move} {c : Nat} {a b : Client} {k k' : Connection}

/-- A piece of reading or writing of a client is about its connection. -/
theorem link?_of_onWire? {step : Client → Connection → Option (Client × Connection)}
    (hstep : ∀ {a b : Client} {k k' : Connection}, step a k = some (b, k') →
      b.connection = a.connection)
    (h : w.onWire? c step = some v) :
    ∃ a b k k', w.clients[c]? = some a ∧ w.link? c = some k ∧ step a k = some (b, k') ∧
      v.clients[c]? = some b ∧ v.link? c = some k' := by
  obtain ⟨a, k, b, k', ha, hk, hab, rfl⟩ := onWire?_cases h
  have hb : (w.clients.set c b)[c]? = some b := getElem?_set_at ha b
  refine ⟨a, b, k, k', ha, ?_, hab, hb, ?_⟩
  · rw [link?, ha, Option.bind_some, hk]
  · rw [link?]
    change (w.clients.set c b)[c]?.bind _ = _
    rw [hb, Option.bind_some, hstep hab]
    exact getElem?_set_at hk k'

/-- Where a piece of reading or writing cannot be made, the client cannot make it. -/
theorem eq_none_of_onWire? {step : Client → Connection → Option (Client × Connection)}
    (h : w.onWire? c step = none) (ha : w.clients[c]? = some a) (hk : w.link? c = some k) :
    step a k = none := by
  have hk' : w.connections[a.connection]? = some k := by
    rwa [link?, ha, Option.bind_some] at hk
  cases hstep : step a k with
  | none => rfl
  | some p => simp [onWire?, ha, hk', hstep] at h

/-- Moves that are no pieces of a client's activities spare what it has in hand. -/
theorem Shift.agrees_of_ne (h : Shift m w c a b) (hreading : m ≠ .run (.reading c))
    (hwriting : m ≠ .run (.writing c)) :
    (b.reading = a.reading ∨ b.reading = .over) ∧
      (b.writing.isOver = true ∨ b.writing = a.writing ∧ a.outbox <+: b.outbox) := by
  cases h with
  | agree h => exact ⟨h.reading, h.sending⟩
  | begin h => exact ⟨h.reading, h.sending⟩
  | register _ _ _ h => exact ⟨h.reading, h.sending⟩
  | forget _ _ h => exact ⟨h.reading, h.sending⟩
  | read hm => exact absurd hm hreading
  | write hm => exact absurd hm hwriting

theorem box_eq (ha : w.clients[c]? = some a) : w.box c = a.mailbox := by
  rw [box, ha]
  rfl

theorem queue_eq (ha : w.clients[c]? = some a) : w.queue c = a.outbox := by
  rw [queue, ha]
  rfl

theorem ahead_eq (hk : w.link? c = some k) : w.ahead c = k.toClient := by
  rw [ahead, hk]
  rfl

theorem behind_eq (hk : w.link? c = some k) : w.behind c = k.toServer := by
  rw [behind, hk]
  rfl

/-- What a move gives to a client's writing activity stands behind what was there. -/
theorem gives_eq {more : List Outgoing} (hm : m ≠ .run (.writing c)) (hv : w.after m = v)
    (ha : w.clients[c]? = some a) (hb : v.clients[c]? = some b)
    (hmore : b.outbox = a.outbox ++ more) : gives c w m = more := by
  rw [gives, if_neg (mt Move.writes_iff.1 hm), hv, queue_eq ha, queue_eq hb, hmore, List.drop_left]

end Gathering

variable (start : World) (ms : List Move)

/-- Up to the moment `n`, somebody hears the client, its writing activity goes on, and nobody else
ends its reading activity. -/
structure Served (c n : Nat) : Prop where
  heard : ∀ {j u a}, j ≤ n → start.Moment ms j u → u.clients[c]? = some a → a.heard = true
  writing : ∀ {j u a}, j ≤ n → start.Moment ms j u → u.clients[c]? = some a →
    a.writing.isOver = false
  unstopped : ∀ {j u v a b}, j < n → start.Moment ms j u → start.Moment ms (j + 1) v →
    ms[j]? ≠ some (.run (.reading c)) → u.clients[c]? = some a → v.clients[c]? = some b →
    b.reading.isOver = true → a.reading.isOver = true

/-- Before the moment `n`, the stream of a client had ended, and nothing of it was left. -/
def Ended (c n : Nat) : Prop :=
  ∃ j u k, j < n ∧ start.Moment ms j u ∧ u.link? c = some k ∧ k.toClient = [] ∧
    k.serverSilent = true

/-- At the moment `n`, a client has routed what its messages so far ask for. -/
structure Routing (c n : Nat) (a : Client) : Prop where
  routed : ∃ messages, Client.Routed (start.received c (ms.take n)) (start.told c (ms.take n))
    (start.replied c (ms.take n)) (start.Ended ms c n) messages a.reading
  sent : start.written c (ms.take n) ++ a.unsent =
    (start.given c (ms.take n)).flatMap Outgoing.bytes
  brief : (ms.take n).countP (·.reads c) + a.reading.due ≤
    2 * (start.received c (ms.take n)).length + 3

/-- Messages are routed as they ask for, all through a history of moves. -/
structure Routes (c : Nat) : Prop where
  /-- A busy notification asks for a signal with its state, which is a boolean, or the boolean
  `isBusy` of an object. -/
  busy : ∀ {m : Value} {b : Bool}, signalOf? m = some (.busy b) ↔ m.get? "id" = none ∧
    m.get? "method" = some (.string "powerShell/executionBusyStatus") ∧
    (m.get? "params" = some (.bool b) ∨ ∃ members, m.get? "params" = some (.object members) ∧
      (Value.object members).get? "isBusy" = some (.bool b))
  /-- A key press notification asks for a key press, and no other message has a signal. -/
  keyPress : ∀ {m : Value}, signalOf? m = some .keyPress ↔ m.get? "id" = none ∧
    m.get? "method" = some (.string "powerShell/sendKeyPress")
  /-- A message with an id, whatever that is, and a method asks for a refusal. -/
  request : ∀ {m reply : Value}, replyTo? m = some reply ↔ ∃ id method, m.get? "id" = some id ∧
    m.get? "method" = some (.string method) ∧ reply = Rpc.methodNotFoundMessage id method
  /-- The refusal carries this id, and names the method. -/
  refusal : ∀ {id : Value} {method : String},
    (Rpc.methodNotFoundMessage id method).get? "id" = some id ∧
      ∃ error, (Rpc.methodNotFoundMessage id method).get? "error" = some error ∧
        error.get? "code" = some (.int (-32601)) ∧
        error.get? "message" = some (.string ("Method not found: " ++ method))
  /-- What has been handed on at a moment is a beginning of what the messages of the stream so far
  ask for, and of the news that the stream has ended. -/
  handed : ∀ {n u}, start.Served ms c n → start.Moment ms n u →
    start.told c (ms.take n) <+:
        signalsOf (Rpc.frames (start.received c (ms.take n))) ++ [.closed] ∧
      start.replied c (ms.take n) <+: repliesTo (Rpc.frames (start.received c (ms.take n)))
  /-- When the reading activity cannot go on, though there is room, all of it has been handed on.
  Either the client waits for more bytes, or the stream has ended or has a fault, behind which
  nothing counts. -/
  whole : ∀ {n u a k}, start.Served ms c n → start.Moment ms n u → u.clients[c]? = some a →
    u.link? c = some k → u.step? (.reading c) = none → a.mailbox.length < a.mailboxRoom →
    a.outbox.length < Client.outboxRoom →
    start.replied c (ms.take n) = repliesTo (Rpc.frames (start.received c (ms.take n))) ∧
      ((start.told c (ms.take n) = signalsOf (Rpc.frames (start.received c (ms.take n))) ∧
          k.toClient = [] ∧ k.serverSilent = false) ∨
        (start.told c (ms.take n) =
            signalsOf (Rpc.frames (start.received c (ms.take n))) ++ [.closed] ∧
          (start.Ended ms c n ∨ ∀ more, Rpc.frames (start.received c (ms.take n) ++ more) =
            Rpc.frames (start.received c (ms.take n)))))
  /-- The reading activity cannot go on forever with the bytes that it has been sent. -/
  brief : ∀ {n u}, start.Served ms c n → start.Moment ms n u →
    (ms.take n).countP (·.reads c) ≤ 2 * (start.received c (ms.take n)).length + 3
  /-- What the writing activity is given goes out in order.  When it cannot go on, though the server
  takes what is written, all of it has gone out. -/
  sent : ∀ {n u a k}, start.Served ms c n → start.Moment ms n u → u.clients[c]? = some a →
    u.link? c = some k →
    start.written c (ms.take n) <+: (start.given c (ms.take n)).flatMap Outgoing.bytes ∧
      (u.step? (.writing c) = none → 0 < k.room →
        start.written c (ms.take n) = (start.given c (ms.take n)).flatMap Outgoing.bytes)

variable {start ms} {c n : Nat} {u v : World} {a b : Client} {m : Move}

/-- Who is served after one more move was served before it. -/
theorem Served.pred (h : start.Served ms c (n + 1)) : start.Served ms c n where
  heard hj := h.heard (Nat.le_succ_of_le hj)
  writing hj := h.writing (Nat.le_succ_of_le hj)
  unstopped hj := h.unstopped (Nat.lt_succ_of_lt hj)

/-- What has ended stays so. -/
theorem Ended.succ (h : start.Ended ms c n) : start.Ended ms c (n + 1) := by
  obtain ⟨j, u, k, hj, hrest⟩ := h
  exact ⟨j, u, k, Nat.lt_succ_of_lt hj, hrest⟩

namespace Routing

/-- Before anything has happened nothing is due. -/
theorem zero (h : a.New) : start.Routing ms c 0 a where
  routed := ⟨[], h.reading ▸ .nil _⟩
  sent := by simp [written, given, gather, Client.unsent, h.writing, h.outbox, Writing.left]
  brief := by simp [h.reading, Reading.due]

/-- A move keeps what was written, and what is still unsent, in the order given. -/
theorem sent_succ (h : start.Routing ms c n a) (hu : start.Moment ms n u) (hm : ms[n]? = some m)
    (hsent : writes c u m ++ b.unsent = a.unsent ++ (gives c u m).flatMap Outgoing.bytes) :
    start.written c (ms.take (n + 1)) ++ b.unsent =
      (start.given c (ms.take (n + 1))).flatMap Outgoing.bytes := by
  rw [written, given, hu.gather_succ _ hm, hu.gather_succ _ hm, List.flatMap_append,
    List.append_assoc, hsent, ← List.append_assoc]
  exact congrArg (· ++ _) h.sent

/-- Where the reading activity does nothing, nothing becomes of the stream. -/
theorem still (h : start.Routing ms c n a) (hu : start.Moment ms n u) (hm : ms[n]? = some m)
    (hreads : m.reads c = false) (hreading : b.reading = a.reading)
    (hsent : writes c u m ++ b.unsent = a.unsent ++ (gives c u m).flatMap Outgoing.bytes) :
    start.Routing ms c (n + 1) b where
  routed := by
    have hnone : takes c u m = [] ∧ tells c u m = [] ∧ replies c u m = [] := by
      simp [takes, tells, replies, hreads]
    obtain ⟨messages, hrouted⟩ := h.routed
    refine ⟨messages, ?_⟩
    simp only [received, told, replied, hu.gather_succ _ hm, hnone, List.append_nil, hreading]
    exact hrouted.mono Ended.succ
  sent := h.sent_succ hu hm hsent
  brief := by
    have hnone : takes c u m = [] := by simp [takes, hreads]
    have hcount : (ms.take (n + 1)).countP (·.reads c) = (ms.take n).countP (·.reads c) := by
      rw [List.take_add_one, hm, List.countP_append]
      simp [hreads]
    rw [received, hu.gather_succ _ hm, hnone, List.append_nil, hcount, hreading]
    exact h.brief

/-- A piece of the reading activity routes what it takes. -/
theorem read (h : start.Routing ms c n a) (hs : start.Served ms c n) (hu : start.Moment ms n u)
    (ha : u.clients[c]? = some a) (hm : ms[n]? = some (.run (.reading c)))
    (hmove : u.move? (.run (.reading c)) = some v) :
    ∃ b, v.clients[c]? = some b ∧ start.Routing ms c (n + 1) b := by
  obtain ⟨a', b, k, k', ha', hk, hread, hb, hk'⟩ :=
    link?_of_onWire? Client.read?_connection (show u.onWire? c Client.read? = some v from hmove)
  cases ha.symm.trans ha'
  obtain ⟨messages, hrouted⟩ := h.routed
  have hended (hempty : k.toClient = []) (hsilent : k.serverSilent = true) :
      start.Ended ms c (n + 1) := ⟨n, u, k, Nat.lt_succ_self n, hu, hk, hempty, hsilent⟩
  obtain ⟨hwriting, front, signals, posted, messages', hfront, hmailbox, houtbox, hrouted'⟩ :=
    (hrouted.mono Ended.succ).read? (hs.heard (Nat.le_refl n) hu ha)
      (hs.writing (Nat.le_refl n) hu ha) hended hread
  have hafter : u.after (.run (.reading c)) = v := by rw [after, hmove]; rfl
  have hreads : Move.reads c (.run (.reading c)) = true := Move.reads_iff.2 rfl
  have htakes : takes c u (.run (.reading c)) = front := by
    rw [takes, if_pos hreads, hafter, ahead_eq hk, ahead_eq hk', hfront, List.length_append,
      Nat.add_sub_cancel, List.take_left]
  have htells : tells c u (.run (.reading c)) = signals := by
    rw [tells, if_pos hreads, hafter, box_eq ha, box_eq hb, hmailbox, List.drop_left]
  have hgives : gives c u (.run (.reading c)) = posted :=
    gives_eq (by simp) hafter ha hb houtbox
  have hreplies : replies c u (.run (.reading c)) = posted := by
    rw [replies, if_pos hreads, hgives]
  refine ⟨b, hb, ⟨messages', ?_⟩, h.sent_succ hu hm ?_, ?_⟩
  · simp only [received, told, replied, hu.gather_succ _ hm, htakes, htells, hreplies]
    exact hrouted'
  · rw [hgives, Client.unsent_of_given hwriting houtbox]
    exact List.nil_append _
  · have hdue := Client.read?_due hread
    have hbrief := h.brief
    have hcount : (ms.take (n + 1)).countP (·.reads c) = (ms.take n).countP (·.reads c) + 1 := by
      rw [List.take_add_one, hm, List.countP_append]
      simp [hreads]
    rw [hfront, List.length_append] at hdue
    rw [received, hu.gather_succ _ hm, htakes, List.length_append, ← received, hcount]
    omega

/-- A piece of the writing activity writes what comes first. -/
theorem write (h : start.Routing ms c n a) (hs : start.Served ms c (n + 1))
    (hu : start.Moment ms n u) (hv : start.Moment ms (n + 1) v) (ha : u.clients[c]? = some a)
    (hm : ms[n]? = some (.run (.writing c))) (hmove : u.move? (.run (.writing c)) = some v) :
    ∃ b, v.clients[c]? = some b ∧ start.Routing ms c (n + 1) b := by
  obtain ⟨a', b, k, k', ha', hk, hwrite, hb, hk'⟩ :=
    link?_of_onWire? (fun h => (Client.write?_talks h).1.connection)
      (show u.onWire? c Client.write? = some v from hmove)
  cases ha.symm.trans ha'
  obtain ⟨more, hmore, hunsent⟩ := Client.write?_unsent hwrite (hs.writing (Nat.le_refl _) hv hb)
  have hafter : u.after (.run (.writing c)) = v := by rw [after, hmove]; rfl
  have hwrites : Move.writes c (.run (.writing c)) = true := Move.writes_iff.2 rfl
  have hwritten : writes c u (.run (.writing c)) = more := by
    rw [writes, if_pos hwrites, hafter, behind_eq hk, behind_eq hk', hmore, List.drop_left]
  refine ⟨b, hb, h.still hu hm rfl (Client.write?_spares hwrite).2.2.2 ?_⟩
  rw [hwritten, gives, if_pos hwrites, hunsent]
  exact (List.append_nil _).symm

/-- Every other move gives the writing activity more to send, or nothing. -/
theorem other (h : start.Routing ms c n a) (hs : start.Served ms c (n + 1))
    (hu : start.Moment ms n u) (hv : start.Moment ms (n + 1) v) (ha : u.clients[c]? = some a)
    (hm : ms[n]? = some m) (hmove : u.move? m = some v) (hreads : m.reads c = false)
    (hwrites : m.writes c = false) :
    ∃ b, v.clients[c]? = some b ∧ start.Routing ms c (n + 1) b := by
  have hnotReading : m ≠ .run (.reading c) := fun heq => by
    cases hreads.symm.trans (Move.reads_iff.2 heq)
  have hnotWriting : m ≠ .run (.writing c) := fun heq => by
    cases hwrites.symm.trans (Move.writes_iff.2 heq)
  obtain ⟨b, hb, hshift⟩ := (move?_deal hmove).shift ha
  obtain ⟨hreading, hsending⟩ := hshift.agrees_of_ne hnotReading hnotWriting
  have hgoes := hs.writing (Nat.le_refl _) hv hb
  have hsame : b.reading = a.reading := by
    obtain hsame | hover := hreading
    · exact hsame
    · have hended : a.reading.isOver = true := by
        refine hs.unstopped (Nat.lt_succ_self n) hu hv ?_ ha hb (by rw [hover]; rfl)
        rw [hm]
        exact fun heq => hnotReading (Option.some.inj heq)
      rw [hover, Reading.eq_over_of_isOver hended]
  obtain ⟨hwriting, more, houtbox⟩ : b.writing = a.writing ∧ a.outbox <+: b.outbox := by
    refine hsending.resolve_left fun hover => ?_
    cases hgoes.symm.trans hover
  have hafter : u.after m = v := by rw [after, hmove]; rfl
  refine ⟨b, hb, h.still hu hm hreads hsame ?_⟩
  rw [gives_eq hnotWriting hafter ha hb houtbox.symm, Client.unsent_of_given hwriting houtbox.symm,
    writes, if_neg (Bool.eq_false_iff.1 hwrites)]
  exact List.nil_append _

end Routing

/-- A client routes what its messages ask for, all the time. -/
theorem routing (ha : start.clients[c]? = some a) (hnew : a.New) (hs : start.Served ms c n)
    (hu : start.Moment ms n u) : ∃ b, u.clients[c]? = some b ∧ start.Routing ms c n b := by
  induction n generalizing u with
  | zero =>
    obtain rfl : start = u := Option.some.inj hu.2
    exact ⟨a, ha, .zero hnew⟩
  | succ n ih =>
    obtain ⟨w, hw⟩ := hu.pred
    obtain ⟨m, hm, hmove⟩ := hw.step hu
    obtain ⟨b, hb, hrouting⟩ := ih hs.pred hw
    cases hreads : m.reads c with
    | true =>
      cases Move.reads_iff.1 hreads
      exact hrouting.read hs.pred hw hb hm hmove
    | false =>
      cases hwrites : m.writes c with
      | true =>
        cases Move.writes_iff.1 hwrites
        exact hrouting.write hs hw hu hb hm hmove
      | false => exact hrouting.other hs hw hu hb hm hmove hreads hwrites

/-- Whatever moves are made, messages are routed as they ask for. -/
theorem routes (ha : start.clients[c]? = some a) (hnew : a.New) (ms : List Move) :
    start.Routes ms c where
  busy := signalOf?_eq_busy_iff
  keyPress := signalOf?_eq_keyPress_iff
  request := replyTo?_eq_some_iff
  refusal := get?_methodNotFoundMessage _ _
  handed hs hu := by
    obtain ⟨b, -, hrouting⟩ := routing ha hnew hs hu
    obtain ⟨messages, hrouted⟩ := hrouting.routed
    rw [hrouted.frames_eq]
    exact ⟨hrouted.told_prefix, hrouted.replied_prefix⟩
  whole {n u b k} hs hu hb hk hnone hmailbox houtbox := by
    obtain ⟨b', hb', hrouting⟩ := routing ha hnew hs hu
    cases hb.symm.trans hb'
    obtain ⟨messages, hrouted⟩ := hrouting.routed
    rw [hrouted.frames_eq]
    obtain hover | ⟨r, hr, hempty, hsilent⟩ :=
      Client.read?_eq_none (eq_none_of_onWire? hnone hb hk) (hs.heard (Nat.le_refl n) hu hb)
        (hs.writing (Nat.le_refl n) hu hb) hmailbox houtbox
    · rw [hover] at hrouted
      refine ⟨by simpa [Reading.reply?] using hrouted.replied, .inr ⟨?_, ?_⟩⟩
      · simpa [Reading.held, Reading.lastWord] using hrouted.told
      · obtain ⟨f, hfault⟩ | ⟨-, hended⟩ := hrouted.ending rfl
        · refine .inr fun more => ?_
          rw [Rpc.frames_append_of_fault hfault, hrouted.frames_eq]
        · exact .inl hended
    · rw [hr] at hrouted
      refine ⟨by simpa [Reading.reply?] using hrouted.replied, .inl ⟨?_, hempty, hsilent⟩⟩
      simpa [Reading.held, Reading.lastWord] using hrouted.told
  brief hs hu := by
    obtain ⟨b, -, hrouting⟩ := routing ha hnew hs hu
    exact Nat.le_trans (Nat.le_add_right _ _) hrouting.brief
  sent {n u b k} hs hu hb hk := by
    obtain ⟨b', hb', hrouting⟩ := routing ha hnew hs hu
    cases hb.symm.trans hb'
    refine ⟨hrouting.sent ▸ List.prefix_append _ _, fun hnone hroom => ?_⟩
    have hunsent := Client.write?_eq_none (eq_none_of_onWire? hnone hb hk)
      (hs.writing (Nat.le_refl n) hu hb) hroom
    rw [← hrouting.sent, hunsent, List.append_nil]

/-- A client that has just been made is new. -/
theorem newClient_new (w : World) (connection room : Nat) :
    ∃ a, (w.newClient connection room).1.clients[(w.newClient connection room).2]? = some a ∧
      a.New :=
  ⟨_, List.getElem?_concat_length, rfl, rfl, rfl⟩

end World

/-! ## A trial -/

namespace World

variable {start : World} {ms : List Move} {c n : Nat}

/-- A client is served at one moment after the other, as one sees when the moves are made. -/
def servedThrough (start : World) (ms : List Move) (c n : Nat) : Bool :=
  ((List.range (n + 1)).all fun j => (start.play? (ms.take j)).all fun u =>
      u.clients[c]?.all fun a => a.heard && !a.writing.isOver) &&
    (List.range n).all fun j => ms[j]?.any (·.reads c) ||
      (start.play? (ms.take (j + 1))).all fun v => v.clients[c]?.all fun b => !b.reading.isOver

/-- What is computed of the moves says whether a client is served. -/
theorem served_of_servedThrough (h : start.servedThrough ms c n = true) : start.Served ms c n := by
  simp only [servedThrough, Bool.and_eq_true, List.all_eq_true, List.mem_range] at h
  obtain ⟨hserved, hreads⟩ := h
  have hat {j u a} (hj : j ≤ n) (hu : start.Moment ms j u) (ha : u.clients[c]? = some a) :
      a.heard = true ∧ a.writing.isOver = false := by
    simpa [hu.2, ha] using hserved j (Nat.lt_succ_of_le hj)
  refine ⟨fun hj hu ha => (hat hj hu ha).1, fun hj hu ha => (hat hj hu ha).2, ?_⟩
  intro j u v a b hj _ hv hm _ hb hover
  obtain hread | hgoes := Bool.or_eq_true_iff.1 (hreads j hj)
  · obtain ⟨m, hm', hread⟩ := (Option.any_eq_true _ _).1 hread
    exact absurd (Move.reads_iff.1 hread ▸ hm') hm
  · simp [hv.2, hb, hover] at hgoes

/-- A client on a connection, of which nothing has been asked. -/
def Trial.attached : World :=
  (newClient { Trial.start with connections := [{ endpoint := .tcp 1 }] } 0 32).1

/-- The server of a client tells its state, asks for something and presses a key, and then sends
what is no frame. -/
def Trial.serving : List Move :=
  [Trial.message ("\x7b\"method\":\"powerShell/executionBusyStatus\"," ++
      "\"params\":\x7b\"isBusy\":true\x7d\x7d"),
    .run (.reading 0), .run (.reading 0), Trial.message "\x7b\"id\":null,\"method\":\"x\"\x7d",
    Trial.message "\x7b\"method\":\"powerShell/sendKeyPress\"\x7d", .run (.reading 0),
    .run (.reading 0), .run (.writing 0), .run (.writing 0), .run (.reading 0),
    .run (.reading 0), .send 0 [10, 10], .run (.reading 0), .run (.reading 0), .run (.reading 0)]

/-- The client is told its state and the key, and then that nothing more comes; the server is told
that there is no such method. -/
theorem routed_trial :
    Trial.attached.Routes Trial.serving 0 ∧ Trial.attached.Served Trial.serving 0 15 ∧
      (∃ u, Trial.attached.Moment Trial.serving 15 u) ∧
      Trial.attached.told 0 Trial.serving = [.server (.busy true), .server .keyPress, .closed] ∧
      Trial.attached.written 0 Trial.serving =
        Rpc.frameBytes (Rpc.methodNotFoundMessage .null "x") := by
  obtain ⟨a, ha, hnew⟩ :=
    newClient_new { Trial.start with connections := [{ endpoint := .tcp 1 }] } 0 32
  have hruns : Trial.attached.servedThrough Trial.serving 0 15 = true ∧
      (Trial.attached.play? (Trial.serving.take 15)).isSome = true ∧
      Trial.attached.told 0 Trial.serving = [.server (.busy true), .server .keyPress, .closed] ∧
      Trial.attached.written 0 Trial.serving =
        Rpc.frameBytes (Rpc.methodNotFoundMessage .null "x") := by
    decide +kernel
  obtain ⟨hserved, hplays, hreads⟩ := hruns
  obtain ⟨u, hu⟩ := Option.isSome_iff_exists.1 hplays
  exact ⟨routes ha hnew Trial.serving, served_of_servedThrough hserved, ⟨u, Nat.le_refl 15, hu⟩,
    hreads⟩

end World

end SessionHost
