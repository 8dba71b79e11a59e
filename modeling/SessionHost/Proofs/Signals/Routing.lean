import SessionHost.Proofs.Signals.Frames

/-!
# Routing

A client routes the messages of its stream one after the other: a signal goes to the mailbox, a
request of the server gets its refusal, and at the end of the stream, or at its first fault, the
mailbox is told so.  The writing activity puts what it is given on the connection, in order.

Main definitions:

- `signalsOf`, `repliesTo`: the signals and the replies that messages ask for.
- `Client.Routed`: what has been handed on is what the messages so far ask for.
- `Client.unsent`: what the writing activity has been given and not written.

Main results:

- Theorem `Client.Routed.read?`: every piece of the reading activity routes what it takes.
- Theorems `Client.read?_due`, `Client.read?_eq_none`: the reading activity cannot go on forever
  with the same bytes, and it stops only where there is nothing to do or no room.
- Theorem `Client.write?_unsent`: the writing activity writes what comes first.
-/

namespace SessionHost

open Json (Value)
open Rpc (FrameReader FrameResult FrameFault)

/-! ## Routed messages -/

/-- The reading activity has come to the end of its stream. -/
def Reading.isEnding : Reading → Bool
  | .forgetting => true
  | .closing => true
  | .over => true
  | _ => false

theorem Reading.eq_over_of_isOver {p : Reading} (h : p.isOver = true) : p = .over := by
  cases p <;> first | rfl | cases h

/-- What the mailbox has been told about the end of the stream. -/
def Reading.lastWord : Reading → List ClientSignal
  | .over => [.closed]
  | _ => []

/-- How many pieces the reading activity has before it at most, apart from those that take bytes. -/
def Reading.due : Reading → Nat
  | .bytes _ => 3
  | .answering _ _ => 4
  | .replying _ => 4
  | .signalling _ => 4
  | .forgetting => 2
  | .closing => 1
  | .over => 0

/-- The signals that messages ask for. -/
def signalsOf (messages : List Value) : List ClientSignal := (signals messages).map .server

/-- The replies that messages ask for. -/
def repliesTo (messages : List Value) : List Outgoing := (messages.filterMap replyTo?).map .message

@[simp]
theorem signalsOf_append (ms ns : List Value) :
    signalsOf (ms ++ ns) = signalsOf ms ++ signalsOf ns := by
  simp [signalsOf]

@[simp]
theorem repliesTo_append (ms ns : List Value) :
    repliesTo (ms ++ ns) = repliesTo ms ++ repliesTo ns := by
  simp [repliesTo]

namespace Client

/-- Wherever a message goes, the stream goes on, and one piece more is due at most. -/
theorem route_goes (m : Value) :
    (route m).isEnding = false ∧ (route m).lastWord = [] ∧ (route m).due ≤ 4 := by
  obtain ⟨s, hm, -⟩ | ⟨id, result, hm, -⟩ | ⟨reply, hm, -⟩ | ⟨hm, -⟩ := route_cases m <;>
    simp [hm, Reading.isEnding, Reading.lastWord, Reading.due]

/-- A piece of the reading activity is one piece less, and every byte that it takes makes up for
two. -/
theorem read?_due {a b : Client} {k k' : Connection} (h : a.read? k = some (b, k')) :
    b.reading.due + 2 * k'.toClient.length + 1 ≤ a.reading.due + 2 * k.toClient.length := by
  cases read?_piece h with
  | gather hr hbytes htake =>
    have hlength : 0 < k.toClient.length := List.length_pos_iff.2 hbytes
    rw [hr, (FrameReader.completed_of_none htake).1]
    simp only [Reading.due, List.length_nil]
    omega
  | @take _ _ rest m hr htake =>
    have hdue := (route_goes m).2.2
    have hlength := FrameReader.length_lt_of_some htake
    rw [hr]
    show (route m).due + 2 * rest.length + 1 ≤ 3 + 2 * k.toClient.length
    omega
  | fail hr htake =>
    have hlength := FrameReader.length_lt_of_some htake
    rw [hr]
    simp only [Reading.due]
    omega
  | finish hr | answer hr | reply hr | dropReply hr | signal hr | dropSignal hr | forget hr
  | close hr | dropClose hr =>
    rw [hr]
    simp only [Reading.due]
    omega

/-- Where there is room, a reading activity that cannot go on has come to its end, or it waits for
bytes. -/
theorem read?_eq_none {a : Client} {k : Connection} (h : a.read? k = none)
    (hheard : a.heard = true) (hwrites : a.writing.isOver = false)
    (hmailbox : a.mailbox.length < a.mailboxRoom) (houtbox : a.outbox.length < outboxRoom) :
    a.reading = .over ∨ ∃ r, a.reading = .bytes r ∧ k.toClient = [] ∧ k.serverSilent = false := by
  unfold read? at h
  cases hr : a.reading with
  | bytes r =>
    simp only [hr] at h
    unfold readBytes? at h
    split at h
    · rename_i hempty
      split at h
      · cases h
      · rename_i hsilent
        exact .inr ⟨r, rfl, List.isEmpty_iff.1 hempty, by simpa using hsilent⟩
    · split at h <;> cases h
  | replying reply =>
    simp only [hr, post_of_room hwrites houtbox] at h
    cases h
  | signalling s | closing =>
    simp only [hr, signal_of_room hheard hmailbox] at h
    cases h
  | answering _ _ | forgetting =>
    simp only [hr] at h
    cases h
  | «over» => exact .inl rfl

/-- From `received` bytes a reading activity has made `messages`; what it has told the mailbox and
replied is what they ask for, apart from the last one that it still has in hand. -/
structure Routed (received : List UInt8) (told : List ClientSignal) (replied : List Outgoing)
    (ended : Prop) (messages : List Value) (p : Reading) : Prop where
  told : told ++ p.held.map .server = signalsOf messages ++ p.lastWord
  replied : replied ++ (p.reply?.map .message).toList = repliesTo messages
  reading : p.isEnding = false → FrameReader.idle.after received = p.reader ∧
    FrameReader.idle.completed received = messages.map .ok
  /-- It has come to a fault, or to the end of the stream. -/
  ending : p.isEnding = true →
    (∃ f, FrameReader.idle.completed received = messages.map .ok ++ [.error f]) ∨
      FrameReader.idle.completed received = messages.map .ok ∧ ended

namespace Routed

variable {received : List UInt8} {told : List ClientSignal} {replied : List Outgoing}
  {ended ended' : Prop} {messages : List Value} {p p' : Reading} {a b : Client} {k k' : Connection}

theorem nil (ended : Prop) : Routed [] [] [] ended [] (.bytes .idle) where
  told := rfl
  replied := rfl
  reading _ := ⟨rfl, rfl⟩
  ending h := by cases h

theorem mono (h : Routed received told replied ended messages p) (hended : ended → ended') :
    Routed received told replied ended' messages p :=
  { h with ending := fun hp => (h.ending hp).imp_right fun he => ⟨he.1, hended he.2⟩ }

/-- What has been told is a beginning of what the messages ask for. -/
theorem told_prefix (h : Routed received told replied ended messages p) :
    told <+: signalsOf messages ++ [.closed] := by
  refine (List.prefix_append told (p.held.map .server)).trans ?_
  rw [h.told, List.prefix_append_right_inj]
  cases p <;> first | exact List.prefix_rfl | exact List.nil_prefix

/-- So is what has been replied. -/
theorem replied_prefix (h : Routed received told replied ended messages p) :
    replied <+: repliesTo messages :=
  h.replied ▸ List.prefix_append _ _

/-- The messages are those of the stream so far in front of its first fault. -/
theorem frames_eq (h : Routed received told replied ended messages p) :
    Rpc.frames received = messages := by
  cases hp : p.isEnding with
  | false => exact Rpc.frames_of_readable (h.reading hp).2
  | true =>
    obtain ⟨f, hfault⟩ | ⟨hread, -⟩ := h.ending hp
    · exact Rpc.frames_of_fault hfault
    · exact Rpc.frames_of_readable hread

section Bytes

variable {r : FrameReader} {front : List UInt8}

/-- More bytes have come, and no frame is whole. -/
theorem wait (h : Routed received told replied ended messages (.bytes r))
    (hfront : r.completed front = []) :
    Routed (received ++ front) told replied ended messages (.bytes (r.after front)) where
  told := h.told
  replied := h.replied
  reading _ := by
    obtain ⟨hafter, hread⟩ := h.reading rfl
    rw [FrameReader.after_append, FrameReader.completed_append, hafter, hread]
    exact ⟨rfl, by rw [Reading.reader, hfront, List.append_nil]⟩
  ending hp := by cases hp

/-- A message has come. -/
theorem message {m : Value} (h : Routed received told replied ended messages (.bytes r))
    (hfront : r.completed front = [.ok m]) (hidle : r.after front = .idle) :
    Routed (received ++ front) told replied ended (messages ++ [m]) (route m) where
  told := by
    have htold : told = signalsOf messages := by simpa [Reading.held, Reading.lastWord] using h.told
    rw [htold, ← (route_reading m).2.1, (route_goes m).2.1, signalsOf_append, List.append_nil]
    rfl
  replied := by
    have hreplied : replied = repliesTo messages := by simpa [Reading.reply?] using h.replied
    rw [hreplied, reply?_route m, repliesTo_append]
    cases hr : replyTo? m <;> simp [repliesTo, hr]
  reading _ := by
    obtain ⟨hafter, hread⟩ := h.reading rfl
    rw [FrameReader.after_append, FrameReader.completed_append, hafter, hread]
    exact ⟨by rw [Reading.reader, hidle, (route_reading m).1], by rw [Reading.reader, hfront]; simp⟩
  ending hp := by cases hp.symm.trans (route_goes m).1

/-- A fault has come. -/
theorem fault {f : FrameFault} (h : Routed received told replied ended messages (.bytes r))
    (hfront : r.completed front = [.error f]) :
    Routed (received ++ front) told replied ended messages .forgetting where
  told := h.told
  replied := h.replied
  reading hp := by cases hp
  ending _ := by
    obtain ⟨hafter, hread⟩ := h.reading rfl
    rw [FrameReader.completed_append, hafter, hread, Reading.reader, hfront]
    exact .inl ⟨f, rfl⟩

/-- The stream has ended. -/
theorem finish (h : Routed received told replied ended messages (.bytes r)) (hended : ended) :
    Routed received told replied ended messages .forgetting where
  told := h.told
  replied := h.replied
  reading hp := by cases hp
  ending _ := .inr ⟨(h.reading rfl).2, hended⟩

end Bytes

/-- What the reading activity has in hand is handed on. -/
theorem handOn {signals : List ClientSignal} {posted : List Outgoing}
    (h : Routed received told replied ended messages p) (hover : p.isOver = false)
    (htold : p.held.map .server ++ p'.lastWord = signals ++ p'.held.map .server)
    (hreplied : (p.reply?.map .message).toList = posted ++ (p'.reply?.map Outgoing.message).toList)
    (hreader : p'.reader = p.reader) (hending : p'.isEnding = p.isEnding) :
    Routed received (told ++ signals) (replied ++ posted) ended messages p' where
  told := by
    have hlast : p.lastWord = [] := by cases p <;> first | rfl | cases hover
    rw [List.append_assoc, ← htold, ← List.append_assoc, h.told, hlast, List.append_nil]
  replied := by rw [List.append_assoc, ← hreplied, h.replied]
  reading hp := by
    rw [hreader]
    exact h.reading (hending ▸ hp)
  ending hp := h.ending (hending ▸ hp)

/-- Every piece of the reading activity routes what it takes, as long as somebody hears the client
and its writing activity goes on. -/
theorem read? (h : Routed received told replied ended messages a.reading)
    (hheard : a.heard = true) (hwrites : a.writing.isOver = false)
    (hended : k.toClient = [] → k.serverSilent = true → ended)
    (hstep : a.read? k = some (b, k')) :
    b.writing = a.writing ∧ ∃ front signals posted messages', k.toClient = front ++ k'.toClient ∧
      b.mailbox = a.mailbox ++ signals ∧ b.outbox = a.outbox ++ posted ∧
      Routed (received ++ front) (told ++ signals) (replied ++ posted) ended messages'
        b.reading := by
  -- A piece takes bytes and hands nothing on, or it takes none.
  have htaken {front : List UInt8} {messages' : List Value} (hwriting : b.writing = a.writing)
      (hmailbox : b.mailbox = a.mailbox) (houtbox : b.outbox = a.outbox)
      (hsplit : k.toClient = front ++ k'.toClient)
      (hrouted : Routed (received ++ front) told replied ended messages' b.reading) :
      b.writing = a.writing ∧ ∃ front signals posted messages',
        k.toClient = front ++ k'.toClient ∧ b.mailbox = a.mailbox ++ signals ∧
        b.outbox = a.outbox ++ posted ∧
        Routed (received ++ front) (told ++ signals) (replied ++ posted) ended messages'
          b.reading := by
    refine ⟨hwriting, front, [], [], messages', hsplit, ?_, ?_, ?_⟩
    · rw [hmailbox, List.append_nil]
    · rw [houtbox, List.append_nil]
    · rwa [List.append_nil, List.append_nil]
  have hpass (signals : List ClientSignal) (posted : List Outgoing)
      (hk : k' = k) (hwriting : b.writing = a.writing)
      (hmailbox : b.mailbox = a.mailbox ++ signals)
      (houtbox : b.outbox = a.outbox ++ posted)
      (hrouted : Routed received (told ++ signals) (replied ++ posted) ended messages b.reading) :
      b.writing = a.writing ∧ ∃ front signals posted messages',
        k.toClient = front ++ k'.toClient ∧ b.mailbox = a.mailbox ++ signals ∧
        b.outbox = a.outbox ++ posted ∧
        Routed (received ++ front) (told ++ signals) (replied ++ posted) ended messages'
          b.reading := by
    subst hk
    refine ⟨hwriting, [], signals, posted, messages, rfl, hmailbox, houtbox, ?_⟩
    rwa [List.append_nil]
  cases read?_piece hstep with
  | finish hr hbytes hsilent =>
    rw [hr] at h
    refine hpass [] [] rfl rfl (List.append_nil _).symm (List.append_nil _).symm ?_
    rw [List.append_nil, List.append_nil]
    exact h.finish (hended hbytes hsilent)
  | gather hr hbytes htake =>
    rw [hr] at h
    obtain ⟨rfl, hfront, rfl⟩ := FrameReader.completed_of_none htake
    exact htaken rfl rfl rfl (List.append_nil _).symm (h.wait hfront)
  | take hr htake =>
    rw [hr] at h
    obtain ⟨front, hsplit, hfront, hidle⟩ := FrameReader.completed_of_some htake
    exact htaken rfl rfl rfl hsplit (h.message hfront hidle)
  | fail hr htake =>
    rw [hr] at h
    obtain ⟨front, hsplit, hfront, -⟩ := FrameReader.completed_of_some htake
    exact htaken rfl rfl rfl hsplit (h.fault hfront)
  | @answer id result hr =>
    rw [hr] at h
    refine hpass [] [] rfl ?_ ?_ ?_ (h.handOn rfl rfl rfl rfl rfl)
    · unfold answer
      split <;> rfl
    · rw [List.append_nil]
      unfold answer
      split <;> rfl
    · rw [List.append_nil]
      unfold answer
      split <;> rfl
  | reply hr =>
    rw [hr] at h
    exact hpass [] _ rfl rfl (List.append_nil _).symm rfl (h.handOn rfl rfl rfl rfl rfl)
  | signal hr =>
    rw [hr] at h
    exact hpass _ [] rfl rfl rfl (List.append_nil _).symm (h.handOn rfl rfl rfl rfl rfl)
  | forget hr =>
    rw [hr] at h
    exact hpass [] [] rfl rfl (List.append_nil _).symm (List.append_nil _).symm
      (h.handOn rfl rfl rfl rfl rfl)
  | close hr =>
    rw [hr] at h
    exact hpass _ [] rfl rfl rfl (List.append_nil _).symm (h.handOn rfl rfl rfl rfl rfl)
  | dropReply hr hover =>
    rw [hwrites] at hover
    cases hover
  | dropSignal hr hdeaf | dropClose hr hdeaf =>
    rw [hheard] at hdeaf
    cases hdeaf

end Routed

end Client

/-! ## Writing -/

/-- What the writing activity has begun and not written. -/
def Writing.left : Writing → List UInt8
  | .bytes left => left
  | _ => []

/-- The bytes of what the writing activity is given. -/
def Outgoing.bytes : Outgoing → List UInt8
  | .message v => Rpc.frameBytes v
  | .farewell => []

namespace Client

/-- What the writing activity has been given and not written. -/
def unsent (a : Client) : List UInt8 := a.writing.left ++ a.outbox.flatMap Outgoing.bytes

/-- A client whose activities have not done anything yet. -/
structure New (a : Client) : Prop where
  reading : a.reading = .bytes .idle
  writing : a.writing = .idle
  outbox : a.outbox = []

/-- The writing activity writes what comes first. -/
theorem write?_unsent {a b : Client} {k k' : Connection} (h : a.write? k = some (b, k'))
    (hover : b.writing.isOver = false) :
    ∃ written, k'.toServer = k.toServer ++ written ∧ a.unsent = written ++ b.unsent := by
  cases write?_piece h with
  | leave hw | lose hw => cases hover
  | begin hw hout =>
    refine ⟨[], (List.append_nil _).symm, ?_⟩
    simp [unsent, hw, hout, Writing.left, Outgoing.bytes]
  | finish hw =>
    refine ⟨[], (List.append_nil _).symm, ?_⟩
    simp [unsent, hw, Writing.left]
  | @write left hw hgone hroom =>
    refine ⟨left.take k.room, rfl, ?_⟩
    simp only [unsent, hw, Writing.left, Connection.accept]
    rw [← List.append_assoc, List.take_append_drop]

/-- Where the server takes what is written, a writing activity that cannot go on has written
everything. -/
theorem write?_eq_none {a : Client} {k : Connection} (h : a.write? k = none)
    (hwrites : a.writing.isOver = false) (hroom : 0 < k.room) : a.unsent = [] := by
  unfold write? at h
  cases hw : a.writing with
  | idle =>
    simp only [hw] at h
    split at h
    · rename_i houtbox
      simp [unsent, hw, houtbox, Writing.left]
    · cases h
    · cases h
  | bytes left =>
    simp only [hw, if_neg (Nat.ne_of_gt hroom)] at h
    split at h
    · cases h
    · split at h <;> cases h
  | «over» =>
    rw [hw] at hwrites
    cases hwrites

/-- A client whose writing activity is given more has more to send. -/
theorem unsent_of_given {a b : Client} {more : List Outgoing} (hwriting : b.writing = a.writing)
    (houtbox : b.outbox = a.outbox ++ more) :
    b.unsent = a.unsent ++ more.flatMap Outgoing.bytes := by
  rw [unsent, hwriting, houtbox, List.flatMap_append, ← List.append_assoc, unsent]

end Client

end SessionHost
