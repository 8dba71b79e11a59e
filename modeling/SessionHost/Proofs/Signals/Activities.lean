import SessionHost.Client.Request
import SessionHost.Client.Routing

/-!
# The pieces of reading, writing and requesting

A client's two activities go on in pieces, and so do its requests.  What one piece does is said
here once, with all that it depends on: the place it starts from, what it takes off the connection
or puts on it, the room that it finds, and the time.

Main definitions:

- `Client.ReadingPiece`, `Client.WritingPiece`: what one piece of each activity does.
- `Request.Piece`: what one piece of a request does.

Main results:

- Theorems `Client.post_eq_taken`, `Client.signal_eq_taken` and others: what is handed over, and
  when.
- Theorems `Client.read?_piece`, `Client.write?_piece`: an activity does nothing else.
- Theorem `Request.step_piece`: nor does a request.
-/

namespace SessionHost

open Json (Value)
open Rpc (FrameFault FrameReader ResponseError ServerSignal)

namespace Client

variable {a b : Client} {k k' : Connection}

/-! ## Handing over -/

/-- The writing activity takes a message while it goes on and has room. -/
theorem post_eq_taken {item : Outgoing} (h : a.post item = .taken b) :
    b = { a with outbox := a.outbox ++ [item] } ∧ a.writing.isOver = false ∧
      a.outbox.length < outboxRoom := by
  unfold post at h
  split at h
  · cases h
  · rename_i hwrites
    split at h
    · cases h
    · rename_i hroom
      cases h
      exact ⟨rfl, Bool.eq_false_iff.2 hwrites, Nat.lt_of_not_le hroom⟩

/-- The writing activity refuses a message when it has come to its end. -/
theorem post_eq_refused {item : Outgoing} (h : a.post item = .refused) :
    a.writing.isOver = true := by
  unfold post at h
  split at h
  · assumption
  · split at h <;> cases h

/-- A message has to wait while the writing activity goes on and has no room. -/
theorem post_eq_full {item : Outgoing} (h : a.post item = .full) :
    a.writing.isOver = false ∧ outboxRoom ≤ a.outbox.length := by
  unfold post at h
  split at h
  · cases h
  · rename_i hwrites
    split at h
    · exact ⟨Bool.eq_false_iff.2 hwrites, ‹_›⟩
    · cases h

/-- A message that finds room is taken. -/
theorem post_of_room {item : Outgoing} (hwrites : a.writing.isOver = false)
    (hroom : a.outbox.length < outboxRoom) :
    a.post item = .taken { a with outbox := a.outbox ++ [item] } := by
  rw [post, if_neg (by simp [hwrites]), if_neg (Nat.not_le.2 hroom)]

/-- The mailbox takes a signal while somebody hears the client and there is room. -/
theorem signal_eq_taken {s : ClientSignal} (h : a.signal s = .taken b) :
    b = { a with mailbox := a.mailbox ++ [s] } ∧ a.heard = true ∧
      a.mailbox.length < a.mailboxRoom := by
  unfold signal at h
  split at h
  · cases h
  · rename_i hheard
    split at h
    · cases h
    · rename_i hroom
      cases h
      exact ⟨rfl, by simpa using hheard, Nat.lt_of_not_le hroom⟩

/-- The mailbox refuses a signal when nobody hears the client. -/
theorem signal_eq_refused {s : ClientSignal} (h : a.signal s = .refused) : a.heard = false := by
  unfold signal at h
  split at h
  · rename_i hdeaf
    simpa using hdeaf
  · split at h <;> cases h

/-- A signal that finds room is taken. -/
theorem signal_of_room {s : ClientSignal} (hheard : a.heard = true)
    (hroom : a.mailbox.length < a.mailboxRoom) :
    a.signal s = .taken { a with mailbox := a.mailbox ++ [s] } := by
  rw [signal, if_neg (by simp [hheard]), if_neg (Nat.not_le.2 hroom)]

/-! ## Reading -/

/-- What one piece of the reading activity does. -/
inductive ReadingPiece (a : Client) (k : Connection) : Client → Connection → Prop where
  /-- The stream has ended. -/
  | finish {r : FrameReader} (hr : a.reading = .bytes r) (hbytes : k.toClient = [])
      (hsilent : k.serverSilent = true) : ReadingPiece a k { a with reading := .forgetting } k
  /-- The bytes that have arrived do not end a frame. -/
  | gather {r next : FrameReader} {rest : List UInt8} (hr : a.reading = .bytes r)
      (hbytes : k.toClient ≠ []) (htake : takeFrame r k.toClient = (next, rest, none)) :
      ReadingPiece a k { a with reading := .bytes next } { k with toClient := rest }
  | take {r next : FrameReader} {rest : List UInt8} {message : Value} (hr : a.reading = .bytes r)
      (htake : takeFrame r k.toClient = (next, rest, some (.ok message))) :
      ReadingPiece a k { a with reading := route message } { k with toClient := rest }
  /-- A frame cannot be read. -/
  | fail {r next : FrameReader} {rest : List UInt8} {fault : FrameFault}
      (hr : a.reading = .bytes r)
      (htake : takeFrame r k.toClient = (next, rest, some (.error fault))) :
      ReadingPiece a k { a with reading := .forgetting } { k with toClient := rest }
  | answer {id : Nat} {result : Except ResponseError Value}
      (hr : a.reading = .answering id result) :
      ReadingPiece a k { a.answer id result with reading := .bytes .idle } k
  | reply {m : Value} (hr : a.reading = .replying m) (hwrites : a.writing.isOver = false)
      (hroom : a.outbox.length < outboxRoom) :
      ReadingPiece a k { a with outbox := a.outbox ++ [.message m], reading := .bytes .idle } k
  /-- The writing activity has come to its end. -/
  | dropReply {m : Value} (hr : a.reading = .replying m) (hover : a.writing.isOver = true) :
      ReadingPiece a k { a with reading := .bytes .idle } k
  | signal {s : ServerSignal} (hr : a.reading = .signalling s) (hheard : a.heard = true)
      (hroom : a.mailbox.length < a.mailboxRoom) :
      ReadingPiece a k { a with mailbox := a.mailbox ++ [.server s], reading := .bytes .idle } k
  /-- Nobody hears the client. -/
  | dropSignal {s : ServerSignal} (hr : a.reading = .signalling s) (hdeaf : a.heard = false) :
      ReadingPiece a k { a with reading := .bytes .idle } k
  | forget (hr : a.reading = .forgetting) :
      ReadingPiece a k { a.forgetAll with reading := .closing } k
  | close (hr : a.reading = .closing) (hheard : a.heard = true)
      (hroom : a.mailbox.length < a.mailboxRoom) :
      ReadingPiece a k { a with mailbox := a.mailbox ++ [.closed], reading := .over } k
  /-- Nobody hears that the stream has ended. -/
  | dropClose (hr : a.reading = .closing) (hdeaf : a.heard = false) :
      ReadingPiece a k { a with reading := .over } k

/-- The reading activity takes what has arrived, or notes the end of the stream. -/
theorem readBytes?_piece {r : FrameReader} (hr : a.reading = .bytes r)
    (h : a.readBytes? k r = some (b, k')) : a.ReadingPiece k b k' := by
  unfold readBytes? at h
  split at h
  · rename_i hbytes
    split at h
    · rename_i hsilent
      cases h
      exact .finish hr (List.isEmpty_iff.1 hbytes) hsilent
    · cases h
  · rename_i hbytes
    split at h
    · rename_i htake
      cases h
      exact .gather hr (fun hempty => hbytes (List.isEmpty_iff.2 hempty)) htake
    · rename_i htake
      cases h
      exact .take hr htake
    · rename_i htake
      cases h
      exact .fail hr htake

/-- A piece of the reading activity is one of these. -/
theorem read?_piece (h : a.read? k = some (b, k')) : a.ReadingPiece k b k' := by
  unfold read? at h
  cases hr : a.reading with
  | bytes r =>
    rw [hr] at h
    exact readBytes?_piece hr h
  | answering id result =>
    rw [hr] at h
    cases h
    exact .answer hr
  | replying m =>
    simp only [hr] at h
    split at h
    · rename_i hpost
      cases h
      obtain ⟨rfl, hwrites, hroom⟩ := post_eq_taken hpost
      exact .reply hr hwrites hroom
    · rename_i hpost
      cases h
      exact .dropReply hr (post_eq_refused hpost)
    · cases h
  | signalling s =>
    simp only [hr] at h
    split at h
    · rename_i hsignal
      cases h
      obtain ⟨rfl, hheard, hroom⟩ := signal_eq_taken hsignal
      exact .signal hr hheard hroom
    · rename_i hsignal
      cases h
      exact .dropSignal hr (signal_eq_refused hsignal)
    · cases h
  | forgetting =>
    rw [hr] at h
    cases h
    exact .forget hr
  | closing =>
    simp only [hr] at h
    split at h
    · rename_i hsignal
      cases h
      obtain ⟨rfl, hheard, hroom⟩ := signal_eq_taken hsignal
      exact .close hr hheard hroom
    · rename_i hsignal
      cases h
      exact .dropClose hr (signal_eq_refused hsignal)
    · cases h
  | «over» =>
    rw [hr] at h
    cases h

/-! ## Writing -/

/-- What one piece of the writing activity does. -/
inductive WritingPiece (a : Client) (k : Connection) : Client → Connection → Prop where
  /-- The activity is told to end. -/
  | leave {rest : List Outgoing} (hw : a.writing = .idle) (hout : a.outbox = .farewell :: rest) :
      WritingPiece a k a.endWriting k
  | begin {message : Value} {rest : List Outgoing} (hw : a.writing = .idle)
      (hout : a.outbox = .message message :: rest) :
      WritingPiece a k { a with outbox := rest, writing := .bytes (Rpc.frameBytes message) } k
  | finish (hw : a.writing = .bytes []) : WritingPiece a k { a with writing := .idle } k
  /-- The server has dropped the connection. -/
  | lose {left : List UInt8} (hw : a.writing = .bytes left) (hgone : k.serverGone = true) :
      WritingPiece a k a.endWriting k
  | write {left : List UInt8} (hw : a.writing = .bytes left) (hgone : k.serverGone = false)
      (hroom : k.room ≠ 0) :
      WritingPiece a k { a with writing := .bytes (k.accept left).2 } (k.accept left).1

/-- A piece of the writing activity is one of these. -/
theorem write?_piece (h : a.write? k = some (b, k')) : a.WritingPiece k b k' := by
  unfold write? at h
  cases hw : a.writing with
  | idle =>
    simp only [hw] at h
    split at h
    · cases h
    · rename_i hout
      cases h
      exact .leave hw hout
    · rename_i hout
      cases h
      exact .begin hw hout
  | bytes left =>
    simp only [hw] at h
    split at h
    · rename_i hleft
      cases h
      exact .finish (List.isEmpty_iff.1 hleft ▸ hw)
    · split at h
      · rename_i hgone
        cases h
        exact .lose hw hgone
      · rename_i hgone
        split at h
        · cases h
        · rename_i hroom
          cases h
          exact .write hw (Bool.eq_false_iff.2 hgone) hroom
  | «over» =>
    rw [hw] at h
    cases h

end Client

/-! ## Requests -/

namespace Request

/-- What a piece of a request comes to. -/
inductive Piece (q : Request) (now : Nat) (a : Client) :
    ClientProgress Request RequestResult → Prop where
  | register (hplace : q.place = .registering) :
      Piece q now a (.going (a.await q.id) { q with place := .posting })
  | post {b : Client} (hplace : q.place = .posting)
      (hpost : a.post (.message (Rpc.requestMessage q.id q.method q.params)) = .taken b) :
      Piece q now a (.going b { q with place := .awaiting (now + q.timeout.nanos) })
  | refuse (hplace : q.place = .posting) (hover : a.writing.isOver = true) :
      Piece q now a (.going a { q with place := .withdrawing .closed })
  | full (hplace : q.place = .posting) (hwrites : a.writing.isOver = false)
      (hroom : Client.outboxRoom ≤ a.outbox.length) : Piece q now a .blocked
  | answer {deadline : Nat} {answer : Except ResponseError Value}
      (hplace : q.place = .awaiting deadline) (hanswer : a.answerTo? q.id = some answer) :
      Piece q now a (.finished (a.forget q.id) (resultOf answer))
  /-- The table has been emptied. -/
  | clear {deadline : Nat} (hplace : q.place = .awaiting deadline)
      (hnone : a.answerTo? q.id = none) (hwaits : q.id ∉ a.waiting) :
      Piece q now a (.finished a (.error .closed))
  | expire {deadline : Nat} (hplace : q.place = .awaiting deadline)
      (hnone : a.answerTo? q.id = none) (hwaits : q.id ∈ a.waiting) (hle : deadline ≤ now) :
      Piece q now a (.going a { q with place := .withdrawing (.timedOut q.method) })
  | wait {deadline : Nat} (hplace : q.place = .awaiting deadline)
      (hnone : a.answerTo? q.id = none) (hwaits : q.id ∈ a.waiting) (hlt : now < deadline) :
      Piece q now a .blocked
  | withdraw {why : RequestFailure} (hplace : q.place = .withdrawing why) :
      Piece q now a (.finished (a.forget q.id) (.error why))

theorem step_piece (q : Request) (now : Nat) (a : Client) : q.Piece now a (q.step now a) := by
  unfold step
  split
  · rename_i hplace
    exact .register hplace
  · rename_i hplace
    split
    · rename_i hpost
      exact .post hplace hpost
    · rename_i hpost
      obtain ⟨hwrites, hroom⟩ := Client.post_eq_full hpost
      exact .full hplace hwrites hroom
    · rename_i hpost
      exact .refuse hplace (Client.post_eq_refused hpost)
  · rename_i deadline hplace
    split
    · rename_i hanswer
      exact .answer hplace hanswer
    · rename_i hnone
      split
      · rename_i hwaits
        exact .clear hplace hnone hwaits
      · rename_i hwaits
        split
        · rename_i hle
          exact .expire hplace hnone (Decidable.not_not.1 hwaits) hle
        · rename_i hlt
          exact .wait hplace hnone (Decidable.not_not.1 hwaits) (Nat.lt_of_not_le hlt)
  · rename_i why hplace
    exact .withdraw hplace

end Request

end SessionHost
