import SessionHost.Proofs.Ledger.Trace
import SessionHost.Proofs.Signals.Busy

/-!
# Signals that come early

A server may send signals before it has answered the first request of its client.  Nobody takes
them out of the mailbox until then, and the reading activity waits with a signal that finds no
room, in front of the answer that the start waits for.  So a start comes to its end only if its
mailbox has room for all signals in front of the first response, and then it needs no time for it.

Main definitions:

- `Frame`, `Greeting`: what a server sends until it has told its version.
- `World.Connected`: a start that has made its connection.
- `World.Seat`, `World.Hastens`: how far a start is with its client, and where it gets at once.

Main results:

- Theorem `World.Seat.exchange`: a request is answered at once if early signals find room.
- Theorem `World.Life.early_signals_fit`: in every live session they have found room, and with
  room for them a start reaches its end without delay.
-/

namespace SessionHost

open Json (Value)
open Rpc (FrameReader Incoming ServerSignal)

/-! ## Frames -/

/-- A frame, and the message in it. -/
structure Frame where
  bytes : List UInt8
  message : Value
  whole : takeFrame .idle bytes = (.idle, [], some (.ok message))

/-- Bytes as a frame, if they are one. -/
def Frame.ofBytes? (bytes : List UInt8) : Option Frame :=
  match h : takeFrame .idle bytes with
  | (.header false none [], [], some (.ok message)) => some ⟨bytes, message, h⟩
  | _ => none

/-- What comes behind a frame stays where it is. -/
theorem takeFrame_append {r next : FrameReader} {bytes rest : List UInt8} {result : Rpc.FrameResult}
    (h : takeFrame r bytes = (next, rest, some result)) (more : List UInt8) :
    takeFrame r (bytes ++ more) = (next, rest ++ more, some result) := by
  induction bytes generalizing r with
  | nil => cases h
  | cons b tail ih =>
    rw [List.cons_append]
    unfold takeFrame at h ⊢
    split
    · rename_i s result' hstep
      rw [hstep] at h
      cases h
      rfl
    · rename_i s hstep
      rw [hstep] at h
      exact ih h

namespace Frame

/-- A frame is taken as soon as its bytes are there. -/
theorem takeFrame_bytes (f : Frame) (more : List UInt8) :
    takeFrame .idle (f.bytes ++ more) = (.idle, more, some (.ok f.message)) :=
  takeFrame_append f.whole more

/-- The message of a frame is the first of a stream that it begins. -/
theorem messages_bytes (f : Frame) (more : List UInt8) :
    FrameReader.idle.messages (f.bytes ++ more) = f.message :: FrameReader.idle.messages more :=
  takeFrame_some f.whole more

/-- The bytes of several frames. -/
def stream (fs : List Frame) : List UInt8 := fs.flatMap Frame.bytes

/-- A stream of frames gives their messages. -/
theorem messages_stream (fs : List Frame) (more : List UInt8) :
    FrameReader.idle.messages (stream fs ++ more) =
      fs.map Frame.message ++ FrameReader.idle.messages more := by
  induction fs with
  | nil => rfl
  | cons f rest ih =>
    have hcons : stream (f :: rest) ++ more = f.bytes ++ (stream rest ++ more) := by
      rw [stream, List.flatMap_cons, List.append_assoc]
      rfl
    rw [hcons, f.messages_bytes, ih]
    rfl

/-- The message in the frame is a notification. -/
def Notifies (f : Frame) : Prop :=
  ∃ method params, Incoming.ofValue? f.message = some (.notification method params)

/-- Notifications are no responses. -/
theorem Notifies.isResponse {f : Frame} (h : f.Notifies) : isResponse f.message = false := by
  obtain ⟨method, params, h⟩ := h
  rw [SessionHost.isResponse, h]

/-- A notification that has no signal is dropped, and the others are routed to the mailbox. -/
theorem Notifies.route {f : Frame} (h : f.Notifies) :
    Client.route f.message = match signalOf? f.message with
      | some s => .signalling s
      | none => .bytes .idle := by
  obtain ⟨method, params, h⟩ := h
  cases hsignal : Rpc.signal? method params <;> simp [Client.route, signalOf?, h, hsignal]

/-- The message in the frame answers a request. -/
def Answers (f : Frame) (id : Nat) (v : Value) : Prop :=
  Incoming.ofValue? f.message = some (.response id (.ok v))

/-- A response is handed to the request with its number. -/
theorem Answers.route {f : Frame} {id : Nat} {v : Value} (h : f.Answers id v) :
    Client.route f.message = .answering id (.ok v) := by
  rw [Client.route, show Incoming.ofValue? f.message = _ from h]

theorem Answers.isResponse {f : Frame} {id : Nat} {v : Value} (h : f.Answers id v) :
    isResponse f.message = true := by
  rw [SessionHost.isResponse, show Incoming.ofValue? f.message = _ from h]

/-- The message in the frame is a notification, decided. -/
def isNotice (f : Frame) : Bool :=
  match Incoming.ofValue? f.message with
  | some (.notification _ _) => true
  | _ => false

/-- The value with which the message in the frame answers a request. -/
def answer? (f : Frame) (id : Nat) : Option Value :=
  match Incoming.ofValue? f.message with
  | some (.response i (.ok v)) => if i = id then some v else none
  | _ => none

/-- What is a notice notifies of something. -/
theorem notifies_of_isNotice {f : Frame} (h : f.isNotice = true) : f.Notifies := by
  unfold isNotice at h
  split at h
  · rename_i method params hmessage
    exact ⟨method, params, hmessage⟩
  · cases h

/-- What has an answer answers the request. -/
theorem answers_of_answer? {f : Frame} {id : Nat} {v : Value} (h : f.answer? id = some v) :
    f.Answers id v := by
  unfold answer? at h
  split at h
  · rename_i i v' hmessage
    split at h <;> cases h
    rename_i hi
    exact hi ▸ hmessage
  · cases h

end Frame

/-- What a server sends until it has told its version: notifications, the answer to the first
request, and the answer to the second one. -/
structure Greeting where
  notices : List Frame
  notifies : ∀ f ∈ notices, f.Notifies
  welcome : Frame
  capabilities : Value
  welcomes : welcome.Answers 1 capabilities
  reply : Frame
  answer : Value
  replies : reply.Answers 2 answer
  version : RuntimeDetails
  tells : RuntimeDetails.ofValue? answer = some version

namespace Greeting

/-- All the bytes of a greeting. -/
def bytes (s : Greeting) : List UInt8 :=
  Frame.stream s.notices ++ s.welcome.bytes ++ s.reply.bytes

/-- The signals of the notifications come early. -/
theorem earlySignals_bytes (s : Greeting) (more : List UInt8) :
    earlySignals (FrameReader.idle.messages (s.bytes ++ more)) =
      signals (s.notices.map Frame.message) := by
  have hnone : (s.notices.map Frame.message).any isResponse = false := by
    rw [List.any_eq_false]
    intro m hm
    obtain ⟨f, hf, rfl⟩ := List.mem_map.1 hm
    simp [(s.notifies f hf).isResponse]
  have hread : (s.notices.map Frame.message ++ [s.welcome.message]).any isResponse = true := by
    simp [s.welcomes.isResponse]
  have hsplit : s.notices.map Frame.message ++ s.welcome.message ::
      FrameReader.idle.messages (s.reply.bytes ++ more) =
      (s.notices.map Frame.message ++ [s.welcome.message]) ++
        FrameReader.idle.messages (s.reply.bytes ++ more) := by simp
  rw [bytes, List.append_assoc, List.append_assoc, Frame.messages_stream,
    Frame.messages_bytes, hsplit, earlySignals_append hread,
    earlySignals_concat hnone s.welcomes.isResponse]

end Greeting

/-! ## One client -/

/-- Nothing is under way at a client. -/
structure Client.AtRest (c : Client) : Prop where
  reading : c.reading = .bytes .idle
  waiting : c.waiting = []
  answers : c.answers = []
  heard : c.heard = true
  writing : c.writing = .idle

namespace Client

/-- Between two frames the reading activity takes the next one. -/
theorem read?_frame {c : Client} {k : Connection} (hr : c.reading = .bytes .idle) (f : Frame)
    {more : List UInt8} (hk : k.toClient = f.bytes ++ more) :
    c.read? k = some ({ c with reading := route f.message }, { k with toClient := more }) := by
  have hframe := f.takeFrame_bytes more
  have hne : (f.bytes ++ more).isEmpty = false := by
    by_contra hempty
    rw [Bool.not_eq_false, List.isEmpty_iff] at hempty
    rw [hempty] at hframe
    cases hframe
  simp only [read?, hr, readBytes?, hk, hne, hframe]
  rfl

end Client

/-! ## How far a start is -/

/-- An activity runs, or a server sends. -/
def Move.isPrompt : Move → Bool
  | .run _ => true
  | .send _ _ => true
  | _ => false

namespace World

variable {w u v : World} {j : Nat} {bytes more : List UInt8}

/-- Moves lead from one world to another one without any delay: activities run, and a server sends
these bytes on its connection. -/
def Hastens (w : World) (j : Nat) (bytes : List UInt8) (v : World) : Prop :=
  ∃ ns, w.play? ns = some v ∧ (∀ m ∈ ns, m.isPrompt = true) ∧ w.sentOn j ns = bytes

namespace Hastens

theorem refl (w : World) (j : Nat) : w.Hastens j [] w :=
  ⟨[], rfl, fun _ hm => absurd hm List.not_mem_nil, rfl⟩

/-- Two stretches without delay are one. -/
theorem trans (h : w.Hastens j bytes u) (h' : u.Hastens j more v) :
    w.Hastens j (bytes ++ more) v := by
  obtain ⟨ns, hplay, hns, hsent⟩ := h
  obtain ⟨ms, hplay', hms, hsent'⟩ := h'
  refine ⟨ns ++ ms, ?_, ?_, ?_⟩
  · rw [play?_append, hplay]
    exact hplay'
  · exact fun m hm => (List.mem_append.1 hm).elim (hns m) (hms m)
  · rw [sentOn, gather_append _ hplay]
    exact congrArg₂ _ hsent hsent'

/-- A prompt move is such a stretch. -/
theorem move {m : Move} (h : w.move? m = some v) (hm : m.isPrompt = true) :
    w.Hastens j (sends j w m) v := by
  refine ⟨[m], ?_, ?_, ?_⟩
  · rw [play?, h]
    rfl
  · simpa using hm
  · simp [sentOn, gather]

end Hastens

/-- A call is at a place of a start that may go on. -/
structure Proceeds (w : World) (i : Nat) (place : Starting) (next : List Phase) (a : Attempt) :
    Prop where
  call : w.calls[i]? = some (.active (.phased (.starting place) next))
  status : w.status = .starting
  generation : w.generation = a.generation
  allowed : .start a.generation ∉ w.cancelled

namespace Proceeds

variable {i : Nat} {place place' : Starting} {next : List Phase} {a : Attempt}

/-- An attempt that proceeds has not been called off. -/
theorem isCancelled_eq_false (s : w.Proceeds i place next a) :
    w.isCancelled (.start a.generation) = false := by
  simpa [isCancelled] using s.allowed

/-- The call goes on by one piece, which leaves the status to others. -/
theorem piece (s : w.Proceeds i place next a) (h : w.start place = .going u place')
    (hsame : u.status = w.status ∧ u.generation = w.generation ∧ u.cancelled = w.cancelled) :
    ∃ v, w.Hastens j [] v ∧ v.Proceeds i place' next a ∧ v.clients = u.clients ∧
      v.connections = u.connections := by
  have hcall : w.call (.phased (.starting place) next) =
      .going u (.phased (.starting place') next) := by
    simp only [World.call, phase, h, Progress.andThen_going]
  have hcalls := w.call_calls (.phased (.starting place) next)
  rw [hcall] at hcalls
  have hmove : w.move? (.run (.call i)) =
      some (u.setCall i (.active (.phased (.starting place') next))) := by
    simp only [move?, step?, call?, s.call, hcall]
  obtain ⟨hstatus, hgeneration, hcancelled⟩ := hsame
  have hi : u.calls[i]? = some (.active (.phased (.starting place) next)) := by
    rw [show u.calls = w.calls from hcalls]
    exact s.call
  refine ⟨_, .move hmove rfl, ⟨getElem?_set_at hi _, hstatus.trans s.status,
    hgeneration.trans s.generation, ?_⟩, rfl, rfl⟩
  exact fun hmem => s.allowed (hcancelled ▸ hmem)

end Proceeds

/-- A call is at a place of a start that may go on, and its client is on a connection. -/
structure Seat (w : World) (i : Nat) (place : Starting) (next : List Phase) (a : Attempt)
    (n : Nat) (c : Client) (k : Connection) : Prop extends w.Proceeds i place next a where
  client : w.clients[n]? = some c
  connection : w.connections[c.connection]? = some k
  loud : k.serverSilent = false

namespace Seat

variable {i n : Nat} {place place' : Starting} {next : List Phase} {a : Attempt}
  {c c' : Client} {k k' : Connection}

/-- The reading activity of the client takes one step. -/
theorem read (s : w.Seat i place next a n c k) (h : c.read? k = some (c', k'))
    (hk : c'.connection = c.connection) (hloud : k'.serverSilent = false) :
    ∃ v, w.Hastens j [] v ∧ v.Seat i place next a n c' k' := by
  let v : World := (w.setClient n c').setConnection c.connection k'
  have hmove : w.move? (.run (.reading n)) = some v := by
    simp only [move?, step?, onWire?, s.client, s.connection, h, Option.bind_eq_bind,
      Option.bind_some]
    rfl
  refine ⟨v, .move hmove rfl, ⟨s.call, s.status, s.generation, s.allowed⟩,
    getElem?_set_at s.client c', ?_, hloud⟩
  rw [hk]
  exact getElem?_set_at s.connection k'

/-- The server sends. -/
theorem send (s : w.Seat i place next a n c k) (bytes : List UInt8) :
    ∃ v, w.Hastens c.connection bytes v ∧
      v.Seat i place next a n c { k with toClient := k.toClient ++ bytes } := by
  have hdeliver : k.deliver bytes = { k with toClient := k.toClient ++ bytes } := by
    simp [Connection.deliver, s.loud]
  let v : World := w.setConnection c.connection (k.deliver bytes)
  have hmove : w.move? (.send c.connection bytes) = some v := by
    simp only [move?, changeConnection?, s.connection]
    rfl
  have hsends : sends c.connection w (.send c.connection bytes) = bytes := by
    simp [sends, s.connection, s.loud]
  refine ⟨v, hsends ▸ .move hmove rfl, ⟨s.call, s.status, s.generation, s.allowed⟩,
    s.client, ?_, ?_⟩
  · rw [← hdeliver]
    exact getElem?_set_at s.connection _
  · exact s.loud

/-- The call goes on by one piece, with its client. -/
theorem piece (s : w.Seat i place next a n c k) (h : w.start place = .going u place')
    (hsame : u.status = w.status ∧ u.generation = w.generation ∧ u.cancelled = w.cancelled)
    (hclient : u.clients[n]? = some c') (hconnection : u.connections[c'.connection]? = some k) :
    ∃ v, w.Hastens j [] v ∧ v.Seat i place' next a n c' k := by
  obtain ⟨v, hv, s', hclients, hconnections⟩ := s.toProceeds.piece (j := j) h hsame
  exact ⟨v, hv, s', hclients ▸ hclient, hconnections ▸ hconnection, s.loud⟩

/-- The client takes a notification off its connection, and its signal finds room. -/
theorem readNotice (s : w.Seat i place next a n c k) {f : Frame} (hf : f.Notifies)
    (hr : c.reading = .bytes .idle) (hheard : c.heard = true) (hk : k.toClient = f.bytes ++ more)
    (hroom : c.mailbox.length + (signals [f.message]).length ≤ c.mailboxRoom) :
    ∃ v, w.Hastens j [] v ∧ v.Seat i place next a n
      { c with mailbox := c.mailbox ++ (signals [f.message]).map ClientSignal.server }
      { k with toClient := more } := by
  have hidle : { c with reading := .bytes .idle } = c := by rw [← hr]
  obtain ⟨u, hu, s'⟩ := s.read (j := j) (Client.read?_frame hr f hk) rfl s.loud
  rw [hf.route] at s'
  cases hsignal : signalOf? f.message with
  | none =>
    refine ⟨u, hu, ?_⟩
    simp only [hsignal, hidle] at s'
    simpa [signals, hsignal] using s'
  | some t =>
    have hput : c.mailbox.length + 1 ≤ c.mailboxRoom := by simpa [signals, hsignal] using hroom
    simp only [hsignal] at s'
    have htaken : ({ c with reading := .signalling t } : Client).read? { k with toClient := more } =
        some ({ c with mailbox := c.mailbox ++ [.server t], reading := .bytes .idle },
          { k with toClient := more }) := by
      simp only [Client.read?, Client.signal, hheard, if_neg (Nat.not_le.2 hput)]
      rfl
    obtain ⟨v, hv, s''⟩ := s'.read (j := j) htaken rfl s.loud
    refine ⟨v, hu.trans hv, ?_⟩
    rw [← hr] at s''
    simpa [signals, hsignal] using s''

/-- With room for their signals, the client takes notifications off its connection. -/
theorem readNotices (s : w.Seat i place next a n c k) {fs : List Frame}
    (hfs : ∀ f ∈ fs, f.Notifies) (hr : c.reading = .bytes .idle) (hheard : c.heard = true)
    (hk : k.toClient = Frame.stream fs ++ more)
    (hroom : c.mailbox.length + (signals (fs.map Frame.message)).length ≤ c.mailboxRoom) :
    ∃ v, w.Hastens j [] v ∧ v.Seat i place next a n
      { c with
        mailbox := c.mailbox ++ (signals (fs.map Frame.message)).map ClientSignal.server }
      { k with toClient := more } := by
  induction fs generalizing w c k with
  | nil =>
    refine ⟨w, .refl w j, ?_⟩
    have hk' : more = k.toClient := hk.symm
    simpa [signals, hk'] using s
  | cons f rest ih =>
    have hsplit : k.toClient = f.bytes ++ (Frame.stream rest ++ more) := by
      rw [hk, Frame.stream, List.flatMap_cons, List.append_assoc]
      rfl
    have hsignals : signals ((f :: rest).map Frame.message) =
        signals [f.message] ++ signals (rest.map Frame.message) :=
      signals_append [f.message] (rest.map Frame.message)
    rw [hsignals, List.length_append] at hroom
    obtain ⟨u, hu, s'⟩ :=
      s.readNotice (j := j) (hfs f List.mem_cons_self) hr hheard hsplit (by omega)
    obtain ⟨v, hv, s''⟩ := ih s' (fun g hg => hfs g (List.mem_cons_of_mem _ hg)) hr hheard rfl (by
      simp only [List.length_append, List.length_map]
      omega)
    refine ⟨v, hu.trans hv, ?_⟩
    rw [hsignals, List.map_append, ← List.append_assoc]
    exact s''

/-- The client takes the answer to its only request off its connection. -/
theorem readAnswer (s : w.Seat i place next a n c k) {f : Frame} {id : Nat} {v : Value}
    (hf : f.Answers id v) (hr : c.reading = .bytes .idle) (hwaiting : c.waiting = [id])
    (hk : k.toClient = f.bytes ++ more) :
    ∃ u, w.Hastens j [] u ∧ u.Seat i place next a n
      { c with waiting := [], answers := c.answers ++ [(id, .ok v)] }
      { k with toClient := more } := by
  obtain ⟨u, hu, s'⟩ := s.read (j := j) (Client.read?_frame hr f hk) rfl s.loud
  rw [hf.route] at s'
  have hanswer : ({ c with reading := .answering id (.ok v) } : Client).read?
      { k with toClient := more } =
      some ({ c with
        waiting := [], answers := c.answers ++ [(id, .ok v)], reading := .bytes .idle },
        { k with toClient := more }) := by
    simp [Client.read?, Client.answer, hwaiting]
  obtain ⟨u', hu', s''⟩ := s'.read (j := j) hanswer rfl s.loud
  rw [← hr] at s''
  exact ⟨u', hu.trans hu', s''⟩

/-! ## One request -/

/-- The pieces of a request are pieces of the start that it is a part of. -/
def Wraps (wrap : Request → Starting) (a : Attempt) (n : Nat) : Prop :=
  ∀ {w : World} {r r' : Request} {c c' : Client}, .start a.generation ∉ w.cancelled →
    w.clients[n]? = some c → r.step w.now c = .going c' r' →
    w.start (wrap r) = .going (w.setClient n c') (wrap r')

/-- An opening goes on as its first request does. -/
theorem wraps_opening (a : Attempt) (n : Nat) : Wraps (fun r => .opening a n (.asking r)) a n := by
  intro w r r' c c' hallowed hc hstep
  have hnot : w.isCancelled (.start a.generation) = false := by simpa [isCancelled] using hallowed
  simp [start, hnot, onClient, hc, Opening.step, hstep, Progress.within]

/-- A start that asks for the version goes on as its request does. -/
theorem wraps_asking (a : Attempt) (n : Nat) : Wraps (fun r => .asking a n r) a n := by
  intro w r r' c c' hallowed hc hstep
  have hnot : w.isCancelled (.start a.generation) = false := by simpa [isCancelled] using hallowed
  simp [start, hnot, onClient, hc, hstep, Progress.within]

/-- The start goes on with a piece of its request. -/
theorem talk {wrap : Request → Starting} (hwrap : Wraps wrap a n) {r r' : Request}
    (s : w.Seat i (wrap r) next a n c k) (hstep : r.step w.now c = .going c' r')
    (hk : c'.connection = c.connection) :
    ∃ v, w.Hastens j [] v ∧ v.Seat i (wrap r') next a n c' k :=
  s.piece (hwrap s.allowed s.client hstep) ⟨rfl, rfl, rfl⟩ (getElem?_set_at s.client c')
    (by rw [hk]; exact s.connection)

/-- A client at which nothing is under way has its next request answered at once, if the signals
in front of the answer find room. -/
theorem exchange {wrap : Request → Starting} (hwrap : Wraps wrap a n) {id : Nat}
    {method : Rpc.Method} {params : Option Value} {timeout : Duration}
    (s : w.Seat i (wrap ⟨id, method, params, timeout, .registering⟩) next a n c k)
    (hc : c.AtRest) (hbox : c.outbox.length < Client.outboxRoom) (hk : k.toClient = [])
    {fs : List Frame} (hfs : ∀ f ∈ fs, f.Notifies)
    (hroom : c.mailbox.length + (signals (fs.map Frame.message)).length ≤ c.mailboxRoom)
    {f : Frame} {v : Value} (hf : f.Answers id v) :
    ∃ u t, w.Hastens c.connection (Frame.stream fs ++ f.bytes) u ∧
      u.Seat i (wrap ⟨id, method, params, timeout, .awaiting t⟩) next a n
        { c with
          outbox := c.outbox ++ [.message (Rpc.requestMessage id method params)]
          mailbox := c.mailbox ++ (signals (fs.map Frame.message)).map ClientSignal.server
          answers := [(id, .ok v)] } k := by
  let request (place : RequestPlace) : Request := ⟨id, method, params, timeout, place⟩
  have hregister : (request .registering).step w.now c = .going (c.await id) (request .posting) :=
    rfl
  obtain ⟨w₁, h₁, s₁⟩ := talk (j := c.connection) hwrap s hregister rfl
  let asked : Client :=
    { c with
      waiting := c.waiting ++ [id]
      outbox := c.outbox ++ [.message (Rpc.requestMessage id method params)] }
  have hpost : (c.await id).post (.message (Rpc.requestMessage id method params)) =
      .taken asked := Client.post_of_room (by rw [Client.await, hc.writing]; rfl) hbox
  have hask : (request .posting).step w₁.now (c.await id) =
      .going asked (request (.awaiting (w₁.now + timeout.nanos))) := by
    simp only [request, Request.step, hpost]
  obtain ⟨w₂, h₂, s₂⟩ := talk (j := c.connection) hwrap s₁ hask rfl
  obtain ⟨w₃, h₃, s₃⟩ := s₂.send (Frame.stream fs ++ f.bytes)
  have harrived : k.toClient ++ (Frame.stream fs ++ f.bytes) = Frame.stream fs ++ f.bytes := by
    rw [hk]
    rfl
  obtain ⟨w₄, h₄, s₄⟩ :=
    s₃.readNotices (j := c.connection) hfs hc.reading hc.heard harrived hroom
  have hwaiting : asked.waiting = [id] := by simp [asked, hc.waiting]
  obtain ⟨w₅, h₅, s₅⟩ := s₄.readAnswer (j := c.connection) hf hc.reading hwaiting
    (List.append_nil f.bytes).symm
  refine ⟨w₅, w₁.now + timeout.nanos, ?_, ?_⟩
  · have hall := h₁.trans (h₂.trans (h₃.trans (h₄.trans h₅)))
    simpa using hall
  · have hempty : { k with toClient := [] } = k := by rw [← hk]
    simp only [asked, hc.answers, List.nil_append, hempty] at s₅
    rw [hc.waiting]
    exact s₅

/-! ## The way of a start -/

/-- A client whose first request has been answered is told so. -/
theorem told {r : Request} {t : Nat} {v : Value}
    (s : w.Seat i (.opening a n (.asking r)) next a n c k) (hr : r.place = .awaiting t)
    (hanswers : c.answers = [(r.id, .ok v)]) :
    ∃ u, w.Hastens j [] u ∧ u.Seat i (.opening a n .telling) next a n (c.forget r.id) k := by
  have hstep : r.step w.now c = .finished (c.forget r.id) (.ok v) := by
    simp [Request.step, hr, Client.answerTo?, hanswers, Request.resultOf]
  have hpiece : w.start (.opening a n (.asking r)) =
      .going (w.setClient n (c.forget r.id)) (.opening a n .telling) := by
    simp [start, s.isCancelled_eq_false, onClient, s.client, Opening.step, hstep, Progress.within]
  exact s.piece hpiece ⟨rfl, rfl, rfl⟩ (getElem?_set_at s.client _) s.connection

/-- The server is told that it may begin. -/
theorem tell (s : w.Seat i (.opening a n .telling) next a n c k) (hwriting : c.writing = .idle)
    (hroom : c.outbox.length < Client.outboxRoom) :
    ∃ u, w.Hastens j [] u ∧ u.Seat i (.keeping a n) next a n
      { c with
        outbox := c.outbox ++
          [.message (Rpc.notificationMessage .initialized (some (.object [])))] } k := by
  have hpost : c.post (.message (Rpc.notificationMessage .initialized (some (.object [])))) = _ :=
    Client.post_of_room (by rw [hwriting]; rfl) hroom
  refine s.piece (u := w.setClient n _) ?_ ⟨rfl, rfl, rfl⟩ (getElem?_set_at s.client _)
    s.connection
  simp [start, s.isCancelled_eq_false, onClient, s.client, Opening.step, hpost, Progress.within]

/-- The client is kept, and is going to be asked for the version. -/
theorem keep (s : w.Seat i (.keeping a n) next a n c k) :
    ∃ u timeout, w.Hastens j [] u ∧ u.Seat i
      (.asking a n ⟨c.nextId, .getVersion, none, timeout, .registering⟩) next a n
      { c with nextId := c.nextId + 1 } k := by
  let v : World :=
    { w with
      session := { w.session with client := some ⟨a.generation, n⟩ }
      pumps := w.pumps ++ [{ client := n, generation := a.generation }] }
  have hclient : v.clients[n]? = some c := s.client
  have hpiece : w.start (.keeping a n) = .going (v.setClient n { c with nextId := c.nextId + 1 })
      (.asking a n ⟨c.nextId, .getVersion, none, w.config.timings.version, .registering⟩) := by
    have hstore : w.storeUnlessCancelled a (fun s => { s with client := some ⟨a.generation, n⟩ }) =
        some { w with session := { w.session with client := some ⟨a.generation, n⟩ } } := by
      rw [storeUnlessCancelled, if_neg (by simp [s.isCancelled_eq_false])]
    simp only [start, keepClient, hstore]
    rw [show ({ w with
      session := { w.session with client := some ⟨a.generation, n⟩ } } : World).clients[n]? =
        some c from s.client]
    rfl
  obtain ⟨u, hu, s'⟩ := s.piece (j := j) hpiece ⟨rfl, rfl, rfl⟩
    (getElem?_set_at s.client _) s.connection
  exact ⟨u, _, hu, s'⟩

/-- The version has been told, and the start comes to its end. -/
theorem versioned {r : Request} {t : Nat} {v : Value} {version : RuntimeDetails}
    (s : w.Seat i (.asking a n r) next a n c k) (hr : r.place = .awaiting t)
    (hanswers : c.answers = [(r.id, .ok v)]) (hversion : RuntimeDetails.ofValue? v = some version) :
    ∃ u, w.Hastens j [] u ∧ u.Proceeds i (.concluding a version) next a := by
  have hstep : r.step w.now c = .finished (c.forget r.id) (.ok v) := by
    simp [Request.step, hr, Client.answerTo?, hanswers, Request.resultOf]
  obtain ⟨u, hpiece, hsame⟩ : ∃ u, w.start (.asking a n r) = .going u (.concluding a version) ∧
      u.status = w.status ∧ u.generation = w.generation ∧ u.cancelled = w.cancelled := by
    simp only [start, s.isCancelled_eq_false, onClient, s.client, hstep, Progress.within,
      runtimeDetails, hversion, afterVersion, Progress.andThen_finished]
    refine ⟨_, rfl, ?_⟩
    split <;> exact ⟨rfl, rfl, rfl⟩
  obtain ⟨x, hx, s', -⟩ := s.toProceeds.piece (j := j) hpiece hsame
  exact ⟨x, hx, s'⟩

end Seat

/-! ## The end of a start -/

/-- A larger piece waits for nothing if neither of its parts does. -/
theorem andThen_ne_blocked {σ τ α β : Type} {x : Progress World σ α} {wrap : σ → τ}
    {next : World → α → Progress World τ β} (h : x ≠ .blocked)
    (hnext : ∀ v a, next v a ≠ .blocked) : x.andThen wrap next ≠ .blocked := by
  cases x with
  | blocked => exact absurd rfl h
  | going v s => simp
  | finished v a => exact hnext v a

/-- A stop begins at once. -/
theorem beginStop_ne_blocked (w : World) : w.beginStop ≠ .blocked := by
  unfold beginStop
  cases w.status with
  | stopping => cases w.beginWait? <;> simp
  | _ => simp

/-- A start begins at once. -/
theorem beginStart_ne_blocked (w : World) (name : Option String) :
    w.beginStart name ≠ .blocked := by
  unfold beginStart
  cases w.status with
  | starting => cases w.beginWait? <;> simp
  | stopping => cases w.beginWait? <;> simp
  | _ => simp

/-- A part of a call does not have to wait before it begins. -/
theorem beginPhase_ne_blocked (w : World) (p : Phase) : w.beginPhase p ≠ .blocked := by
  cases p with
  | announce name => simp [beginPhase]
  | settle => simp [beginPhase]
  | stop => exact andThen_ne_blocked w.beginStop_ne_blocked (by simp)
  | start name => exact andThen_ne_blocked (w.beginStart_ne_blocked name) (by simp)

/-- Nor do several parts. -/
theorem runPhases_ne_blocked (w : World) (next : List Phase) : w.runPhases next ≠ .blocked := by
  induction next generalizing w with
  | nil => simp [runPhases]
  | cons p rest ih =>
    rw [runPhases_cons]
    refine andThen_ne_blocked (w.beginPhase_ne_blocked p) fun v r => ?_
    cases r with
    | done => exact ih v
    | aborted => simp [afterPhase]

/-- What has been told stays told, whatever else a call does. -/
theorem runPhases_news (w : World) (next : List Phase) {e : Event} (he : e ∈ w.news) :
    (w.runPhases next).Ends fun v => e ∈ v.news :=
  (w.runPhases_writes next).imp fun v hv => by
    obtain ⟨-, more, hmore, -⟩ := hv.ticks.tells
    rw [show v.news = w.news ++ more from hmore]
    exact List.mem_append_left _ he

/-- A start that may go on and has stored everything runs, and tells it. -/
theorem Proceeds.conclude {i : Nat} {next : List Phase} {a : Attempt} {version : RuntimeDetails}
    (s : w.Proceeds i (.concluding a version) next a) :
    ∃ v, w.Hastens j [] v ∧ .started a.generation ∈ v.news ∧
      (next = [] → v.status = .running ∧ v.generation = a.generation) := by
  let stored : World :=
    { w with session := { w.session with version := some ⟨a.generation, version⟩ } }
  let u : World :=
    ({ stored with status := .running }.record (.statusChanged w.generation .running)).record
      (.started a.generation)
  have hpiece : w.start (.concluding a version) = .finished u .done := by
    have hstore : w.storeUnlessCancelled a
        (fun s => { s with version := some ⟨a.generation, version⟩ }) = some stored := by
      rw [storeUnlessCancelled, if_neg (by simp [s.isCancelled_eq_false])]
    have hmove : stored.generation = a.generation ∧ stored.status ∈ [.starting] :=
      ⟨s.generation, List.mem_singleton.2 s.status⟩
    have hset : stored.setStatus .running =
        { stored with status := .running }.record (.statusChanged w.generation .running) :=
      if_neg (by rw [show stored.status = .starting from s.status]; decide)
    simp only [start, World.conclude, hstore, stored.transition_of hmove, hset]
    rfl
  have hcall : w.call (.phased (.starting (.concluding a version)) next) = u.runPhases next := by
    simp only [World.call, phase, hpiece, Progress.andThen_finished]
  have htold : Event.started a.generation ∈ u.news := by
    simp [news, u, record, Event.isNews]
  have hnews := u.runPhases_news next htold
  cases hrest : u.runPhases next with
  | blocked => exact absurd hrest (u.runPhases_ne_blocked next)
  | going v job =>
    rw [hrest] at hcall hnews
    have hmove : w.move? (.run (.call i)) = some (v.setCall i (.active job)) := by
      simp only [move?, step?, call?, s.call, hcall]
    refine ⟨_, .move hmove rfl, hnews, ?_⟩
    rintro rfl
    cases hrest
  | finished v result =>
    rw [hrest] at hcall hnews
    have hmove : w.move? (.run (.call i)) = some (v.setCall i (.over result)) := by
      simp only [move?, step?, call?, s.call, hcall]
    refine ⟨_, .move hmove rfl, hnews, ?_⟩
    rintro rfl
    cases hrest
    exact ⟨rfl, s.generation⟩

/-! ## A start with its connection -/

/-- A start under way has made its connection, and its server has not sent anything yet. -/
structure Connected (w : World) (i : Nat) (a : Attempt) (k : Nat) (next : List Phase) : Prop where
  call : ∃ details deadline,
    w.calls[i]? = some (.active (.phased (.starting (.connecting a details k deadline)) next))
  allowed : .start a.generation ∉ w.cancelled
  opened : ∃ q, w.connections[k]? = some q ∧ q.answer = some (.ok ()) ∧ q.toClient = [] ∧
    q.serverSilent = false

namespace Connected

variable {i k : Nat} {next : List Phase} {a : Attempt}

/-- The start puts a client on its connection. -/
theorem opens (h : w.Connected i a k next) (s : Sound w.outline) :
    ∃ v n params timeout q, w.Hastens j [] v ∧ q.toClient = [] ∧
      v.Seat i (.opening a n (.asking ⟨1, .initializing, params, timeout, .registering⟩)) next a n
        { connection := k, mailboxRoom := w.config.mailboxRoom, nextId := 2 } q := by
  obtain ⟨details, deadline, hi⟩ := h.call
  obtain ⟨q, hq, hanswer, hbytes, hloud⟩ := h.opened
  obtain ⟨hgeneration, hstatus⟩ := (s.tenure.admits (roles_of_active hi) rfl).2 h.allowed
  have hproceeds : w.Proceeds i (.connecting a details k deadline) next a :=
    ⟨hi, hstatus, hgeneration.symm, h.allowed⟩
  let client : Client := { connection := k, mailboxRoom := w.config.mailboxRoom }
  let u : World := (w.newClient k w.config.mailboxRoom).1.setClient w.clients.length
    { client with nextId := 2 }
  have hclient : (w.newClient k w.config.mailboxRoom).1.clients[w.clients.length]? = some client :=
    List.getElem?_concat_length
  have hpiece : w.start (.connecting a details k deadline) =
      .going u (.opening a w.clients.length (.asking ⟨1, .initializing,
        some (w.openingParams a.settings.profileLoading a.settings.cwd),
        w.config.timings.clientStartup, .registering⟩)) := by
    have hopen : w.openClient a k = .going u (.opening a w.clients.length (.asking ⟨1,
        .initializing, some (w.openingParams a.settings.profileLoading a.settings.cwd),
        w.config.timings.clientStartup, .registering⟩)) := by
      unfold openClient
      simp only []
      rw [show (w.newClient k w.config.mailboxRoom).1.clients[
        (w.newClient k w.config.mailboxRoom).2]? = some client from hclient]
      rfl
    simp only [start, hproceeds.isCancelled_eq_false, awaitConnection, hq, Option.bind_some,
      hanswer]
    exact hopen
  obtain ⟨v, hv, s', hclients, hconnections⟩ := hproceeds.piece (j := j) hpiece ⟨rfl, rfl, rfl⟩
  refine ⟨v, w.clients.length, _, _, q, hv, hbytes, s', ?_, ?_, hloud⟩
  · rw [hclients]
    exact getElem?_set_at hclient _
  · rw [hconnections]
    exact hq

/-- With room for its early signals, the server's greeting leads the start to its end. -/
theorem runs (h : w.Connected i a k next) (s : Sound w.outline) (g : Greeting)
    (hroom : (signals (g.notices.map Frame.message)).length ≤ w.config.mailboxRoom) :
    ∃ v, w.Hastens k g.bytes v ∧ .started a.generation ∈ v.news ∧
      (next = [] → v.status = .running ∧ v.generation = a.generation) := by
  obtain ⟨w₁, n, params, timeout, q, h₁, hq, s₁⟩ := h.opens (j := k) s
  obtain ⟨w₂, t, h₂, s₂⟩ := Seat.exchange (Seat.wraps_opening a n) s₁ ⟨rfl, rfl, rfl, rfl, rfl⟩
    (by decide : 0 < Client.outboxRoom) hq g.notifies (by simpa using hroom) g.welcomes
  obtain ⟨w₃, h₃, s₃⟩ := s₂.told (j := k) rfl rfl
  obtain ⟨w₄, h₄, s₄⟩ := s₃.tell (j := k) rfl (by decide : 1 < Client.outboxRoom)
  obtain ⟨w₅, timeout', h₅, s₅⟩ := s₄.keep (j := k)
  have hquiet : ∀ f ∈ ([] : List Frame), f.Notifies := fun _ hf => absurd hf List.not_mem_nil
  obtain ⟨w₆, t', h₆, s₆⟩ := Seat.exchange (Seat.wraps_asking a n) s₅ ⟨rfl, rfl, rfl, rfl, rfl⟩
    (by decide : 2 < Client.outboxRoom) hq hquiet
    (by simpa [signals, Client.forget] using hroom) g.replies
  obtain ⟨w₇, h₇, s₇⟩ := s₆.versioned (j := k) rfl rfl g.tells
  obtain ⟨v, h₈, hstarted, hstatus⟩ := s₇.conclude (j := k)
  refine ⟨v, ?_, hstarted, hstatus⟩
  have hall := h₁.trans (h₂.trans (h₃.trans (h₄.trans (h₅.trans (h₆.trans (h₇.trans h₈))))))
  simpa [Greeting.bytes, Frame.stream] using hall

end Connected

namespace Life

variable {start : World} {ms : List Move}

/-- In every live session, the signals that its server has sent in front of the first response were
in the mailbox all at once, so there is room for them.  And with room for the early signals of its
server, a start that has made its connection comes to its end without any delay; the session runs
then, unless its call goes on to something else. -/
theorem early_signals_fit (h : Life start ms w) :
    (w.status.isLive = true → ∃ c b, w.session.client = some ⟨w.generation, c⟩ ∧
      w.clients[c]? = some b ∧
      (earlySignals (FrameReader.idle.messages (start.sentOn b.connection ms))).length ≤
        w.config.mailboxRoom) ∧
    ∀ {i k : Nat} {a : Attempt} {next : List Phase} (g : Greeting), w.Connected i a k next →
      (earlySignals (FrameReader.idle.messages g.bytes)).length ≤ w.config.mailboxRoom →
      ∃ ns v, start.Life (ms ++ ns) v ∧ (∀ m ∈ ns, m.isPrompt = true) ∧
        start.sentOn k (ms ++ ns) = g.bytes ∧ .started a.generation ∈ v.news ∧
        (next = [] → v.status = .running ∧ v.generation = a.generation) := by
  refine ⟨fun hlive => ?_, fun {i k a next} g hconnected hroom => ?_⟩
  · obtain ⟨c, b, q, read, hclient, hb, -, hhearing, hread⟩ := h.account_of_live hlive
    exact ⟨c, b, hclient, hb, hhearing.early_sent hread⟩
  · have hearly := g.earlySignals_bytes []
    rw [List.append_nil] at hearly
    rw [hearly] at hroom
    obtain ⟨v, ⟨ns, hplay, hprompt, hsent⟩, hstarted, hstatus⟩ :=
      hconnected.runs h.sound g hroom
    refine ⟨ns, v, ⟨h.fresh, fun m hm => ?_, ?_⟩, hprompt, ?_, hstarted, hstatus⟩
    · rcases List.mem_append.1 hm with hm | hm
      · exact h.ofSession m hm
      · have hm' := hprompt m hm
        cases m <;> first | rfl | cases hm'
    · rw [play?_append, h.play]
      exact hplay
    · obtain ⟨details, deadline, hi⟩ := hconnected.call
      obtain ⟨q, hq, -, hbytes, -⟩ := hconnected.opened
      have haccounts := h.accounts h.last
      obtain ⟨⟨q', hq', hbefore⟩, -⟩ := haccounts.dialled (r := .call i) (k := k) (line_of_call hi)
      obtain rfl : q = q' := Option.some.inj (hq.symm.trans hq')
      rw [List.take_length, hbytes] at hbefore
      rw [sentOn, gather_append _ h.play, show start.gather (sends k) ms = [] from hbefore]
      exact hsent

end Life

end World

/-- The attempt of a call that makes a connection for its start, and goes on to nothing else. -/
def Call.connecting? : Call → Option (Attempt × Nat)
  | .active (.phased (.starting (.connecting a _ k _)) []) => some (a, k)
  | _ => none

/-- A call that connects is a start at that place, with nothing to follow. -/
theorem Call.connecting?_eq_some {call : Call} {a : Attempt} {k : Nat}
    (h : call.connecting? = some (a, k)) :
    ∃ details deadline,
      call = .active (.phased (.starting (.connecting a details k deadline)) []) := by
  unfold Call.connecting? at h
  split at h
  · cases h
    exact ⟨_, _, rfl⟩
  · cases h

/-- A start, up to its connection. -/
def Trial.connected : List Move := launching ++ connecting.take 2

/-- A server that says that it is busy before it answers the first request. -/
theorem Trial.exists_greeting : ∃ g : Greeting,
    g.notices.length = 1 ∧ ∃ f ∈ g.notices, signalOf? f.message = some (.busy true) := by
  have hnotice : (Frame.ofBytes? (Rpc.frameBytes
      (Rpc.notificationMessage .executionBusyStatus (some (.bool true))))).any (fun f =>
        f.isNotice && signalOf? f.message == some (.busy true)) = true := by
    decide +kernel
  have hwelcome : (Frame.ofBytes? (Rpc.frameBytes (Value.ofMembers [("id", .nat 1)]))).any
      (fun f => (f.answer? 1).isSome) = true := by
    decide +kernel
  have hreply : (Frame.ofBytes? (Rpc.frameBytes (Value.ofMembers [("id", .nat 2),
      ("result", .array [.string "7.4.1", .string "", .string "", .string ""])]))).any
      (fun f => (f.answer? 2).any fun v => (RuntimeDetails.ofValue? v).isSome) = true := by
    decide +kernel
  obtain ⟨notice, -, hnotice⟩ := (Option.any_eq_true _ _).1 hnotice
  obtain ⟨welcome, -, hwelcome⟩ := (Option.any_eq_true _ _).1 hwelcome
  obtain ⟨reply, -, hreply⟩ := (Option.any_eq_true _ _).1 hreply
  rw [Bool.and_eq_true, beq_iff_eq] at hnotice
  obtain ⟨capabilities, hwelcomes⟩ := Option.isSome_iff_exists.1 hwelcome
  obtain ⟨answer, hreplies, htells⟩ := (Option.any_eq_true _ _).1 hreply
  obtain ⟨version, htells⟩ := Option.isSome_iff_exists.1 htells
  exact ⟨⟨[notice], by simpa using Frame.notifies_of_isNotice hnotice.1, welcome, capabilities,
    Frame.answers_of_answer? hwelcomes, reply, answer, Frame.answers_of_answer? hreplies, version,
    htells⟩, rfl, notice, List.mem_singleton_self _, hnotice.2⟩

namespace World

/-- The server says that it is busy before it answers the first request, and the session comes to
run all the same. -/
theorem early_signals_fit_trial :
    ∃ (w : World) (g : Greeting) (a : Attempt) (ns : List Move) (v : World),
      Trial.start.Life Trial.connected w ∧ w.Connected 0 a 0 [] ∧
      (earlySignals (FrameReader.idle.messages g.bytes)).length = 1 ∧
      Trial.start.Life (Trial.connected ++ ns) v ∧ (∀ m ∈ ns, m.isPrompt = true) ∧
      Trial.start.sentOn 0 (Trial.connected ++ ns) = g.bytes ∧ v.status = .running ∧
      ∃ c b, v.session.client = some ⟨v.generation, c⟩ ∧ v.clients[c]? = some b ∧
        (earlySignals (FrameReader.idle.messages
          (Trial.start.sentOn b.connection (Trial.connected ++ ns)))).length ≤
            v.config.mailboxRoom := by
  have hrun : (Trial.start.play? Trial.connected).any (fun w : World =>
      w.config.mailboxRoom == 32 &&
      w.calls[0]?.any (fun call => call.connecting?.any fun s =>
        s.2 == 0 && !w.isCancelled (.start s.1.generation)) &&
      w.connections[0]?.any fun q => q.toClient.isEmpty && !q.serverSilent &&
        q.answer.any fun answer => answer.toOption.isSome) = true := by
    decide +kernel
  obtain ⟨w, hplay, hw⟩ := (Option.any_eq_true _ _).1 hrun
  simp only [Bool.and_eq_true, beq_iff_eq, Option.any_eq_true, List.isEmpty_iff,
    Bool.not_eq_true'] at hw
  obtain ⟨⟨hroom, call, hi, ⟨a, k⟩, hcall, rfl, hallowed⟩, q, hq, ⟨hbytes, hloud⟩, answer,
    hanswer, hok⟩ := hw
  have hlife := Trial.life hplay (by decide)
  obtain ⟨details, deadline, rfl⟩ := Call.connecting?_eq_some hcall
  obtain rfl : answer = .ok () := by
    cases answer with
    | error _ => cases hok
    | ok _ => rfl
  have hconnected : w.Connected 0 a 0 [] :=
    ⟨⟨details, deadline, hi⟩, by simpa [isCancelled] using hallowed, q, hq, hanswer, hbytes, hloud⟩
  obtain ⟨g, hone, f, hf, hsignal⟩ := Trial.exists_greeting
  have hearly : (earlySignals (FrameReader.idle.messages g.bytes)).length = 1 := by
    have hbytes := g.earlySignals_bytes []
    rw [List.append_nil] at hbytes
    obtain ⟨f', hf'⟩ := List.length_eq_one_iff.1 hone
    obtain rfl : f = f' := by simpa [hf'] using hf
    rw [hbytes, hf']
    simp [signals, hsignal]
  obtain ⟨ns, v, hlife', hprompt, hsent, -, hstatus⟩ :=
    hlife.early_signals_fit.2 g hconnected (by rw [hearly, hroom]; decide)
  have hruns := (hstatus rfl).1
  have hlive : v.status.isLive = true := by rw [hruns]; rfl
  exact ⟨w, g, a, ns, v, hlife, hconnected, hearly, hlife', hprompt, hsent, hruns,
    hlife'.early_signals_fit.1 hlive⟩

end World

end SessionHost
