import SessionHost.Client.Basic

/-!
# Reading and writing

The two activities of a client.  The reading one takes a frame off the connection and routes
it: an answer to its request, a request of the server to its refusal, a signal to the mailbox.
It ends with the stream or with a frame that cannot be read.  The writing one puts messages on
the connection in the order in which they were handed over.

Main definitions:

- `Client.read?`, `Client.write?`: one piece of each activity, if it can run.
-/

namespace SessionHost

open Json (Value)
open Rpc (FrameReader FrameResult Incoming)

/-- Feeds bytes to a frame reader up to the first complete frame. -/
def takeFrame (r : FrameReader) : List UInt8 → FrameReader × List UInt8 × Option FrameResult
  | [] => (r, [], none)
  | b :: rest =>
    match r.step b with
    | (next, some result) => (next, rest, some result)
    | (next, none) => takeFrame next rest

namespace Client

/-- Where the reading activity goes with a message. -/
def route (message : Value) : Reading :=
  match Incoming.ofValue? message with
  | none => .bytes .idle
  | some (.response id result) => .answering id result
  | some (.request id method) => .replying (Rpc.methodNotFoundMessage id method)
  | some (.notification method params) =>
    match Rpc.signal? method params with
    | some s => .signalling s
    | none => .bytes .idle

/-- The reading activity after the bytes that have arrived. -/
def readBytes? (c : Client) (k : Connection) (r : FrameReader) : Option (Client × Connection) :=
  if k.toClient.isEmpty then
    if k.serverSilent then some ({ c with reading := .forgetting }, k) else none
  else
    match takeFrame r k.toClient with
    | (next, rest, none) => some ({ c with reading := .bytes next }, { k with toClient := rest })
    | (_, rest, some (.ok message)) =>
      some ({ c with reading := route message }, { k with toClient := rest })
    | (_, rest, some (.error _)) =>
      some ({ c with reading := .forgetting }, { k with toClient := rest })

/-- One piece of the reading activity. -/
def read? (c : Client) (k : Connection) : Option (Client × Connection) :=
  match c.reading with
  | .bytes r => c.readBytes? k r
  | .answering id result => some ({ c.answer id result with reading := .bytes .idle }, k)
  | .replying reply =>
    match c.post (.message reply) with
    | .taken c => some ({ c with reading := .bytes .idle }, k)
    | .refused => some ({ c with reading := .bytes .idle }, k)
    | .full => none
  | .signalling s =>
    match c.signal (.server s) with
    | .taken c => some ({ c with reading := .bytes .idle }, k)
    | .refused => some ({ c with reading := .bytes .idle }, k)
    | .full => none
  | .forgetting => some ({ c.forgetAll with reading := .closing }, k)
  | .closing =>
    match c.signal .closed with
    | .taken c => some (c.endReading, k)
    | .refused => some (c.endReading, k)
    | .full => none
  | .over => none

/-- One piece of the writing activity.  A dropped connection ends it. -/
def write? (c : Client) (k : Connection) : Option (Client × Connection) :=
  match c.writing with
  | .idle =>
    match c.outbox with
    | [] => none
    | .farewell :: _ => some (c.endWriting, k)
    | .message v :: rest =>
      some ({ c with outbox := rest, writing := .bytes (Rpc.frameBytes v) }, k)
  | .bytes left =>
    if left.isEmpty then some ({ c with writing := .idle }, k)
    else if k.serverGone then some (c.endWriting, k)
    else if k.room = 0 then none
    else
      let (k, rest) := k.accept left
      some ({ c with writing := .bytes rest }, k)
  | .over => none

end Client

end SessionHost
