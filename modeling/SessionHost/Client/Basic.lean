import SessionHost.Client.Connection
import SessionHost.Rpc.Frame
import SessionHost.Rpc.Message

/-!
# Language clients

A client numbers its requests and remembers which of them wait for an answer.  One activity
takes frames from the connection, one puts frames on it; the signals of the server go to a
mailbox of limited size.

Main definitions:

- `Client`: the state of a client.
- `Client.post`: hands a message to the writing activity.
- `Client.signal`: puts a signal into the mailbox.
- `Client.answer`, `Client.forget`, `Client.forgetAll`: what happens to waiting requests.
-/

namespace SessionHost

open Json (Value)
open Rpc (FrameReader ResponseError ServerSignal)

/-- What the session learns from a client. -/
inductive ClientSignal where
  | server (signal : ServerSignal)
  /-- Nothing more comes from the server. -/
  | closed
deriving DecidableEq

/-- What the writing activity is given. -/
inductive Outgoing where
  | message (value : Value)
  /-- The activity is to end. -/
  | farewell

/-- Where the writing activity is. -/
inductive Writing where
  | idle
  | bytes (left : List UInt8)
  | over

/-- Where the reading activity is.  Between two messages its frame reader is idle. -/
inductive Reading where
  | bytes (reader : FrameReader)
  /-- Before the table of waiting requests, with an answer. -/
  | answering (id : Nat) (result : Except ResponseError Value)
  /-- Before the writing activity, with a reply to a request of the server. -/
  | replying (reply : Value)
  /-- Before the mailbox, with a signal. -/
  | signalling (signal : ServerSignal)
  /-- Before the table of waiting requests, at the end of the stream. -/
  | forgetting
  /-- Before the mailbox, at the end of the stream. -/
  | closing
  | over

/-- A client. -/
structure Client where
  connection : Nat
  /-- The id of the next request. -/
  nextId : Nat := 1
  /-- The requests that wait for an answer. -/
  waiting : List Nat := []
  /-- Answers that their requests have not taken yet. -/
  answers : List (Nat × Except ResponseError Value) := []
  outbox : List Outgoing := []
  writing : Writing := .idle
  reading : Reading := .bytes .idle
  mailbox : List ClientSignal := []
  mailboxRoom : Nat
  /-- Somebody can take signals out of the mailbox. -/
  heard : Bool := true
  /-- The end of the writing activity has been awaited. -/
  drained : Bool := false
  /-- How many activities have set out to stop the client. -/
  stops : Nat := 0

/-- The reading activity has come to its end. -/
def Reading.isOver : Reading → Bool
  | .over => true
  | _ => false

/-- The writing activity has come to its end. -/
def Writing.isOver : Writing → Bool
  | .over => true
  | _ => false

namespace Client

/-- How many messages the writing activity keeps. -/
def outboxRoom : Nat := 64

/-- What became of a message or a signal that was handed over. -/
inductive Handover where
  | taken (client : Client)
  | full
  /-- The receiver is gone. -/
  | refused

/-- Hands something to the writing activity. -/
def post (c : Client) (item : Outgoing) : Handover :=
  if c.writing.isOver then .refused
  else if outboxRoom ≤ c.outbox.length then .full
  else .taken { c with outbox := c.outbox ++ [item] }

/-- Puts a signal into the mailbox. -/
def signal (c : Client) (s : ClientSignal) : Handover :=
  if !c.heard then .refused
  else if c.mailboxRoom ≤ c.mailbox.length then .full
  else .taken { c with mailbox := c.mailbox ++ [s] }

/-- The client with its next request among those that wait. -/
def await (c : Client) (id : Nat) : Client := { c with waiting := c.waiting ++ [id] }

/-- Answers a request; an answer to a request that does not wait changes nothing. -/
def answer (c : Client) (id : Nat) (result : Except ResponseError Value) : Client :=
  if id ∈ c.waiting then
    { c with waiting := c.waiting.erase id, answers := c.answers ++ [(id, result)] }
  else
    c

/-- The client without any trace of a request. -/
def forget (c : Client) (id : Nat) : Client :=
  { c with
    waiting := c.waiting.erase id
    answers := c.answers.filter fun a => a.1 != id }

/-- The client after its stream has ended: no request waits any longer. -/
def forgetAll (c : Client) : Client := { c with waiting := [] }

/-- The answer to a request. -/
def answerTo? (c : Client) (id : Nat) : Option (Except ResponseError Value) :=
  (c.answers.find? fun a => a.1 == id).map (·.2)

/-- Ends the reading activity. -/
def endReading (c : Client) : Client := { c with reading := .over }

/-- Ends the writing activity; what it has not sent is lost. -/
def endWriting (c : Client) : Client := { c with writing := .over, outbox := [] }

/-- Ends both activities. -/
def abandon (c : Client) : Client := c.endReading.endWriting

end Client

end SessionHost
