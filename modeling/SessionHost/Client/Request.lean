import SessionHost.Client.Basic
import SessionHost.Progress
import SessionHost.Duration
import SessionHost.Version

/-!
# Requests

A request is registered before it is sent, so its answer cannot come too early, and it leaves
no trace once it has a result.

Main definitions:

- `RequestFailure`: why a request has no value.
- `Request`, `Request.step`: a request under way.
- `Opening.step`: the exchange that opens a client.
- `Closing.step`: the exchange that ends one.
-/

namespace SessionHost

open Json (Value)
open Rpc (Method ResponseError)

/-- Why a request has no value. -/
inductive RequestFailure where
  | timedOut (method : Method)
  | closed
  | refused (error : ResponseError)
  /-- The value does not have the shape that was asked for. -/
  | undecodable
deriving DecidableEq

/-- The message of a failed request. -/
def RequestFailure.message : RequestFailure → String
  | .timedOut method => "request '" ++ method.name ++ "' timed out"
  | .closed => "connection to the language server is closed"
  | .refused e =>
    "server returned error " ++ Text.signedDecimal e.code ++ ": " ++ e.message
  | .undecodable => "unexpected response shape: " ++ jsonDetail

/-- Where a request waits. -/
inductive RequestPlace where
  /-- Before the table of waiting requests. -/
  | registering
  /-- Before the writing activity. -/
  | posting
  /-- For its answer. -/
  | awaiting (deadline : Nat)
  /-- Before the table of waiting requests, to leave it. -/
  | withdrawing (why : RequestFailure)

/-- A request under way. -/
structure Request where
  id : Nat
  method : Method
  params : Option Value
  timeout : Duration
  place : RequestPlace

/-- The value of a request, or why there is none. -/
abbrev RequestResult := Except RequestFailure Value

/-- A piece of an activity of a client. -/
abbrev ClientProgress (σ α : Type) := Progress Client σ α

/-- Begins a request. -/
def Client.request (c : Client) (method : Method) (params : Option Value) (timeout : Duration) :
    Client × Request :=
  ({ c with nextId := c.nextId + 1 }, ⟨c.nextId, method, params, timeout, .registering⟩)

namespace Request

/-- What an answer is as a result. -/
def resultOf : Except ResponseError Value → RequestResult
  | .ok v => .ok v
  | .error e => .error (.refused e)

/-- One piece of a request. -/
def step (r : Request) (now : Nat) (c : Client) : ClientProgress Request RequestResult :=
  match r.place with
  | .registering => .going (c.await r.id) { r with place := .posting }
  | .posting =>
    match c.post (.message (Rpc.requestMessage r.id r.method r.params)) with
    | .taken c => .going c { r with place := .awaiting (now + r.timeout.nanos) }
    | .full => .blocked
    | .refused => .going c { r with place := .withdrawing .closed }
  | .awaiting deadline =>
    match c.answerTo? r.id with
    | some answer => .finished (c.forget r.id) (resultOf answer)
    | none =>
      if r.id ∉ c.waiting then .finished c (.error .closed)
      else if deadline ≤ now then .going c { r with place := .withdrawing (.timedOut r.method) }
      else .blocked
  | .withdrawing why => .finished (c.forget r.id) (.error why)

/-- The time at which a request goes on by itself. -/
def alarm? (r : Request) : Option Nat :=
  match r.place with
  | .awaiting deadline => some deadline
  | _ => none

end Request

/-! ## The version of the runtime -/

/-- The details in the value of a version request. -/
def runtimeDetails (result : RequestResult) : Except RequestFailure RuntimeDetails :=
  match result with
  | .error why => .error why
  | .ok v =>
    match RuntimeDetails.ofValue? v with
    | some details => .ok details
    | none => .error .undecodable

/-! ## Opening -/

/-- Why a client could not be opened. -/
inductive OpeningFailure where
  | request (why : RequestFailure)
  /-- The server could not be told that it may begin. -/
  | unsent
deriving DecidableEq

/-- The message of a failed opening. -/
def OpeningFailure.message : OpeningFailure → String
  | .request why => "initialize request failed: " ++ why.message
  | .unsent => "writer channel closed"

/-- Where the opening of a client waits. -/
inductive Opening where
  | asking (request : Request)
  /-- Before the writing activity, with the last message. -/
  | telling

/-- Begins to open a client. -/
def Client.beginOpening (c : Client) (params : Value) (timeout : Duration) : Client × Opening :=
  let (c, request) := c.request .initializing (some params) timeout
  (c, .asking request)

namespace Opening

/-- One piece of an opening. -/
def step (o : Opening) (now : Nat) (c : Client) :
    ClientProgress Opening (Except OpeningFailure Unit) :=
  match o with
  | .asking request =>
    (request.step now c).andThen .asking fun c result =>
      match result with
      | .ok _ => .going c .telling
      | .error why => .finished c (.error (.request why))
  | .telling =>
    match c.post (.message (Rpc.notificationMessage .initialized (some (.object [])))) with
    | .taken c => .finished c (.ok ())
    | .full => .blocked
    | .refused => .finished c (.error .unsent)

/-- The time at which an opening goes on by itself. -/
def alarm? : Opening → Option Nat
  | .asking request => request.alarm?
  | .telling => none

end Opening

/-! ## Closing -/

/-- How long messages may take to leave before the writing activity is ended. -/
def drainTime : Duration := .ofMillis 250

/-- Where the closing of a client waits. -/
inductive Closing where
  | asking (request : Request) (deadline : Nat)
  /-- Before the writing activity, with the last message. -/
  | telling (deadline : Nat)
  /-- For the end of the writing activity. -/
  | draining (deadline : Nat)

/-- Begins to close a client; all messages together have the given time. -/
def Client.beginClosing (c : Client) (now : Nat) (timeout : Duration) : Client × Closing :=
  let (c, request) := { c with stops := c.stops + 1 }.request .shutdown none timeout
  (c, .asking request (now + timeout.nanos))

/-- Has the writing activity end after the messages it was given. -/
def Client.dismissWriter (c : Client) : Client :=
  match c.post .farewell with
  | .taken c => c
  | .full => c
  | .refused => c

namespace Closing

/-- What follows the messages: the writing activity may send what it has, once. -/
def drain (now : Nat) (c : Client) : ClientProgress Closing Unit :=
  let c := c.dismissWriter
  if c.drained then .finished c.endReading ()
  else .going { c with drained := true } (.draining (now + drainTime.nanos))

/-- One piece of a closing. -/
def step (s : Closing) (now : Nat) (c : Client) : ClientProgress Closing Unit :=
  match s with
  | .asking request deadline =>
    ((request.step now c).andThen (.asking · deadline) fun c result =>
      match result with
      | .ok _ => .going c (.telling deadline)
      | .error _ => drain now c).orWhenLate (deadline ≤ now) (drain now c)
  | .telling deadline =>
    match c.post (.message (Rpc.notificationMessage .exit none)) with
    | .taken c => drain now c
    | .refused => drain now c
    | .full => if deadline ≤ now then drain now c else .blocked
  | .draining deadline =>
    if c.writing.isOver then .finished c.endReading ()
    else if deadline ≤ now then .finished c.abandon ()
    else .blocked

/-- The time at which a closing goes on by itself. -/
def alarm? : Closing → Option Nat
  | .asking request deadline =>
    match request.alarm? with
    | some t => some (min t deadline)
    | none => some deadline
  | .telling deadline => some deadline
  | .draining deadline => some deadline

end Closing

end SessionHost
