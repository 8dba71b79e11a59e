import SessionHost.Session.Move

/-!
# A scripted server

A server that answers every message by the rule for its method.

Main definitions:

- `ServerAction`, `Rules`: what a server does with a message.
- `ScriptedServer`, `ScriptedServer.step?`: the server at the end of a connection.
-/

namespace SessionHost.Simulation

open Json (Value)

/-- One thing that a server does with a message. -/
inductive ServerAction where
  /-- Ends the way to the client. -/
  | silence
  /-- Drops the connection. -/
  | sever
  | result (value : Value)
  | error (value : Value)
  /-- Sends a message, in which the placeholder for an id stands for the message's id. -/
  | reply (message : Value)
  | bytes (bytes : List UInt8)
  | pause (time : Duration)

/-- The rules by method, the first one of a method being the one that counts. -/
abbrev Rules := List (String × List ServerAction)

/-- What a server tells about its runtime. -/
def standardVersion : Value :=
  .ofMembers [("version", .string "7.4.1"), ("edition", .string "Core"),
    ("commit", .string "7.4.1"), ("architecture", .string "X64")]

/-- The rules of a server that behaves. -/
def standardRules : Rules :=
  [(Rpc.Method.initializing.name, [.result (.ofMembers [("capabilities", .object [])])]),
    (Rpc.Method.getVersion.name, [.result standardVersion]),
    (Rpc.Method.shutdown.name, [.result .null]),
    (Rpc.Method.exit.name, [.sever])]

/-- The actions for a message. -/
def actionsFor (rules : Rules) (message : Value) : List ServerAction :=
  match (message.get? "method").bind Value.text? with
  | none => []
  | some method => ((rules.find? fun r => r.1 == method).map (·.2)).getD []

/-- A message with a given id in the place of the placeholder. -/
def fillId (id : Value) (message : Value) : Value :=
  match message with
  | .object members =>
    .object (members.map fun m =>
      match m with
      | ("id", .string "$id") => ("id", id)
      | other => other)
  | other => other

/-- The server at the end of a connection. -/
structure ScriptedServer where
  reader : Rpc.FrameReader := .idle
  /-- What is left to do with the last message. -/
  plan : List ServerAction := []
  /-- The id of the last message. -/
  id : Value := .null
  wake : Option Nat := none

namespace ScriptedServer

/-- A reply to the last message. -/
def replyWith (s : ScriptedServer) (member : String) (value : Value) : Value :=
  .ofMembers [("jsonrpc", .string "2.0"), ("id", s.id), (member, value)]

/-- Does one thing. -/
def act (s : ScriptedServer) (i : Nat) (w : World) (a : ServerAction) : ScriptedServer × World :=
  let send (message : Value) : ScriptedServer × World :=
    (s, w.after (.send i (Rpc.frameBytes message)))
  match a with
  | .silence => (s, w.after (.silence i))
  | .sever => (s, w.after (.sever i))
  | .result v => send (s.replyWith "result" v)
  | .error v => send (s.replyWith "error" v)
  | .reply message => send (fillId s.id message)
  | .bytes bytes => (s, w.after (.send i bytes))
  | .pause time => ({ s with wake := some (w.now + time.nanos) }, w)

/-- Takes the bytes that have arrived, up to the end of a message. -/
def receive (s : ScriptedServer) (i : Nat) (w : World) (bytes : List UInt8) (rules : Rules) :
    ScriptedServer × World × Option Value :=
  match takeFrame s.reader bytes with
  | (reader, rest, result) =>
    let w := w.after (.take i (bytes.length - rest.length))
    match result with
    | some (.ok message) =>
      let id := (message.get? "id").getD .null
      ({ s with reader := .idle, plan := actionsFor rules message, id }, w, some message)
    | some (.error _) => ({ s with reader := .idle }, w, none)
    | none => ({ s with reader }, w, none)

/-- The next thing that a server does, and the message that it takes. -/
def step? (s : ScriptedServer) (i : Nat) (w : World) (rules : Rules) (stalled : Bool) :
    Option (ScriptedServer × World × Option Value) :=
  match s.wake with
  | some t => if t ≤ w.now then some ({ s with wake := none }, w, none) else none
  | none =>
    match s.plan, w.connections[i]? with
    | _, none => none
    | a :: rest, some _ =>
      let (s, w) := { s with plan := rest }.act i w a
      some (s, w, none)
    | [], some k =>
      if stalled || k.toServer.isEmpty then none else some (s.receive i w k.toServer rules)

end ScriptedServer

end SessionHost.Simulation
