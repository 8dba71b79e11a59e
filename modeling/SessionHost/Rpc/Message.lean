import SessionHost.Json.Record
import SessionHost.Path

/-!
# Messages

The JSON-RPC messages that a client and its language server exchange.

Main definitions:

- `requestMessage`, `notificationMessage`, `methodNotFoundMessage`: outgoing messages.
- `Incoming`, `Incoming.ofValue?`: what a received message is.
- `busyStatus?`: the state that a busy notification carries.
- `initializeParams`: the parameters of the first request.
-/

namespace SessionHost.Rpc

open Json (Value)

/-- Methods that this client sends or understands. -/
inductive Method where
  | initializing
  | initialized
  | shutdown
  | exit
  | getVersion
  | executionBusyStatus
  | sendKeyPress
deriving DecidableEq

/-- The name of a method. -/
def Method.name : Method → String
  | .initializing => "initialize"
  | .initialized => "initialized"
  | .shutdown => "shutdown"
  | .exit => "exit"
  | .getVersion => "powerShell/getVersion"
  | .executionBusyStatus => "powerShell/executionBusyStatus"
  | .sendKeyPress => "powerShell/sendKeyPress"

/-- The members of every message of this protocol version. -/
def versionMember : String × Value := ("jsonrpc", .string "2.0")

/-- The member for parameters, when there are any. -/
def paramsMember : Option Value → List (String × Value)
  | some params => [("params", params)]
  | none => []

/-- A request. -/
def requestMessage (id : Nat) (method : Method) (params : Option Value) : Value :=
  Value.ofMembers
    ([versionMember, ("id", .nat id), ("method", .string method.name)] ++ paramsMember params)

/-- A notification. -/
def notificationMessage (method : Method) (params : Option Value) : Value :=
  Value.ofMembers ([versionMember, ("method", .string method.name)] ++ paramsMember params)

/-- The error code for a method that is not there. -/
def methodNotFoundCode : Int := -32601

/-- The reply to a request of the server. -/
def methodNotFoundMessage (id : Value) (method : String) : Value :=
  Value.ofMembers
    [versionMember, ("id", id),
      ("error", Value.ofMembers
        [("code", .int methodNotFoundCode), ("message", .string ("Method not found: " ++ method))])]

/-- The error of a response. -/
structure ResponseError where
  code : Int
  message : String
deriving DecidableEq

/-- A code of 64 bits. -/
def errorCode? (v : Value) : Option Int :=
  v.int?.filter fun i => -9223372036854775808 ≤ i ∧ i ≤ 9223372036854775807

/-- The error that a member holds, if it has the shape of one. -/
def ResponseError.ofValue? (v : Value) : Option ResponseError := do
  let record ← v.record? ["code", "message"]
  match record.fields with
  | [some code, some message] =>
    let c ← errorCode? code
    let m ← message.text?
    return ⟨c, m⟩
  | [some code, none] =>
    let c ← errorCode? code
    return ⟨c, ""⟩
  | _ => none

/-- The error that stands for one without the shape of an error. -/
def ResponseError.malformed : ResponseError := ⟨0, "malformed error object"⟩

/-- A received message. -/
inductive Incoming where
  | response (id : Nat) (result : Except ResponseError Value)
  | request (id : Value) (method : String)
  | notification (method : String) (params : Option Value)

/-- A number that can be the id of one of this client's requests. -/
def requestId? (id : Value) : Option Nat :=
  match id.int? with
  | some i => if 0 ≤ i then some i.toNat else none
  | none => none

/-- The outcome that a response carries; a present error member, even null, is an error. -/
def responseResult (v : Value) : Except ResponseError Value :=
  match v.get? "error" with
  | some error => .error ((ResponseError.ofValue? error).getD .malformed)
  | none => .ok ((v.get? "result").getD .null)

/-- What a received message is; `none` for one that is none of the three. -/
def Incoming.ofValue? (v : Value) : Option Incoming :=
  match v.get? "id", (v.get? "method").bind Value.text? with
  | some id, some method => some (.request id method)
  | none, some method => some (.notification method (v.get? "params"))
  | some id, none => (requestId? id).map fun n => .response n (responseResult v)
  | none, none => none

/-- The state that the parameters of a busy notification carry: a boolean, or an object with
one under `isBusy`. -/
def busyStatus? (params : Option Value) : Option Bool :=
  match params with
  | some (.bool b) => some b
  | some (.object members) => ((Value.object members).get? "isBusy").bind Value.bool?
  | _ => none

/-- A signal from the server that the session acts on. -/
inductive ServerSignal where
  | busy (value : Bool)
  | keyPress
deriving DecidableEq

/-- The signal of a notification, if it has one. -/
def signal? (method : String) (params : Option Value) : Option ServerSignal :=
  if method = Method.executionBusyStatus.name then (busyStatus? params).map .busy
  else if method = Method.sendKeyPress.name then some .keyPress
  else none

/-- The name and version by which this client presents itself. -/
def clientInfo : Value :=
  Value.ofMembers [("name", .string "pwsh-session"), ("version", .string "0.0.0")]

/-- The parameters of `initialize`.  The id of this process is whatever value the caller has
for it. -/
def initializeParams (processId : Value) (profileLoading : Bool) (cwd : Option Path) : Value :=
  Value.ofMembers
    [("processId", processId),
      ("clientInfo", clientInfo),
      ("rootUri", .null),
      ("capabilities", .object []),
      ("initializationOptions", Value.ofMembers
        [("enableProfileLoading", .bool profileLoading),
          ("initialWorkingDirectory", Value.optional (fun p => .string p.text) cwd)])]

end SessionHost.Rpc
