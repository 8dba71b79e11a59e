import SessionHost.Text.Blank
import SessionHost.Json.Record

/-!
# Handshakes

A server writes one JSON document, its session file, when it has started or given up.  Only a
handshake that reports a start carries endpoints, so nothing can be connected to after a
failed one.

Main definitions:

- `Endpoint`, `Endpoint.choose?`: where a service listens.
- `Handshake`: a started session or a refusal.
- `Handshake.ofText`: the handshake in a session file, or what is wrong with it.
-/

namespace SessionHost

/-- Where a service listens. -/
inductive Endpoint where
  /-- A named pipe, or a socket in the file system. -/
  | pipe (name : String)
  /-- A port of the loopback interface. -/
  | tcp (port : Nat)
deriving DecidableEq

/-- The endpoint of a service: its pipe unless blank, else its port unless zero. -/
def Endpoint.choose? (pipe : Option String) (port : Option Nat) : Option Endpoint :=
  match pipe.filter fun name => !Text.isAllBlank name with
  | some name => some (.pipe name)
  | none => (port.filter fun n => n ≠ 0).map .tcp

/-- The text of an endpoint. -/
def Endpoint.text : Endpoint → String
  | .pipe name => "pipe " ++ name
  | .tcp port => "tcp 127.0.0.1:" ++ Text.decimal port

/-- A session that has started. -/
structure StartedSession where
  runtimeVersion : String
  channel : Option String
  languageService : Endpoint
  debugService : Option Endpoint
deriving DecidableEq

/-- Why a server did not start. -/
inductive RefusalReason where
  | runtimeVersion
  | dotNetVersion
  | languageMode
  | other (text : String)
deriving DecidableEq

/-- The reason with a given name; a name that is not known is kept. -/
def RefusalReason.ofName (name : Option String) : RefusalReason :=
  match name with
  | none => .other ""
  | some s =>
    if s = "powerShellVersion" then .runtimeVersion
    else if s = "dotNetVersion" then .dotNetVersion
    else if s = "languageMode" then .languageMode
    else .other s

/-- A server's report that it did not start. -/
structure Refusal where
  reason : RefusalReason
  detail : Option String
  runtimeVersion : Option String
deriving DecidableEq

/-- The message for the user. -/
def Refusal.message (r : Refusal) : String :=
  match r.reason with
  | .runtimeVersion =>
    "PowerShell Editor Services does not support PowerShell version " ++
      r.runtimeVersion.getD "unknown" ++ ", please use PowerShell 7.4 or newer!"
  | .dotNetVersion => ".NET Framework is out-of-date, please install at least 4.8."
  | .languageMode =>
    "PowerShell language features are disabled due to an unsupported LanguageMode: " ++
      r.detail.getD "unknown"
  | .other text => "PowerShell could not be started for an unknown reason: " ++ text

/-- The contents of a session file. -/
inductive Handshake where
  | started (session : StartedSession)
  | refused (refusal : Refusal)
deriving DecidableEq

/-- What is wrong with a session file. -/
inductive HandshakeFault where
  | malformed
  | unknownStatus (text : String)
  | missingEndpoint
deriving DecidableEq

/-- What stands for the details that a reader of JSON would give. -/
def jsonDetail : String := "<json>"

/-- The message of a fault. -/
def HandshakeFault.message : HandshakeFault → String
  | .malformed => "session file is not valid JSON: " ++ jsonDetail
  | .unknownStatus text => "session file has unknown status '" ++ text ++ "'"
  | .missingEndpoint => "session file reports started but names no language service endpoint"

/-- The handshake reports a start. -/
def Handshake.isStarted : Handshake → Bool
  | .started _ => true
  | .refused _ => false

/-! ## Reading -/

/-- The members of a session file. -/
structure RawHandshake where
  status : Option String
  reason : Option String
  detail : Option String
  runtimeVersion : Option String
  channel : Option String
  languagePort : Option Nat
  debugPort : Option Nat
  languagePipe : Option String
  debugPipe : Option String

/-- The names of the members, in their order. -/
def RawHandshake.fieldNames : List String :=
  ["status", "reason", "detail", "powerShellVersion", "channel", "languageServicePort",
    "debugServicePort", "languageServicePipeName", "debugServicePipeName"]

/-- A text member that may be absent or null. -/
def textField? : Option Json.Node → Option (Option String)
  | none => some none
  | some n => n.nullableText?

/-- A port member that may be absent or null. -/
def portField? : Option Json.Node → Option (Option Nat)
  | none => some none
  | some n => n.nullableNat? Text.maxUInt16

/-- The members from a record.  In the positional form the status has to be there. -/
def RawHandshake.ofRecord? (r : Json.Record Json.Node) : Option RawHandshake :=
  match r.fields with
  | [status, reason, detail, version, channel, languagePort, debugPort, languagePipe, debugPipe] =>
    if r.positional && status.isNone then none
    else do
      let status ← textField? status
      let reason ← textField? reason
      let detail ← textField? detail
      let version ← textField? version
      let channel ← textField? channel
      let languagePort ← portField? languagePort
      let debugPort ← portField? debugPort
      let languagePipe ← textField? languagePipe
      let debugPipe ← textField? debugPipe
      return ⟨status, reason, detail, version, channel, languagePort, debugPort, languagePipe,
        debugPipe⟩
  | _ => none

/-- The handshake that the members make. -/
def RawHandshake.decide (raw : RawHandshake) : Except HandshakeFault Handshake :=
  if raw.status = some "started" then
    match Endpoint.choose? raw.languagePipe raw.languagePort with
    | none => .error .missingEndpoint
    | some language =>
      .ok (.started
        { runtimeVersion := raw.runtimeVersion.getD ""
          channel := raw.channel
          languageService := language
          debugService := Endpoint.choose? raw.debugPipe raw.debugPort })
  else if raw.status = some "failed" then
    .ok (.refused ⟨RefusalReason.ofName raw.reason, raw.detail, raw.runtimeVersion⟩)
  else
    .error (.unknownStatus (raw.status.getD ""))

/-- The handshake in the text of a session file. -/
def Handshake.ofText (text : String) : Except HandshakeFault Handshake :=
  let raw? := ((Json.Node.ofText? text).bind (Json.Node.record? RawHandshake.fieldNames)).bind
    RawHandshake.ofRecord?
  match raw? with
  | none => .error .malformed
  | some raw => raw.decide

end SessionHost
