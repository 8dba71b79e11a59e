import SessionHost.Proofs.Frames.Reader
import SessionHost.Proofs.Signals.Hearing
import SessionHost.Proofs.Text.Spelling

/-!
# What the frames of a stream ask for

A client reads a stream up to its first fault.  Among the messages in front of it, a notification
may have a signal for the session, and a request of the server has a reply that refuses it; nothing
else is for anybody but the client itself.

Main definitions:

- `Rpc.frames`: the messages of a stream in front of its first fault.
- `replyTo?`: the reply that a message asks for.

Main results:

- Theorem `FrameReader.run_eq`: the results of a stream are its completed frames, and what its end
  makes of the last one.
- Theorems `signalOf?_eq_busy_iff`, `signalOf?_eq_keyPress_iff`, `replyTo?_eq_some_iff`: which
  messages have a signal, and which ask for a reply.
-/

namespace SessionHost

open Json (Value)
open Rpc (FrameReader FrameResult FrameFault Incoming ServerSignal)

/-! ## Completed frames -/

namespace Rpc.FrameReader

/-- The results of a stream are its completed frames, and what its end makes of the last one. -/
theorem run_eq (r : FrameReader) (bytes : List UInt8) :
    r.run bytes = r.completed bytes ++ (r.after bytes).finish.toList := by
  induction bytes generalizing r with
  | nil => rfl
  | cons b rest ih =>
    unfold run completed after
    split
    · rename_i hstep
      rw [hstep, ih]
      rfl
    · rename_i hstep
      rw [hstep, ih]
      rfl

/-- No message is empty. -/
theorem bodyResult_nil : bodyResult [] = .error .notJson := by
  have hempty : Text.ofUtf8? [] = some "" := by
    rw [Text.ofUtf8?_eq_some_iff, Text.utf8Bytes_eq_flatMap]
    rfl
  rw [bodyResult, Value.ofBytes?, hempty]
  rfl

/-- A line completes no message. -/
theorem error_of_line {length? : Option Nat} {line : List UInt8} {next : FrameReader}
    {result : FrameResult} (h : FrameReader.line length? line = (next, some result)) :
    ∃ f, result = .error f := by
  unfold FrameReader.line at h
  split at h
  · unfold beginBody at h
    split at h
    · cases h
      exact ⟨_, rfl⟩
    · split at h
      · cases h
        exact ⟨_, rfl⟩
      · split at h <;> cases h
        exact ⟨_, bodyResult_nil⟩
  · cases h
  · cases h
  · cases h
    exact ⟨_, rfl⟩

/-- So the end of a stream completes none. -/
theorem error_of_finish {r : FrameReader} {result : FrameResult} (h : r.finish = some result) :
    ∃ f, result = .error f := by
  unfold finish at h
  split at h
  · cases h
    exact ⟨_, rfl⟩
  · split at h <;> cases h
    exact ⟨_, rfl⟩
  · split at h
    · rename_i hline
      cases h
      exact error_of_line hline
    · cases h
      exact ⟨_, rfl⟩
    · cases h
      exact ⟨_, rfl⟩

end Rpc.FrameReader

namespace Rpc

/-- The messages in front of the first fault. -/
def readable : List FrameResult → List Value
  | .ok v :: rest => v :: readable rest
  | _ => []

/-- The messages of a stream in front of its first fault. -/
def frames (bytes : List UInt8) : List Value := readable (readFrames bytes)

theorem readable_append (messages : List Value) (results : List FrameResult) :
    readable (messages.map .ok ++ results) = messages ++ readable results := by
  induction messages with
  | nil => rfl
  | cons v rest ih => exact congrArg (v :: ·) ih

variable {bytes : List UInt8} {messages : List Value} {f : FrameFault}

/-- Frames that are all readable are the messages of a stream so far. -/
theorem frames_of_readable (h : FrameReader.idle.completed bytes = messages.map .ok) :
    frames bytes = messages := by
  have hfinish : readable (FrameReader.idle.after bytes).finish.toList = [] := by
    cases hend : (FrameReader.idle.after bytes).finish with
    | none => rfl
    | some result =>
      obtain ⟨f, rfl⟩ := FrameReader.error_of_finish hend
      rfl
  rw [frames, readFrames, FrameReader.run_eq, h, readable_append, hfinish, List.append_nil]

/-- Behind a fault nothing counts. -/
theorem frames_of_fault {rest : List FrameResult}
    (h : FrameReader.idle.completed bytes = messages.map .ok ++ .error f :: rest) :
    frames bytes = messages := by
  rw [frames, readFrames, FrameReader.run_eq, h, List.append_assoc, readable_append]
  exact List.append_nil messages

/-- So more bytes change nothing. -/
theorem frames_append_of_fault {rest : List FrameResult}
    (h : FrameReader.idle.completed bytes = messages.map .ok ++ .error f :: rest)
    (more : List UInt8) : frames (bytes ++ more) = frames bytes := by
  have hmore : FrameReader.idle.completed (bytes ++ more) = messages.map .ok ++ .error f ::
      (rest ++ (FrameReader.idle.after bytes).completed more) := by
    rw [FrameReader.completed_append, h, List.append_assoc, List.cons_append]
  rw [frames_of_fault hmore, frames_of_fault h]

end Rpc

/-! ## What messages ask for -/

/-- The reply that a message asks for. -/
def replyTo? (message : Value) : Option Value :=
  match Incoming.ofValue? message with
  | some (.request id method) => some (Rpc.methodNotFoundMessage id method)
  | _ => none

/-- The reply with which the reading activity waits. -/
def Reading.reply? : Reading → Option Value
  | .replying reply => some reply
  | _ => none

/-- A message that asks for a reply is routed to the writing activity. -/
theorem Client.reply?_route (m : Value) : (route m).reply? = replyTo? m := by
  unfold route replyTo?
  split
  · rename_i h
    rw [h]
    rfl
  · rename_i h
    rw [h]
    rfl
  · rename_i h
    rw [h]
    rfl
  · rename_i method params h
    rw [h]
    cases Rpc.signal? method params <;> rfl

/-- The text of a member. -/
theorem bind_text?_eq_some_iff {v? : Option Value} {s : String} :
    v?.bind Value.text? = some s ↔ v? = some (.string s) := by
  cases v? with
  | none => simp
  | some v => cases v <;> simp [Value.text?]

/-- The boolean of a member. -/
theorem bind_bool?_eq_some_iff {v? : Option Value} {b : Bool} :
    v?.bind Value.bool? = some b ↔ v? = some (.bool b) := by
  cases v? with
  | none => simp
  | some v => cases v <;> simp [Value.bool?]

/-- A notification has a method and no id. -/
theorem ofValue?_eq_notification_iff {m : Value} {method : String} {params : Option Value} :
    Incoming.ofValue? m = some (.notification method params) ↔
      m.get? "id" = none ∧ m.get? "method" = some (.string method) ∧ m.get? "params" = params := by
  rw [← bind_text?_eq_some_iff]
  unfold Incoming.ofValue?
  cases m.get? "id" <;> cases (m.get? "method").bind Value.text? <;> simp

/-- A request has a method and an id, which may be any value. -/
theorem ofValue?_eq_request_iff {m id : Value} {method : String} :
    Incoming.ofValue? m = some (.request id method) ↔
      m.get? "id" = some id ∧ m.get? "method" = some (.string method) := by
  rw [← bind_text?_eq_some_iff]
  unfold Incoming.ofValue?
  cases m.get? "id" <;> cases (m.get? "method").bind Value.text? <;> simp

/-- The state in the parameters of a notification: a boolean, or an object with a boolean under
`isBusy`. -/
theorem busyStatus?_eq_some_iff {params : Option Value} {b : Bool} :
    Rpc.busyStatus? params = some b ↔ params = some (.bool b) ∨
      ∃ members, params = some (.object members) ∧
        (Value.object members).get? "isBusy" = some (.bool b) := by
  cases params with
  | none => simp [Rpc.busyStatus?]
  | some v => cases v <;> simp [Rpc.busyStatus?, bind_bool?_eq_some_iff]

theorem signalOf?_eq_some_iff {m : Value} {s : ServerSignal} :
    signalOf? m = some s ↔ ∃ method params, m.get? "id" = none ∧
      m.get? "method" = some (.string method) ∧ m.get? "params" = params ∧
      Rpc.signal? method params = some s := by
  have hnotification : signalOf? m = some s ↔ ∃ method params,
      Incoming.ofValue? m = some (.notification method params) ∧
        Rpc.signal? method params = some s := by
    unfold signalOf?
    split
    · rename_i method params h
      simp [h]
    · rename_i hnot
      refine ⟨fun h => (by cases h), ?_⟩
      rintro ⟨method, params, h, -⟩
      exact absurd h (hnot method params)
  rw [hnotification]
  simp only [ofValue?_eq_notification_iff, and_assoc]

/-- Two notifications have signals. -/
theorem signal?_eq_some_iff {method : String} {params : Option Value} {s : ServerSignal} :
    Rpc.signal? method params = some s ↔
      (∃ b, s = .busy b ∧ method = "powerShell/executionBusyStatus" ∧
        Rpc.busyStatus? params = some b) ∨
      (s = .keyPress ∧ method = "powerShell/sendKeyPress") := by
  have hbusy : Rpc.Method.executionBusyStatus.name = "powerShell/executionBusyStatus" := rfl
  have hkey : Rpc.Method.sendKeyPress.name = "powerShell/sendKeyPress" := rfl
  rw [Rpc.signal?, hbusy, hkey]
  split
  · rename_i h
    cases s <;> simp [h]
  · rename_i h
    split
    · rename_i h'
      cases s <;> simp [h']
    · rename_i h'
      simp [h, h']

/-- A message tells a state if it is a busy notification with that state. -/
theorem signalOf?_eq_busy_iff {m : Value} {b : Bool} :
    signalOf? m = some (.busy b) ↔ m.get? "id" = none ∧
      m.get? "method" = some (.string "powerShell/executionBusyStatus") ∧
      (m.get? "params" = some (.bool b) ∨ ∃ members, m.get? "params" = some (.object members) ∧
        (Value.object members).get? "isBusy" = some (.bool b)) := by
  simp only [signalOf?_eq_some_iff, signal?_eq_some_iff, ← busyStatus?_eq_some_iff]
  constructor
  · rintro ⟨method, params, hid, hmethod, rfl, ⟨b', hb, rfl, hstate⟩ | ⟨hb, -⟩⟩
    · cases hb
      exact ⟨hid, hmethod, hstate⟩
    · cases hb
  · rintro ⟨hid, hmethod, hstate⟩
    exact ⟨_, _, hid, hmethod, rfl, .inl ⟨b, rfl, rfl, hstate⟩⟩

/-- A message presses a key if it is a notification of that. -/
theorem signalOf?_eq_keyPress_iff {m : Value} :
    signalOf? m = some .keyPress ↔ m.get? "id" = none ∧
      m.get? "method" = some (.string "powerShell/sendKeyPress") := by
  simp only [signalOf?_eq_some_iff, signal?_eq_some_iff]
  constructor
  · rintro ⟨method, params, hid, hmethod, -, ⟨b, hb, -⟩ | ⟨-, rfl⟩⟩
    · cases hb
    · exact ⟨hid, hmethod⟩
  · rintro ⟨hid, hmethod⟩
    exact ⟨_, _, hid, hmethod, rfl, .inr ⟨trivial, rfl⟩⟩

/-- A message asks for a reply if it has an id, whatever that is, and a method. -/
theorem replyTo?_eq_some_iff {m reply : Value} :
    replyTo? m = some reply ↔ ∃ id method, m.get? "id" = some id ∧
      m.get? "method" = some (.string method) ∧ reply = Rpc.methodNotFoundMessage id method := by
  simp only [← and_assoc, ← ofValue?_eq_request_iff]
  unfold replyTo?
  split
  · rename_i id method h
    simp [h, eq_comm]
  · rename_i hnot
    refine ⟨fun h => (by cases h), ?_⟩
    rintro ⟨id, method, h, -⟩
    exact absurd h (hnot id method)

theorem methodNotFoundMessage_eq (id : Value) (method : String) :
    Rpc.methodNotFoundMessage id method =
      .object [("error", .object [("code", .int (-32601)),
        ("message", .string ("Method not found: " ++ method))]), ("id", id),
        ("jsonrpc", .string "2.0")] := by
  have hmessage (c t : Value) : Json.insertMember "message" t [("code", c)] =
      [("code", c), ("message", t)] := by
    rw [Json.insertMember, if_neg (by decide : ¬"message" < "code"),
      if_neg (by decide : "message" ≠ "code"), Json.insertMember]
  have hid (v : Value) : Json.insertMember "id" id [("jsonrpc", v)] =
      [("id", id), ("jsonrpc", v)] := by
    rw [Json.insertMember, if_pos (by decide : "id" < "jsonrpc")]
  have herror (e v : Value) : Json.insertMember "error" e [("id", id), ("jsonrpc", v)] =
      [("error", e), ("id", id), ("jsonrpc", v)] := by
    rw [Json.insertMember, if_pos (by decide : "error" < "id")]
  rw [Rpc.methodNotFoundMessage, Rpc.versionMember, Value.ofMembers, Value.ofMembers,
    List.foldl_cons, List.foldl_cons, List.foldl_cons, List.foldl_nil, List.foldl_cons,
    List.foldl_cons, List.foldl_nil, Json.insertMember, Json.insertMember, hmessage, hid, herror]
  rfl

/-- A reply carries the id, the code of a method that is not there, and the method's name. -/
theorem get?_methodNotFoundMessage (id : Value) (method : String) :
    (Rpc.methodNotFoundMessage id method).get? "id" = some id ∧
      ∃ error, (Rpc.methodNotFoundMessage id method).get? "error" = some error ∧
        error.get? "code" = some (.int (-32601)) ∧
        error.get? "message" = some (.string ("Method not found: " ++ method)) := by
  rw [methodNotFoundMessage_eq]
  exact ⟨rfl, _, rfl, rfl, rfl⟩

end SessionHost
