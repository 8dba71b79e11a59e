import Mathlib.Data.List.TakeWhile
import SessionHost.Client.Routing

/-!
# The messages of a stream

The bytes that a server sends are a sequence of messages, whoever reads them and however they are
divided.  A client that takes one frame after the other off its connection sees these messages in
this order; what it has taken and what is still ahead make up the whole sequence.

Main definitions:

- `FrameReader.after`: a reader after some bytes.
- `FrameReader.completed`, `FrameReader.messages`: the frames that bytes complete, and the messages
  of those that can be read.
- `signalOf?`, `isResponse`: what a message is to the session.
- `signals`, `busyStates`: the signals in a sequence of messages, and the states in signals.
- `earlySignals`: the signals in front of the first response.

Main results:

- Theorem `FrameReader.messages_append`: messages do not depend on how bytes are divided.
- Theorems `takeFrame_none`, `takeFrame_some`: one frame after the other gives these messages.
-/

namespace SessionHost

open Json (Value)
open Rpc (FrameReader FrameResult Incoming ServerSignal)

/-! ## Messages -/

namespace Rpc.FrameReader

/-- The reader after some bytes. -/
def after (r : FrameReader) : List UInt8 → FrameReader
  | [] => r
  | b :: rest => (r.step b).1.after rest

/-- The frames that some bytes complete. -/
def completed (r : FrameReader) : List UInt8 → List FrameResult
  | [] => []
  | b :: rest => (r.step b).2.toList ++ (r.step b).1.completed rest

theorem completed_append (r : FrameReader) (bytes more : List UInt8) :
    r.completed (bytes ++ more) = r.completed bytes ++ (r.after bytes).completed more := by
  induction bytes generalizing r with
  | nil => rfl
  | cons b rest ih => simp only [List.cons_append, completed, after, ih, List.append_assoc]

theorem after_append (r : FrameReader) (bytes more : List UInt8) :
    r.after (bytes ++ more) = (r.after bytes).after more := by
  induction bytes generalizing r with
  | nil => rfl
  | cons b rest ih => exact ih _

/-- The messages that some bytes complete; frames that cannot be read have none. -/
def messages (r : FrameReader) : List UInt8 → List Value
  | [] => []
  | b :: rest => ((r.step b).2.bind Except.toOption).toList ++ (r.step b).1.messages rest

/-- The messages are those of the completed frames that can be read. -/
theorem messages_eq (r : FrameReader) (bytes : List UInt8) :
    r.messages bytes = (r.completed bytes).filterMap Except.toOption := by
  induction bytes generalizing r with
  | nil => rfl
  | cons b rest ih =>
    rw [messages, completed, List.filterMap_append, ih]
    cases (r.step b).2 with
    | none => rfl
    | some result => cases result <;> rfl

/-- Messages do not depend on how bytes are divided. -/
theorem messages_append (r : FrameReader) (bytes more : List UInt8) :
    r.messages (bytes ++ more) = r.messages bytes ++ (r.after bytes).messages more := by
  simp only [messages_eq, completed_append, List.filterMap_append]

/-- The byte that completes a frame leaves the reader between two frames. -/
theorem step_idle {r next : FrameReader} {b : UInt8} {result : FrameResult}
    (h : r.step b = (next, some result)) : next = .idle := by
  unfold step at h
  split at h
  · split at h
    · unfold line at h
      split at h
      · unfold beginBody at h
        split at h
        · exact (Prod.mk.inj h).1.symm
        · split at h
          · exact (Prod.mk.inj h).1.symm
          · split at h
            · exact (Prod.mk.inj h).1.symm
            · cases h
      · cases h
      · cases h
      · exact (Prod.mk.inj h).1.symm
    · cases h
  · split at h
    · exact (Prod.mk.inj h).1.symm
    · cases h

variable {r next : FrameReader} {bytes rest : List UInt8} {result : FrameResult}

/-- Bytes without a whole frame complete none. -/
theorem completed_of_none (h : takeFrame r bytes = (next, rest, none)) :
    rest = [] ∧ r.completed bytes = [] ∧ r.after bytes = next := by
  induction bytes generalizing r with
  | nil =>
    cases h
    exact ⟨rfl, rfl, rfl⟩
  | cons b tail ih =>
    unfold takeFrame at h
    split at h
    · cases h
    · rename_i hstep
      rw [completed, after, hstep]
      exact ih h

/-- The bytes of a frame that is taken off complete this frame. -/
theorem completed_of_some (h : takeFrame r bytes = (next, rest, some result)) :
    ∃ front, bytes = front ++ rest ∧ r.completed front = [result] ∧ r.after front = .idle := by
  induction bytes generalizing r with
  | nil => cases h
  | cons b tail ih =>
    unfold takeFrame at h
    split at h
    · rename_i hstep
      cases h
      refine ⟨[b], rfl, ?_, ?_⟩
      · rw [completed, hstep]
        rfl
      · rw [after, hstep]
        exact step_idle hstep
    · rename_i hstep
      obtain ⟨front, rfl, hfront, hafter⟩ := ih h
      refine ⟨b :: front, rfl, ?_, ?_⟩
      · rw [completed, hstep]
        exact hfront
      · rw [after, hstep]
        exact hafter

/-- A frame that is taken off has some bytes. -/
theorem length_lt_of_some (h : takeFrame r bytes = (next, rest, some result)) :
    rest.length < bytes.length := by
  obtain ⟨front, rfl, hfront, -⟩ := completed_of_some h
  have hsome : front ≠ [] := by
    rintro rfl
    cases hfront
  rw [List.length_append]
  exact Nat.lt_add_of_pos_left (List.length_pos_iff.2 hsome)

end Rpc.FrameReader

/-! ## One frame after the other -/

section Frames

variable {r next : FrameReader} {bytes rest : List UInt8} {result : FrameResult}

/-- Bytes without a whole frame are taken to the last one, and hold no message. -/
theorem takeFrame_none (h : takeFrame r bytes = (next, rest, none)) (more : List UInt8) :
    rest = [] ∧ r.messages (bytes ++ more) = next.messages more := by
  obtain ⟨hrest, hnone, hafter⟩ := FrameReader.completed_of_none h
  refine ⟨hrest, ?_⟩
  rw [FrameReader.messages_append, FrameReader.messages_eq r, hnone, hafter]
  rfl

/-- A frame that is taken off has the first of the messages, if it can be read, and the others are
those of the bytes behind it. -/
theorem takeFrame_some (h : takeFrame r bytes = (next, rest, some result)) (more : List UInt8) :
    r.messages (bytes ++ more) =
      result.toOption.toList ++ FrameReader.idle.messages (rest ++ more) := by
  obtain ⟨front, rfl, hfront, hafter⟩ := FrameReader.completed_of_some h
  rw [List.append_assoc, FrameReader.messages_append, FrameReader.messages_eq r, hfront, hafter]
  cases result <;> rfl

end Frames

/-! ## What messages are -/

/-- The signal in a message, if the session acts on it. -/
def signalOf? (message : Value) : Option ServerSignal :=
  match Incoming.ofValue? message with
  | some (.notification method params) => Rpc.signal? method params
  | _ => none

/-- The message answers a request of the client. -/
def isResponse (message : Value) : Bool :=
  match Incoming.ofValue? message with
  | some (.response _ _) => true
  | _ => false

/-- The state that a signal tells. -/
def Rpc.ServerSignal.busy? : ServerSignal → Option Bool
  | .busy b => some b
  | .keyPress => none

/-- The signals in a sequence of messages. -/
def signals (messages : List Value) : List ServerSignal := messages.filterMap signalOf?

/-- The states that a sequence of signals tells, one after the other. -/
def busyStates (heard : List ServerSignal) : List Bool := heard.filterMap ServerSignal.busy?

/-- The signals in front of the first response. -/
def earlySignals (messages : List Value) : List ServerSignal :=
  signals (messages.takeWhile fun m => !isResponse m)

@[simp]
theorem signals_append (ms ns : List Value) : signals (ms ++ ns) = signals ms ++ signals ns :=
  List.filterMap_append

@[simp]
theorem busyStates_append (ss ts : List ServerSignal) :
    busyStates (ss ++ ts) = busyStates ss ++ busyStates ts :=
  List.filterMap_append

/-- What comes after a response does not come early. -/
theorem earlySignals_append {ms : List Value} (h : ms.any isResponse = true) (ns : List Value) :
    earlySignals (ms ++ ns) = earlySignals ms := by
  obtain ⟨m, hm, hresponse⟩ := List.any_eq_true.1 h
  have hstop : ms.takeWhile (fun m => !isResponse m) ≠ ms := fun heq => by
    have hall := List.takeWhile_eq_self_iff.1 heq m hm
    rw [hresponse] at hall
    cases hall
  rw [earlySignals, List.takeWhile_append, if_neg]
  · rfl
  · intro hlen
    exact hstop ((List.takeWhile_prefix _).eq_of_length hlen)

/-- The first response ends what is early. -/
theorem earlySignals_concat {ms : List Value} {m : Value} (h : ms.any isResponse = false)
    (hm : isResponse m = true) : earlySignals (ms ++ [m]) = signals ms := by
  have hall : ∀ a ∈ ms, (!isResponse a) = true := by simpa using h
  rw [earlySignals, List.takeWhile_append_of_pos hall, List.takeWhile_cons_of_neg (by simp [hm]),
    List.append_nil]

/-- A message that is routed to the mailbox has its signal, one that answers a request is a
response, and no other one has a signal. -/
theorem route_cases (m : Value) :
    (∃ s, Client.route m = .signalling s ∧ signalOf? m = some s ∧ isResponse m = false) ∨
    (∃ id result, Client.route m = .answering id result ∧ signalOf? m = none ∧
      isResponse m = true) ∨
    (∃ reply, Client.route m = .replying reply ∧ signalOf? m = none ∧
      isResponse m = false) ∨
    (Client.route m = .bytes .idle ∧ signalOf? m = none ∧ isResponse m = false) := by
  unfold Client.route signalOf? isResponse
  split
  · rename_i h
    simp [h]
  · rename_i id result h
    simp [h]
  · rename_i id method h
    simp [h]
  · rename_i method params h
    cases hsignal : Rpc.signal? method params with
    | none => simp [h, hsignal]
    | some s => simp [h, hsignal]

end SessionHost
