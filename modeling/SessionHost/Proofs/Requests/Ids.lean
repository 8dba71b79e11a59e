import SessionHost.Proofs.Requests.Deals

/-!
# The ids of requests

A client hands out each id once, and puts it into its table when the request is registered.  Only a
response with that id takes it out again for an answer, and whatever has left the table never comes
back.

Main definitions:

- `Rpc.Responds`: a message is the response to an id.
- `World.Tidy`: the ids of all requests are in order.
- `World.Unasked`: nothing has been asked of any client yet.
- `World.Spent`, `World.Vanished`, `World.Owned`: what no move ends about an id.

Main results:

- Theorems `World.Shift.waiting`, `World.Shift.answers`, `World.Shift.answering`: where a request
  that waits, an answer and a response come from.
- Theorem `World.Deal.tidy`: every move keeps the ids in order.
-/

namespace SessionHost

open Json (Value)
open Rpc (Incoming ResponseError)

/-! ## Responses -/

/-- The message is a response to the request with an id: it has the id, and names no method. -/
def Rpc.Responds (message : Value) (id : Nat) : Prop :=
  (message.get? "id").bind requestId? = some id ∧ (message.get? "method").bind Value.text? = none

/-- A message is a response if it has a number and no method, with its result. -/
theorem Rpc.ofValue?_eq_response_iff {message : Value} {id : Nat}
    {result : Except ResponseError Value} :
    Incoming.ofValue? message = some (.response id result) ↔
      Responds message id ∧ responseResult message = result := by
  unfold Incoming.ofValue? Responds
  cases hid : message.get? "id" <;> cases hmethod : (message.get? "method").bind Value.text? <;>
    simp

/-- Who is about to answer was so before. -/
theorem Client.Agrees.answering {a b : Client} {id : Nat} {result : Except ResponseError Value}
    (h : a.Agrees b) (hb : b.reading = .answering id result) :
    a.reading = .answering id result := by
  rcases h.reading with heq | hover
  · exact heq.symm.trans hb
  · cases hover.symm.trans hb

/-- Only a response is brought before the table of waiting requests. -/
theorem Client.route_answering {message : Value} {id : Nat} {result : Except ResponseError Value}
    (h : route message = .answering id result) :
    Rpc.Responds message id ∧ Rpc.responseResult message = result := by
  refine Rpc.ofValue?_eq_response_iff.1 ?_
  unfold route at h
  split at h
  · cases h
  · cases h
    assumption
  · cases h
  · split at h <;> cases h

/-! ## Ids in order -/

/-- The requests that wait are different, and their ids have been handed out. -/
structure Client.Tidy (a : Client) : Prop where
  waiting : ∀ id ∈ a.waiting, id < a.nextId
  nodup : a.waiting.Nodup

/-- Forgetting a request undoes its answer, too. -/
theorem Client.forget_answer {a : Client} (ht : a.Tidy) (id : Nat)
    (result : Except ResponseError Value) : (a.answer id result).forget id = a.forget id := by
  unfold answer
  split
  · have hwaiting : (a.waiting.erase id).erase id = a.waiting.erase id :=
      List.erase_of_not_mem ht.nodup.not_mem_erase
    simp [forget, hwaiting]
  · rfl

namespace World

/-- All requests under way are different, and none waits before it has been registered. -/
structure Tidy (w : World) : Prop where
  clients : ∀ {c : Nat} {a : Client}, w.clients[c]? = some a → a.Tidy
  begun : ∀ {r c q}, w.request? r = some (c, q) → ∃ a, w.clients[c]? = some a ∧ q.id < a.nextId ∧
    (q.place = .registering → q.id ∉ a.waiting)
  apart : ∀ {r r' c q q'}, w.request? r = some (c, q) → w.request? r' = some (c, q') →
    q.id = q'.id → r = r'
  /-- A request gives up because its time or its client's writing activity is over. -/
  proper : ∀ {r c q why}, w.request? r = some (c, q) → q.place = .withdrawing why →
    why = .closed ∨ ∃ method, why = .timedOut method

/-- Nothing has been asked of any client yet. -/
structure Unasked (w : World) : Prop where
  requests : ∀ r, w.request? r = none
  clients : ∀ a ∈ w.clients, a.Unasked

variable {w v : World} {m : Move} {r : Runner} {c id : Nat} {a b : Client} {q : Request}

namespace Shift

/-- Numbers are given out upwards. -/
theorem nextId_le (h : Shift m w c a b) : a.nextId ≤ b.nextId := by
  cases h with
  | agree h => exact Nat.le_of_eq h.nextId.symm
  | begin h => exact h.nextId ▸ Nat.le_succ _
  | register _ _ _ h => exact Nat.le_of_eq h.nextId.symm
  | forget _ _ h => exact Nat.le_of_eq h.nextId.symm
  | read _ _ h =>
    cases h with
    | answer _ =>
      simp only [Client.answer]
      split <;> exact Nat.le_refl _
    | forget _ => exact Nat.le_refl _
    | take _ _ => exact Nat.le_refl _
    | other hid _ _ _ _ => exact Nat.le_of_eq hid.symm
  | write _ h => exact Nat.le_of_eq (Client.write?_spares h).1.symm

/-- Only registering puts a request into the table. -/
theorem waiting (h : Shift m w c a b) (hid : id ∈ b.waiting) :
    id ∈ a.waiting ∨ ∃ r q, m = .run r ∧ w.request? r = some (c, q) ∧
      q.place = .registering ∧ q.id = id := by
  cases h with
  | agree h => exact .inl (h.waiting ▸ hid)
  | begin h => exact .inl (h.waiting ▸ hid)
  | @register r q hm hq hplace h =>
    rw [h.waiting, Client.await, List.mem_append, List.mem_singleton] at hid
    exact hid.imp_right fun heq => ⟨r, q, hm, hq, hplace, heq.symm⟩
  | forget _ _ h => exact .inl (List.mem_of_mem_erase (h.waiting ▸ hid))
  | read _ _ h =>
    refine .inl ?_
    cases h with
    | answer _ =>
      simp only [Client.answer] at hid
      split at hid
      · exact List.mem_of_mem_erase hid
      · exact hid
    | forget _ => cases hid
    | take _ _ => exact hid
    | other _ hw _ _ _ => exact hw ▸ hid
  | write _ h => exact .inl ((Client.write?_spares h).2.1 ▸ hid)

/-- Only the reading activity brings an answer, and only for a request that waits. -/
theorem answers {result : Except ResponseError Value} (h : Shift m w c a b)
    (hp : (id, result) ∈ b.answers) :
    (id, result) ∈ a.answers ∨
      (m = .run (.reading c) ∧ a.reading = .answering id result ∧ id ∈ a.waiting) := by
  cases h with
  | agree h => exact .inl (h.answers ▸ hp)
  | begin h => exact .inl (h.answers ▸ hp)
  | register _ _ _ h => exact .inl (h.answers ▸ hp)
  | forget _ _ h => exact .inl (List.mem_filter.1 (h.answers ▸ hp)).1
  | read hm _ h =>
    cases h with
    | answer hr =>
      simp only [Client.answer] at hp
      split at hp
      · rename_i hwaits
        rw [List.mem_append, List.mem_singleton] at hp
        refine hp.imp_right fun heq => ?_
        cases heq
        exact ⟨hm, hr, hwaits⟩
      · exact .inl hp
    | forget _ => exact .inl hp
    | take _ _ => exact .inl hp
    | other _ _ hanswers _ _ => exact .inl (hanswers ▸ hp)
  | write _ h => exact .inl ((Client.write?_spares h).2.2.1 ▸ hp)

/-- A response before the table was there before, or has just been taken. -/
theorem answering {result : Except ResponseError Value} (h : Shift m w c a b)
    (hb : b.reading = .answering id result) :
    a.reading = .answering id result ∨
      (m = .run (.reading c) ∧ ∃ k r next rest message,
        w.connections[a.connection]? = some k ∧ a.reading = .bytes r ∧
        takeFrame r k.toClient = (next, rest, some (.ok message)) ∧
        Rpc.Responds message id ∧ Rpc.responseResult message = result) := by
  cases h with
  | agree h => exact .inl (h.answering hb)
  | begin h => exact .inl (h.answering hb)
  | register _ _ _ h => exact .inl (h.answering hb)
  | forget _ _ h => exact .inl (h.answering hb)
  | @read k hm hk h =>
    cases h with
    | answer _ => cases hb
    | forget _ => cases hb
    | take hr htake =>
      obtain ⟨hresponds, hresult⟩ := Client.route_answering hb
      exact .inr ⟨hm, k, _, _, _, _, hk, hr, htake, hresponds, hresult⟩
    | other _ _ _ _ hnot =>
      rw [hb] at hnot
      cases hnot
  | write _ h => exact .inl ((Client.write?_spares h).2.2.2 ▸ hb)

/-- A client stays in order. -/
theorem tidy (h : Shift m w c a b) (ha : a.Tidy)
    (hbegun : ∀ {r q}, m = .run r → w.request? r = some (c, q) → q.place = .registering →
      q.id < a.nextId ∧ q.id ∉ a.waiting) : b.Tidy where
  waiting id hid := by
    refine Nat.lt_of_lt_of_le ?_ h.nextId_le
    obtain hold | ⟨r, q, hm, hq, hplace, rfl⟩ := h.waiting hid
    · exact ha.waiting id hold
    · exact (hbegun hm hq hplace).1
  nodup := by
    cases h with
    | agree h => exact h.waiting ▸ ha.nodup
    | begin h => exact h.waiting ▸ ha.nodup
    | register hm hq hplace h =>
      rw [h.waiting, Client.await, List.nodup_append]
      refine ⟨ha.nodup, by simp, fun x hx y hy => ?_⟩
      rintro rfl
      exact (hbegun hm hq hplace).2 (List.mem_singleton.1 hy ▸ hx)
    | forget _ _ h => exact h.waiting ▸ ha.nodup.erase _
    | read _ _ h =>
      cases h with
      | answer _ =>
        simp only [Client.answer]
        split
        · exact ha.nodup.erase _
        · exact ha.nodup
      | forget _ => exact List.nodup_nil
      | take _ _ => exact ha.nodup
      | other _ hw _ _ _ => exact hw ▸ ha.nodup
    | write _ h => exact (Client.write?_spares h).2.1 ▸ ha.nodup

end Shift

namespace Deal

/-- A request under way was so before, or it has the next id of its client. -/
theorem origin (h : Deal m w v) (hq : v.request? r = some (c, q)) :
    (∃ q₀, w.request? r = some (c, q₀) ∧ q₀.id = q.id ∧
        (q.place = .registering → q₀.place = .registering)) ∨
      (m = .run r ∧ ∀ a, w.clients[c]? = some a → q.id = a.nextId) := by
  obtain ⟨-, hsame⟩ | ⟨q₀, a, b, -, hq₀, hstep⟩ | ⟨hm, -, -, b, -, -, hnew⟩ := h.asked hq
  · exact .inl ⟨q, hsame, rfl, id⟩
  · obtain ⟨hid, hplace, -⟩ := Request.going_cases hstep
    exact .inl ⟨q₀, hq₀, hid.symm, fun h => absurd h hplace⟩
  · exact .inr ⟨hm, fun a ha => (hnew a ha).1⟩

/-- Clients stay tidy. -/
theorem tidy_clients (h : Deal m w v) (ht : w.Tidy) (hb : v.clients[c]? = some b) : b.Tidy := by
  cases ha : w.clients[c]? with
  | none =>
    have hnew := h.unasked ha hb
    exact ⟨by simp [hnew.waiting], by simp [hnew.waiting]⟩
  | some a =>
    obtain ⟨b', hb', hshift⟩ := h.shift ha
    cases hb.symm.trans hb'
    refine hshift.tidy (ht.clients ha) fun hm hq hplace => ?_
    obtain ⟨a', ha', hlt, hnot⟩ := ht.begun hq
    cases ha.symm.trans ha'
    exact ⟨hlt, hnot hplace⟩

/-- A new request has a number of its own. -/
theorem tidy_begun (h : Deal m w v) (ht : w.Tidy) (hq : v.request? r = some (c, q)) :
    ∃ b, v.clients[c]? = some b ∧ q.id < b.nextId ∧
      (q.place = .registering → q.id ∉ b.waiting) := by
  obtain ⟨hm, hsame⟩ | ⟨q₀, a, b, -, hq₀, hstep⟩ | ⟨hm, -, hplace, b, hb, hid, hnew⟩ := h.asked hq
  · obtain ⟨a, ha, hlt, hnot⟩ := ht.begun hsame
    obtain ⟨b, hb, hshift⟩ := h.shift ha
    refine ⟨b, hb, Nat.lt_of_lt_of_le hlt hshift.nextId_le, fun hplace hwaits => ?_⟩
    obtain hold | ⟨r', q', hm', hq', -, hid⟩ := hshift.waiting hwaits
    · exact hnot hplace hold
    · exact hm (ht.apart hsame hq' hid.symm ▸ hm')
  · obtain ⟨hid, hplace, -⟩ := Request.going_cases hstep
    obtain ⟨a', ha', hlt, -⟩ := ht.begun hq₀
    obtain ⟨b', hb', hshift⟩ := h.shift ha'
    exact ⟨b', hb', hid ▸ Nat.lt_of_lt_of_le hlt hshift.nextId_le, fun h => absurd h hplace⟩
  · refine ⟨b, hb, hid ▸ Nat.lt_succ_self _, fun _ hwaits => ?_⟩
    cases ha : w.clients[c]? with
    | none =>
      rw [(h.unasked ha hb).waiting] at hwaits
      cases hwaits
    | some a =>
      obtain ⟨heq, hsame⟩ := hnew a ha
      have hlt := (ht.clients ha).waiting q.id (hsame ▸ hwaits)
      exact Nat.lt_irrefl _ (heq ▸ hlt)

/-- Every move keeps the ids in order. -/
theorem tidy (h : Deal m w v) (ht : w.Tidy) : v.Tidy where
  clients := h.tidy_clients ht
  begun := h.tidy_begun ht
  apart {r r' c q q'} hq hq' hid := by
    -- A request that is begun has a later id than those that are under way.
    have hlater {r₀ : Runner} {q₀ q₁ : Request} (hq₀ : w.request? r₀ = some (c, q₀))
        (hnew : ∀ a, w.clients[c]? = some a → q₁.id = a.nextId) : q₀.id ≠ q₁.id := by
      obtain ⟨a, ha, hlt, -⟩ := ht.begun hq₀
      exact Nat.ne_of_lt (hnew a ha ▸ hlt)
    obtain ⟨q₀, hq₀, heq, -⟩ | ⟨hm, hnew⟩ := h.origin hq <;>
      obtain ⟨q₁, hq₁, heq', -⟩ | ⟨hm', hnew'⟩ := h.origin hq'
    · exact ht.apart hq₀ hq₁ ((heq.trans hid).trans heq'.symm)
    · exact absurd (heq.trans hid) (hlater hq₀ hnew')
    · exact absurd (heq'.trans hid.symm) (hlater hq₁ hnew)
    · exact Move.run.inj (hm.symm.trans hm')
  proper {r c q why} hq hwhy := by
    obtain ⟨-, hsame⟩ | ⟨q₀, a, b, -, hq₀, hstep⟩ | ⟨-, -, hplace, -⟩ := h.asked hq
    · exact ht.proper hsame hwhy
    · obtain ⟨-, -, -, hgives⟩ := Request.going_cases hstep
      exact (hgives why hwhy).imp_right fun heq => ⟨_, heq⟩
    · cases hplace.symm.trans hwhy

end Deal

/-- A client that nobody has asked is tidy. -/
theorem Unasked.tidy (h : w.Unasked) : w.Tidy where
  clients ha := by
    have hnone := (h.clients _ (List.mem_of_getElem? ha)).waiting
    exact ⟨by simp [hnone], by simp [hnone]⟩
  begun hq := nomatch (h.requests _).symm.trans hq
  apart hq := nomatch (h.requests _).symm.trans hq
  proper hq := nomatch (h.requests _).symm.trans hq

/-! ## What lasts -/

/-- A request that can never be put into the table again. -/
def Spent (c id : Nat) (w : World) : Prop :=
  ∃ a, w.clients[c]? = some a ∧ id < a.nextId ∧ id ∉ a.waiting ∧
    ∀ {r q}, w.request? r = some (c, q) → q.id = id → q.place ≠ .registering

/-- A request of which nothing is left. -/
def Vanished (c id : Nat) (w : World) : Prop :=
  ∃ a, w.clients[c]? = some a ∧ id < a.nextId ∧ id ∉ a.waiting ∧
    (∀ result, (id, result) ∉ a.answers) ∧ ∀ {r q}, w.request? r = some (c, q) → q.id ≠ id

/-- An id that has been handed out, if at all, to the request of one activity. -/
def Owned (r : Runner) (c id : Nat) (w : World) : Prop :=
  ∃ a, w.clients[c]? = some a ∧ id < a.nextId ∧
    ∀ {r' q}, w.request? r' = some (c, q) → q.id = id → r' = r

namespace Deal

/-- A number that is spent stays so. -/
theorem spent (h : Deal m w v) (hs : w.Spent c id) : v.Spent c id := by
  obtain ⟨a, ha, hlt, hnot, hplace⟩ := hs
  obtain ⟨b, hb, hshift⟩ := h.shift ha
  refine ⟨b, hb, Nat.lt_of_lt_of_le hlt hshift.nextId_le, fun hwaits => ?_, fun hq hid hreg => ?_⟩
  · obtain hold | ⟨r, q, -, hq, hreg, hid⟩ := hshift.waiting hwaits
    · exact hnot hold
    · exact hplace hq hid hreg
  · obtain ⟨q₀, hq₀, heq, hreg₀⟩ | ⟨-, hnew⟩ := h.origin hq
    · exact hplace hq₀ (heq.trans hid) (hreg₀ hreg)
    · exact Nat.ne_of_lt hlt (hid.symm.trans (hnew a ha))

/-- A request that has vanished stays so. -/
theorem vanished (h : Deal m w v) (hs : w.Vanished c id) : v.Vanished c id := by
  obtain ⟨a, ha, hlt, hnot, hanswers, hrequests⟩ := hs
  obtain ⟨b, hb, hshift⟩ := h.shift ha
  refine ⟨b, hb, Nat.lt_of_lt_of_le hlt hshift.nextId_le, fun hwaits => ?_, fun result hp => ?_,
    fun hq hid => ?_⟩
  · obtain hold | ⟨r, q, -, hq, -, hid⟩ := hshift.waiting hwaits
    · exact hnot hold
    · exact hrequests hq hid
  · obtain hold | ⟨-, -, hwaits⟩ := hshift.answers hp
    · exact hanswers result hold
    · exact hnot hwaits
  · obtain ⟨q₀, hq₀, heq, -⟩ | ⟨-, hnew⟩ := h.origin hq
    · exact hrequests hq₀ (heq.trans hid)
    · exact Nat.ne_of_lt hlt (hid.symm.trans (hnew a ha))

/-- A number stays with its owner. -/
theorem owned (h : Deal m w v) (hs : w.Owned r c id) : v.Owned r c id := by
  obtain ⟨a, ha, hlt, howner⟩ := hs
  obtain ⟨b, hb, hshift⟩ := h.shift ha
  refine ⟨b, hb, Nat.lt_of_lt_of_le hlt hshift.nextId_le, fun hq hid => ?_⟩
  obtain ⟨q₀, hq₀, heq, -⟩ | ⟨-, hnew⟩ := h.origin hq
  · exact howner hq₀ (heq.trans hid)
  · exact absurd (hid.symm.trans (hnew a ha)) (Nat.ne_of_lt hlt)

end Deal

end World

end SessionHost
