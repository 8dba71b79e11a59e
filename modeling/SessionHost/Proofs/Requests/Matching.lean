import SessionHost.Proofs.Requests.Ids

/-!
# Requests and responses match

Any number of requests may be under way on a client, whoever makes them and however long they are
to wait.  A response is given to the request with its id, or to nobody.  So a request that has a
value has it from its own response, which was handed over while the request was waiting, and a
response that no request waits for is lost without a trace.

Main definitions:

- `World.Waits`, `World.Answered`, `World.Hands`, `World.Takes`: where requests and messages are.
- `World.Returns`: a request comes to its end.
- `World.Registers`, `World.Receives`, `World.Completes`: what a move does with a request.
- `World.Matching`: requests and responses match all through a history of moves.

Main results:

- Theorems `World.Unasked.registered`, `World.Unasked.handed`, `World.Unasked.taken`: the history of
  a request that waits, of an answer, and of a response before the table.
- Theorem `World.Returns.vanished`: nothing is left of a request that has come to its end.
- Theorem `World.Unasked.matching`: whatever moves are made, requests and responses match.
-/

namespace SessionHost

open Json (Value)
open Rpc (ResponseError)

namespace World

/-! ## Where requests and messages are -/

/-- A request of a client is in the table of those that wait. -/
def Waits (w : World) (c id : Nat) : Prop :=
  ∃ a, w.clients[c]? = some a ∧ id ∈ a.waiting

/-- A request of a client has an answer that it has not taken yet. -/
def Answered (w : World) (c id : Nat) : Prop :=
  ∃ a result, w.clients[c]? = some a ∧ (id, result) ∈ a.answers

/-- The reading activity of a client is before the table, with a response. -/
def Hands (w : World) (c id : Nat) (result : Except ResponseError Value) : Prop :=
  ∃ a, w.clients[c]? = some a ∧ a.reading = .answering id result

/-- The next message on a client's connection, which its reading activity is about to take. -/
def Takes (w : World) (c : Nat) (message : Value) : Prop :=
  ∃ a k r next rest, w.clients[c]? = some a ∧ w.connections[a.connection]? = some k ∧
    a.reading = .bytes r ∧ takeFrame r k.toClient = (next, rest, some (.ok message))

/-- The request that an activity has under way comes to its end when the activity runs. -/
def Returns (w : World) (r : Runner) (c : Nat) (q : Request) (result : RequestResult) : Prop :=
  w.request? r = some (c, q) ∧ w.letsGo r = false ∧
    ∃ a b, w.clients[c]? = some a ∧ q.step w.now a = .finished b result

/-! ## What moves do with them -/

variable (start : World) (ms : List Move)

/-- The move `g` of an activity puts the request that it has under way into the table. -/
def Registers (g : Nat) (r : Runner) (c id : Nat) : Prop :=
  ∃ u v q, start.Moment ms g u ∧ start.Moment ms (g + 1) v ∧ ms[g]? = some (.run r) ∧
    u.request? r = some (c, q) ∧ q.id = id ∧ ¬u.Waits c id ∧ v.Waits c id

/-- A response is received: the move `i` takes it off the client's connection, and the move `j`
hands it over to the table. -/
structure Receives (c : Nat) (message : Value) (id i j : Nat) : Prop where
  before : i < j
  take : ms[i]? = some (.run (.reading c))
  hand : ms[j]? = some (.run (.reading c))
  responds : Rpc.Responds message id
  taken : ∃ u, start.Moment ms i u ∧ u.Takes c message
  done : ∃ v, start.Moment ms (j + 1) v
  kept : ∀ {n u}, i < n → n ≤ j → start.Moment ms n u → u.Hands c id (Rpc.responseResult message)

/-- The move `j` gives a request its answer. -/
def Completes (j c id : Nat) : Prop :=
  ∃ u v, start.Moment ms j u ∧ start.Moment ms (j + 1) v ∧ ¬u.Answered c id ∧ v.Answered c id

/-- Requests and responses match all through a history of moves. -/
structure Matching : Prop where
  /-- A request with a value has received a response without an error, and that value in it, after
  it had been registered and before it came to its end. -/
  value : ∀ {t u r c q v}, start.Moment ms t u → ms[t]? = some (.run r) → u.Returns r c q (.ok v) →
    ∃ g i j message, start.Registers ms g r c q.id ∧ start.Receives ms c message q.id i j ∧
      g < j ∧ j < t ∧ message.get? "error" = none ∧ (message.get? "result").getD .null = v
  /-- A request that was refused has received a response with that error. -/
  refusal : ∀ {t u r c q e}, start.Moment ms t u → ms[t]? = some (.run r) →
    u.Returns r c q (.error (.refused e)) →
    ∃ g i j message error, start.Registers ms g r c q.id ∧ start.Receives ms c message q.id i j ∧
      g < j ∧ j < t ∧ message.get? "error" = some error ∧
      (ResponseError.ofValue? error).getD .malformed = e
  /-- An id of a client belongs to the request of one activity. -/
  own : ∀ {n k u v r r' c q q'}, start.Moment ms n u → start.Moment ms k v →
    u.request? r = some (c, q) → v.request? r' = some (c, q') → q.id = q'.id → r = r'
  /-- What a move completes has been waiting, and the move hands a response over to it. -/
  completion : ∀ {j c id}, start.Completes ms j c id →
    (∃ u, start.Moment ms j u ∧ u.Waits c id) ∧ ∃ i message, start.Receives ms c message id i j
  /-- A response completes at most one request. -/
  single : ∀ {j c c' id id'}, start.Completes ms j c id → start.Completes ms j c' id' →
    c = c' ∧ id = id'
  /-- A message is handed over once. -/
  handed : ∀ {c message message' id id' i j j'}, start.Receives ms c message id i j →
    start.Receives ms c message' id' i j' → j = j'
  /-- No request is completed twice. -/
  once : ∀ {j j' c id}, start.Completes ms j c id → start.Completes ms j' c id → j = j'
  /-- A response that no request waits for changes nothing; the reading activity goes on. -/
  idle : ∀ {j u v c id result}, start.Moment ms j u → start.Moment ms (j + 1) v →
    ms[j]? = some (.run (.reading c)) → u.Hands c id result → ¬u.Waits c id →
    ∃ a, u.clients[c]? = some a ∧ v = u.setClient c { a with reading := .bytes .idle }
  /-- A request that waits has been registered. -/
  known : ∀ {n u c id}, start.Moment ms n u → u.Waits c id →
    ∃ g r, g < n ∧ start.Registers ms g r c id
  /-- A request that has been completed waits no longer. -/
  answered : ∀ {j n u c id}, start.Completes ms j c id → j < n → start.Moment ms n u →
    ¬u.Waits c id
  /-- A response that comes when its request has given up leaves nothing behind, once the request
  has left the table. -/
  late : ∀ {n u r c q why a result}, start.Moment ms n u → u.request? r = some (c, q) →
    q.place = .withdrawing why → u.clients[c]? = some a →
    (a.answer q.id result).forget q.id = a.forget q.id
  /-- A request that has come to its end has left the table for good, and is under way no more. -/
  gone : ∀ {t n u v r c q result}, start.Moment ms t u → ms[t]? = some (.run r) →
    u.Returns r c q result → t < n → start.Moment ms n v →
    ¬v.Waits c q.id ∧ ¬v.Answered c q.id ∧ ∀ {r' q'}, v.request? r' = some (c, q') → q'.id ≠ q.id

end World

/-! ## What a response says -/

namespace Request

variable {message v : Value} {e : ResponseError}

/-- A request has a value from a response without an error. -/
theorem value_of_result (h : resultOf (Rpc.responseResult message) = .ok v) :
    message.get? "error" = none ∧ (message.get? "result").getD .null = v := by
  unfold Rpc.responseResult at h
  split at h
  · cases h
  · cases h
    exact ⟨‹_›, rfl⟩

/-- A request is refused by a response with an error. -/
theorem refusal_of_result (h : resultOf (Rpc.responseResult message) = .error (.refused e)) :
    ∃ error, message.get? "error" = some error ∧
      (ResponseError.ofValue? error).getD .malformed = e := by
  unfold Rpc.responseResult at h
  split at h
  · rename_i error herror
    cases h
    exact ⟨error, herror, rfl⟩
  · cases h

end Request

/-- An answer that is found is one of the answers. -/
theorem Client.mem_answers_of_answerTo? {a : Client} {id : Nat}
    {answer : Except ResponseError Value} (h : a.answerTo? id = some answer) :
    (id, answer) ∈ a.answers := by
  obtain ⟨⟨id', answer'⟩, hfind, rfl⟩ := Option.map_eq_some_iff.1 h
  have hid : id' = id := by simpa using List.find?_some hfind
  exact hid ▸ List.mem_of_find?_eq_some hfind

/-! ## Histories -/

namespace World

variable {start w v u : World} {ms : List Move} {r : Runner} {n k t j c id : Nat} {a b : Client}
  {q : Request} {result : Except ResponseError Value}

/-- What every move keeps lasts from one moment to a later one. -/
theorem Moment.keeps {P : World → Prop} (hn : start.Moment ms n w) (hk : start.Moment ms k v)
    (hle : n ≤ k) (hP : ∀ {a b : World} {m : Move}, Deal m a b → P a → P b) (hw : P w) : P v :=
  play?_induction (hn.play hk hle) (fun _ hmove => hP (move?_deal hmove)) hw

/-- The first moment is the start. -/
theorem Moment.zero (h : start.Moment ms 0 w) : w = start :=
  (Option.some.inj h.2).symm

/-- All through a life clients are tidy. -/
theorem Unasked.tidy_at (h : start.Unasked) (hn : start.Moment ms n w) : w.Tidy :=
  play?_induction hn.2 (fun _ hmove => (move?_deal hmove).tidy) h.tidy

/-- A request that has begun to wait has been registered. -/
theorem registered_since (hk : start.Moment ms k u) (hnot : ¬u.Waits c id) (hle : k ≤ n)
    (hn : start.Moment ms n w) (hw : w.Waits c id) :
    ∃ g r, k ≤ g ∧ g < n ∧ start.Registers ms g r c id := by
  induction n, hle using Nat.le_induction generalizing w with
  | base =>
    obtain rfl := hk.unique hn
    exact absurd hw hnot
  | succ n hle ih =>
    obtain ⟨u, hu⟩ := hn.pred
    obtain ⟨m, hm, hmove⟩ := hu.step hn
    by_cases hold : u.Waits c id
    · obtain ⟨g, r, hkg, hg, hregisters⟩ := ih hu hold
      exact ⟨g, r, hkg, Nat.lt_succ_of_lt hg, hregisters⟩
    · have hdeal := move?_deal hmove
      obtain ⟨b, hb, hid⟩ := hw
      cases ha : u.clients[c]? with
      | none =>
        rw [(hdeal.unasked ha hb).waiting] at hid
        cases hid
      | some a =>
        obtain ⟨b', hb', hshift⟩ := hdeal.shift ha
        cases hb.symm.trans hb'
        obtain hwaits | ⟨r, q, rfl, hq, -, hqid⟩ := hshift.waiting hid
        · exact absurd ⟨a, ha, hwaits⟩ hold
        · exact ⟨n, r, hle, Nat.lt_succ_self n, u, w, q, hu, hn, hm, hq, hqid, hold, b, hb, hid⟩

/-- A request that waits has been registered. -/
theorem Unasked.registered (h : start.Unasked) (hn : start.Moment ms n w) (hw : w.Waits c id) :
    ∃ g r, g < n ∧ start.Registers ms g r c id := by
  obtain ⟨u, hu⟩ := hn.exists_le (Nat.zero_le n)
  have hnot : ¬u.Waits c id := by
    rintro ⟨a, ha, hid⟩
    rw [hu.zero] at ha
    rw [(h.clients a (List.mem_of_getElem? ha)).waiting] at hid
    cases hid
  obtain ⟨g, r, -, hg, hregisters⟩ := registered_since hu hnot (Nat.zero_le n) hn hw
  exact ⟨g, r, hg, hregisters⟩

/-- An answer that comes with a move has been handed over to a request that waits. -/
theorem handed_of_answered (hn : start.Moment ms n u) (hn' : start.Moment ms (n + 1) v)
    (hb : v.clients[c]? = some b) (hp : (id, result) ∈ b.answers)
    (hnot : ∀ a, u.clients[c]? = some a → (id, result) ∉ a.answers) :
    ms[n]? = some (.run (.reading c)) ∧ u.Hands c id result ∧ u.Waits c id := by
  obtain ⟨m, hm, hmove⟩ := hn.step hn'
  have hdeal := move?_deal hmove
  cases ha : u.clients[c]? with
  | none =>
    rw [(hdeal.unasked ha hb).answers] at hp
    cases hp
  | some a =>
    obtain ⟨b', hb', hshift⟩ := hdeal.shift ha
    cases hb.symm.trans hb'
    obtain hold | ⟨rfl, hreading, hwaits⟩ := hshift.answers hp
    · exact absurd hold (hnot a ha)
    · exact ⟨hm, ⟨a, ha, hreading⟩, a, ha, hwaits⟩

/-- An answer has been handed over. -/
theorem Unasked.handed (h : start.Unasked) (hn : start.Moment ms n w)
    (hb : w.clients[c]? = some b) (hp : (id, result) ∈ b.answers) :
    ∃ j u, j < n ∧ start.Moment ms j u ∧ ms[j]? = some (.run (.reading c)) ∧
      u.Hands c id result ∧ u.Waits c id := by
  induction n generalizing w b with
  | zero =>
    obtain rfl := hn.zero
    rw [(h.clients b (List.mem_of_getElem? hb)).answers] at hp
    cases hp
  | succ n ih =>
    obtain ⟨u, hu⟩ := hn.pred
    by_cases hold : ∃ a, u.clients[c]? = some a ∧ (id, result) ∈ a.answers
    · obtain ⟨a, ha, hpa⟩ := hold
      obtain ⟨j, x, hj, hrest⟩ := ih hu ha hpa
      exact ⟨j, x, Nat.lt_succ_of_lt hj, hrest⟩
    · obtain ⟨hm, hhands, hwaits⟩ :=
        handed_of_answered hu hn hb hp fun a ha hpa => hold ⟨a, ha, hpa⟩
      exact ⟨n, u, Nat.lt_succ_self n, hu, hm, hhands, hwaits⟩

/-- A response before the table has been taken off the connection, and has been there since. -/
theorem Unasked.taken (h : start.Unasked) (hn : start.Moment ms n w) (hw : w.Hands c id result) :
    ∃ i message, i < n ∧ ms[i]? = some (.run (.reading c)) ∧ Rpc.Responds message id ∧
      Rpc.responseResult message = result ∧ (∃ u, start.Moment ms i u ∧ u.Takes c message) ∧
      ∀ {k u}, i < k → k ≤ n → start.Moment ms k u → u.Hands c id result := by
  induction n generalizing w with
  | zero =>
    obtain rfl := hn.zero
    obtain ⟨a, ha, hreading⟩ := hw
    have hnot := (h.clients a (List.mem_of_getElem? ha)).reading
    rw [hreading] at hnot
    cases hnot
  | succ n ih =>
    obtain ⟨u, hu⟩ := hn.pred
    obtain ⟨m, hm, hmove⟩ := hu.step hn
    have hdeal := move?_deal hmove
    obtain ⟨b, hb, hreading⟩ := hw
    cases ha : u.clients[c]? with
    | none =>
      have hnot := (hdeal.unasked ha hb).reading
      rw [hreading] at hnot
      cases hnot
    | some a =>
      obtain ⟨b', hb', hshift⟩ := hdeal.shift ha
      cases hb.symm.trans hb'
      obtain hold | ⟨rfl, q, r, next, rest, message, hq, hr, htake, hresponds, hresult⟩ :=
        hshift.answering hreading
      · obtain ⟨i, message, hi, htaken, hresponds, hresult, hmoment, hkept⟩ := ih hu ⟨a, ha, hold⟩
        refine ⟨i, message, Nat.lt_succ_of_lt hi, htaken, hresponds, hresult, hmoment, ?_⟩
        intro k x hik hk hx
        rcases Nat.lt_or_eq_of_le hk with hlt | rfl
        · exact hkept hik (Nat.le_of_lt_succ hlt) hx
        · obtain rfl := hx.unique hn
          exact ⟨b, hb, hreading⟩
      · refine ⟨n, message, Nat.lt_succ_self n, hm, hresponds, hresult,
          ⟨u, hu, a, q, r, next, rest, ha, hq, hr, htake⟩, ?_⟩
        intro k x hik hk hx
        obtain rfl : k = n + 1 := Nat.le_antisymm hk hik
        obtain rfl := hx.unique hn
        exact ⟨b, hb, hreading⟩

/-- A response that is handed over as it comes to the table has been received. -/
theorem Unasked.receives (h : start.Unasked) (hn : start.Moment ms j u)
    (hn' : start.Moment ms (j + 1) v) (hm : ms[j]? = some (.run (.reading c)))
    (hu : u.Hands c id result) :
    ∃ i message, start.Receives ms c message id i j ∧ Rpc.responseResult message = result := by
  obtain ⟨i, message, hi, htake, hresponds, rfl, htaken, hkept⟩ := h.taken hn hu
  exact ⟨i, message, ⟨hi, htake, hm, hresponds, htaken, ⟨v, hn'⟩, hkept⟩, rfl⟩

/-! ## Handing over -/

/-- A piece of a reading activity that has a response in hand. -/
theorem hand_eq (hmove : u.move? (.run (.reading c)) = some v) (hu : u.Hands c id result) :
    ∃ a, u.clients[c]? = some a ∧ a.reading = .answering id result ∧
      v = u.setClient c { a.answer id result with reading := .bytes .idle } := by
  obtain ⟨a, k, b, k', ha, hk, hread, rfl⟩ := onWire?_cases hmove
  obtain ⟨a', ha', hreading⟩ := hu
  cases ha.symm.trans ha'
  simp only [Client.read?, hreading, Option.some.injEq, Prod.mk.injEq] at hread
  obtain ⟨rfl, rfl⟩ := hread
  refine ⟨a, ha, hreading, ?_⟩
  obtain ⟨hlt, hget⟩ := List.getElem?_eq_some_iff.1 hk
  have hself : u.connections.set a.connection k = u.connections := by
    rw [← hget]
    exact List.set_getElem_self hlt
  calc (u.setClient c { a.answer id result with reading := .bytes .idle }).setConnection
        a.connection k
      = { u.setClient c { a.answer id result with reading := .bytes .idle } with
          connections := u.connections.set a.connection k } := rfl
    _ = u.setClient c { a.answer id result with reading := .bytes .idle } := by rw [hself]; rfl

/-- After it the activity is about to read. -/
theorem not_hands_after (hmove : u.move? (.run (.reading c)) = some v) (hu : u.Hands c id result)
    {id' : Nat} {result' : Except ResponseError Value} : ¬v.Hands c id' result' := by
  obtain ⟨a, ha, -, rfl⟩ := hand_eq hmove hu
  rintro ⟨b, hb, hreading⟩
  cases (getElem?_set_at ha _).symm.trans hb
  cases hreading

/-- A response that no request waits for changes nothing; the reading activity goes on. -/
theorem hand_idle (hmove : u.move? (.run (.reading c)) = some v) (hu : u.Hands c id result)
    (hnot : ¬u.Waits c id) :
    ∃ a, u.clients[c]? = some a ∧ v = u.setClient c { a with reading := .bytes .idle } := by
  obtain ⟨a, ha, -, rfl⟩ := hand_eq hmove hu
  have hwaits : id ∉ a.waiting := fun hid => hnot ⟨a, ha, hid⟩
  exact ⟨a, ha, by rw [Client.answer, if_neg hwaits]⟩

/-- What a move completes was waiting for the response that the move hands over. -/
theorem Completes.hand (h : start.Completes ms j c id) :
    ∃ u v result, start.Moment ms j u ∧ start.Moment ms (j + 1) v ∧
      ms[j]? = some (.run (.reading c)) ∧ u.Hands c id result ∧ u.Waits c id := by
  obtain ⟨u, v, hu, hv, hnot, b, result, hb, hp⟩ := h
  have hnew : ∀ a, u.clients[c]? = some a → (id, result) ∉ a.answers :=
    fun a ha hpa => hnot ⟨a, result, ha, hpa⟩
  exact ⟨u, v, result, hu, hv, handed_of_answered hu hv hb hp hnew⟩

/-- A move completes one request at most. -/
theorem Completes.eq_of_same {c' id' : Nat} (h : start.Completes ms j c id)
    (h' : start.Completes ms j c' id') : c = c' ∧ id = id' := by
  obtain ⟨u, -, result, hu, -, hm, ⟨a, ha, hreading⟩, -⟩ := h.hand
  obtain ⟨u', -, result', hu', -, hm', ⟨a', ha', hreading'⟩, -⟩ := h'.hand
  obtain rfl := hu.unique hu'
  cases hm.symm.trans hm'
  cases ha.symm.trans ha'
  cases hreading.symm.trans hreading'
  exact ⟨rfl, rfl⟩

/-- A request that is given its answer never waits again. -/
theorem spent_of_hands (ht : u.Tidy) (hmove : u.move? (.run (.reading c)) = some v)
    (hhands : u.Hands c id result) (hw : u.Waits c id) : v.Spent c id := by
  obtain ⟨a, ha, hwaits⟩ := hw
  have hlt := (ht.clients ha).waiting id hwaits
  obtain ⟨a', ha', -, hv⟩ := hand_eq hmove hhands
  cases ha.symm.trans ha'
  refine ⟨{ a.answer id result with reading := .bytes .idle }, ?_, ?_, ?_, ?_⟩
  · rw [hv]
    exact getElem?_set_at ha _
  · simpa [Client.answer, hwaits] using hlt
  · simpa [Client.answer, hwaits] using (ht.clients ha).nodup.not_mem_erase
  · intro r q hq hid hplace
    obtain ⟨q₀, hq₀, heq, hreg⟩ | ⟨-, hnew⟩ := (move?_deal hmove).origin hq
    · obtain ⟨a', ha', -, hnot⟩ := ht.begun hq₀
      cases ha.symm.trans ha'
      exact hnot (hreg hplace) ((heq.trans hid).symm ▸ hwaits)
    · exact Nat.ne_of_lt hlt (hid.symm.trans (hnew a ha))

/-- A request that has an answer waits no longer. -/
theorem Unasked.not_waits_of_answers (h : start.Unasked) (hn : start.Moment ms n w)
    (hb : w.clients[c]? = some b) (hp : (id, result) ∈ b.answers) : ¬w.Waits c id := by
  obtain ⟨j, u, hj, hu, hm, hhands, hwaits⟩ := h.handed hn hb hp
  obtain ⟨v, hv⟩ := hn.exists_le hj
  obtain ⟨m, hm', hmove⟩ := hu.step hv
  cases hm.symm.trans hm'
  obtain ⟨a, ha, -, hnot, -⟩ :=
    Moment.keeps hv hn hj (fun hdeal => hdeal.spent)
      (spent_of_hands (h.tidy_at hu) hmove hhands hwaits)
  rintro ⟨d, hd, hwaits'⟩
  cases ha.symm.trans hd
  exact hnot hwaits'

/-- A request that has been completed never waits again. -/
theorem Completes.spent (h : start.Completes ms j c id) (hs : start.Unasked)
    (hn : start.Moment ms (j + 1) v) : v.Spent c id := by
  obtain ⟨u, v', result, hu, hv', hm, hhands, hwaits⟩ := h.hand
  obtain rfl := hn.unique hv'
  obtain ⟨m, hm', hmove⟩ := hu.step hn
  cases hm.symm.trans hm'
  exact spent_of_hands (hs.tidy_at hu) hmove hhands hwaits

/-- A request that has been completed does not wait again. -/
theorem Completes.not_waits (h : start.Completes ms j c id) (hs : start.Unasked) (hlt : j < n)
    (hn : start.Moment ms n w) : ¬w.Waits c id := by
  obtain ⟨v, hv⟩ := hn.exists_le hlt
  obtain ⟨a, ha, -, hnot, -⟩ :=
    Moment.keeps hv hn hlt (fun hdeal => hdeal.spent) (h.spent hs hv)
  rintro ⟨b, hb, hwaits⟩
  cases ha.symm.trans hb
  exact hnot hwaits

/-- No request is completed twice. -/
theorem Completes.unique (h : start.Completes ms j c id) (h' : start.Completes ms k c id)
    (hs : start.Unasked) : j = k := by
  obtain ⟨u, -, -, hu, -, -, -, hwaits⟩ := h.hand
  obtain ⟨u', -, -, hu', -, -, -, hwaits'⟩ := h'.hand
  rcases Nat.lt_trichotomy j k with hlt | heq | hlt
  · exact absurd hwaits' (h.not_waits hs hlt hu')
  · exact heq
  · exact absurd hwaits (h'.not_waits hs hlt hu)

/-- A message is handed over by the first piece of the reading activity after it was taken. -/
theorem Receives.hand_le {message message' : Value} {id' i j' : Nat}
    (h : start.Receives ms c message id i j) (h' : start.Receives ms c message' id' i j') :
    j' ≤ j := by
  refine Nat.le_of_not_lt fun hlt => ?_
  obtain ⟨v, hv⟩ := h.done
  obtain ⟨u, hu⟩ := hv.pred
  obtain ⟨m, hm, hmove⟩ := hu.step hv
  cases h.hand.symm.trans hm
  have hafter := h'.kept (Nat.lt_succ_of_lt h.before) hlt hv
  exact not_hands_after hmove (h.kept h.before (Nat.le_refl j) hu) hafter

/-! ## Coming to an end -/

/-- An activity whose request comes to its end has none any longer. -/
theorem Deal.returned {result : RequestResult} (h : Deal (.run r) u v)
    (hr : u.Returns r c q result) :
    ∃ a b d, u.clients[c]? = some a ∧ q.step u.now a = .finished b result ∧
      v.clients[c]? = some d ∧ b.Agrees d ∧ v.request? r = none ∧
      ∀ r', r' ≠ r → v.request? r' = u.request? r' := by
  obtain ⟨hq, hlets, a, b, ha, hstep⟩ := hr
  cases h with
  | aside hm hspares hsame => exact absurd rfl (hm r)
  | read hm he hk hreads hv hsame =>
    cases hm
    cases hq
  | write hm he hwrite hv hsame =>
    cases hm
    cases hq
  | @run r' hm hr' hdeal hothers =>
    cases hm
    rw [hq, hlets] at hdeal
    generalize hs : some (c, q) = s at hdeal
    generalize hs' : v.request? r = s' at hdeal
    cases hdeal with
    | rest _ | begin _ _ _ _ _ _ => cases hs
    | letGo _ hl => cases hl
    | poll he hpolls hy _ =>
      cases hs
      cases ha.symm.trans he
      cases hpolls with
      | going hgoing => cases hstep.symm.trans hgoing
      | late hblocked _ => cases hstep.symm.trans hblocked
      | finish hfinished hd =>
        cases hstep.symm.trans hfinished
        obtain ⟨e, he, hagrees⟩ := hy.old (getElem?_set_at ha _)
        exact ⟨a, b, e, ha, hstep, he, hd.trans hagrees, rfl, hothers⟩

/-- Nothing is left of a request that has come to its end. -/
theorem Returns.vanished {result : RequestResult} (hr : u.Returns r c q result) (ht : u.Tidy)
    (hmove : u.move? (.run r) = some v) : v.Vanished c q.id := by
  obtain ⟨a, b, d, ha, hstep, hd, hagrees, hnone, hothers⟩ := (move?_deal hmove).returned hr
  obtain ⟨a', ha', hlt, -⟩ := ht.begun hr.1
  cases ha.symm.trans ha'
  -- The request is forgotten, unless there was nothing to forget.
  have hb : q.id < b.nextId ∧ q.id ∉ b.waiting ∧ ∀ answer, (q.id, answer) ∉ b.answers := by
    have hforget : q.id < (a.forget q.id).nextId ∧ q.id ∉ (a.forget q.id).waiting ∧
        ∀ answer, (q.id, answer) ∉ (a.forget q.id).answers :=
      ⟨hlt, (ht.clients ha).nodup.not_mem_erase, fun answer hp => by simp [Client.forget] at hp⟩
    obtain ⟨answer, -, rfl, -⟩ | ⟨hanswer, hnot, rfl, -⟩ | ⟨why, -, rfl, -⟩ :=
      Request.finished_cases hstep
    · exact hforget
    · refine ⟨hlt, hnot, fun answer hp => ?_⟩
      simp only [Client.answerTo?, Option.map_eq_none_iff, List.find?_eq_none] at hanswer
      exact hanswer _ hp (beq_self_eq_true _)
    · exact hforget
  obtain ⟨hltb, hnot, hanswers⟩ := hb
  refine ⟨d, hd, hagrees.nextId ▸ hltb, hagrees.waiting ▸ hnot, hagrees.answers ▸ hanswers, ?_⟩
  intro r' q' hq' hid
  by_cases hr' : r' = r
  · subst hr'
    cases hnone.symm.trans hq'
  · exact hr' (ht.apart (hothers r' hr' ▸ hq') hr.1 hid)

/-- A request that gives up does so because its time or its client's writing activity is over, so
any other result is that of its answer. -/
theorem Returns.answered {result : RequestResult} (hr : u.Returns r c q result) (ht : u.Tidy)
    (hresult : (∃ v, result = .ok v) ∨ ∃ e, result = .error (.refused e)) :
    ∃ a answer, u.clients[c]? = some a ∧ (q.id, answer) ∈ a.answers ∧
      Request.resultOf answer = result := by
  obtain ⟨hq, -, a, b, ha, hstep⟩ := hr
  obtain ⟨answer, hanswer, -, rfl⟩ | ⟨-, -, -, rfl⟩ | ⟨why, hplace, -, rfl⟩ :=
    Request.finished_cases hstep
  · exact ⟨a, answer, ha, Client.mem_answers_of_answerTo? hanswer, rfl⟩
  · obtain ⟨v, hv⟩ | ⟨e, he⟩ := hresult
    · cases hv
    · cases he
  · obtain rfl | ⟨method, rfl⟩ := ht.proper hq hplace <;>
      · obtain ⟨v, hv⟩ | ⟨e, he⟩ := hresult
        · cases hv
        · cases he

/-! ## All moments -/

/-- An id of a client belongs to the request of one activity. -/
theorem Unasked.own (h : start.Unasked) {r' : Runner} {q' : Request} (hn : start.Moment ms n u)
    (hk : start.Moment ms k v) (hle : n ≤ k) (hq : u.request? r = some (c, q))
    (hq' : v.request? r' = some (c, q')) (hid : q.id = q'.id) : r = r' := by
  have ht := h.tidy_at hn
  obtain ⟨a, ha, hlt, -⟩ := ht.begun hq
  have howned : u.Owned r c q.id := ⟨a, ha, hlt, fun hq₀ heq => ht.apart hq₀ hq heq⟩
  obtain ⟨b, -, -, howner⟩ := hn.keeps hk hle (fun hdeal => hdeal.owned) howned
  exact (howner hq' hid.symm).symm

/-- The answer that a request ends with comes from a response that was received while the request
was waiting. -/
theorem Unasked.answered (h : start.Unasked) {result : RequestResult} (hu : start.Moment ms t u)
    (hr : u.Returns r c q result)
    (hresult : (∃ v, result = .ok v) ∨ ∃ e, result = .error (.refused e)) :
    ∃ g i j message, start.Registers ms g r c q.id ∧ start.Receives ms c message q.id i j ∧
      g < j ∧ j < t ∧ Request.resultOf (Rpc.responseResult message) = result := by
  obtain ⟨a, answer, ha, hp, rfl⟩ := hr.answered (h.tidy_at hu) hresult
  obtain ⟨j, x, hj, hx, hm, hhands, hwaits⟩ := h.handed hu ha hp
  obtain ⟨v, hv⟩ := hu.exists_le hj
  obtain ⟨i, message, hreceives, rfl⟩ := h.receives hx hv hm hhands
  obtain ⟨g, r', hg, hregisters⟩ := h.registered hx hwaits
  obtain ⟨y, -, q', hy, -, -, hq', hid, -⟩ := id hregisters
  obtain rfl := h.own hy hu (Nat.le_of_lt (Nat.lt_trans hg hj)) hq' hr.1 hid
  exact ⟨g, i, j, message, hregisters, hreceives, hg, hj, rfl⟩

/-- A request that has come to its end has left the table for good, and is under way no more. -/
theorem Unasked.gone (h : start.Unasked) {result : RequestResult} (hu : start.Moment ms t u)
    (hm : ms[t]? = some (.run r)) (hr : u.Returns r c q result) (hlt : t < n)
    (hn : start.Moment ms n v) :
    ¬v.Waits c q.id ∧ ¬v.Answered c q.id ∧
      ∀ {r' q'}, v.request? r' = some (c, q') → q'.id ≠ q.id := by
  obtain ⟨x, hx⟩ := hn.exists_le hlt
  obtain ⟨m, hm', hmove⟩ := hu.step hx
  cases hm.symm.trans hm'
  obtain ⟨a, ha, -, hnot, hanswers, hrequests⟩ :=
    Moment.keeps hx hn hlt (fun hdeal => hdeal.vanished) (hr.vanished (h.tidy_at hu) hmove)
  refine ⟨?_, ?_, hrequests⟩
  · rintro ⟨b, hb, hwaits⟩
    cases ha.symm.trans hb
    exact hnot hwaits
  · rintro ⟨b, answer, hb, hp⟩
    cases ha.symm.trans hb
    exact hanswers answer hp

/-- Whatever moves are made, requests and responses match. -/
theorem Unasked.matching (h : start.Unasked) (ms : List Move) : start.Matching ms where
  value hu _ hr := by
    obtain ⟨g, i, j, message, hregisters, hreceives, hg, hj, hresult⟩ :=
      h.answered hu hr (.inl ⟨_, rfl⟩)
    exact ⟨g, i, j, message, hregisters, hreceives, hg, hj, Request.value_of_result hresult⟩
  refusal hu _ hr := by
    obtain ⟨g, i, j, message, hregisters, hreceives, hg, hj, hresult⟩ :=
      h.answered hu hr (.inr ⟨_, rfl⟩)
    obtain ⟨error, herror⟩ := Request.refusal_of_result hresult
    exact ⟨g, i, j, message, error, hregisters, hreceives, hg, hj, herror⟩
  own {n k u v r r' c q q'} hn hk hq hq' hid := by
    rcases Nat.le_total n k with hle | hle
    · exact h.own hn hk hle hq hq' hid
    · exact (h.own hk hn hle hq' hq hid.symm).symm
  completion hc := by
    obtain ⟨u, v, result, hu, hv, hm, hhands, hwaits⟩ := hc.hand
    obtain ⟨i, message, hreceives, -⟩ := h.receives hu hv hm hhands
    exact ⟨⟨u, hu, hwaits⟩, i, message, hreceives⟩
  single hc hc' := hc.eq_of_same hc'
  handed hr hr' := Nat.le_antisymm (hr'.hand_le hr) (hr.hand_le hr')
  once hc hc' := hc.unique hc' h
  idle hu hv hm hhands hnot := by
    obtain ⟨m, hm', hmove⟩ := hu.step hv
    cases hm.symm.trans hm'
    exact hand_idle hmove hhands hnot
  known hn hw := h.registered hn hw
  answered hc hlt hn := hc.not_waits h hlt hn
  late hn _ _ ha := Client.forget_answer ((h.tidy_at hn).clients ha) _ _
  gone hu hm hr hlt hn := h.gone hu hm hr hlt hn

end World

/-! ## A trial -/

/-- The result of a piece, if it has one. -/
def Progress.result? {ω σ α : Type} : Progress ω σ α → Option α
  | .finished _ result => some result
  | _ => none

/-- Why a request has no value. -/
def RequestFailure.of? : RequestResult → Option RequestFailure
  | .ok _ => none
  | .error why => some why

namespace World

/-- The request of an activity that comes to its end when the activity runs, and its result. -/
def returned? (w : World) (r : Runner) : Option (Nat × Request × RequestResult) := do
  let p ← w.request? r
  let a ← w.clients[p.1]?
  let result ← (p.2.step w.now a).result?
  if w.letsGo r then none else some (p.1, p.2, result)

/-- What is returned is computed from the world. -/
theorem returns_of_returned? {w : World} {r : Runner} {c : Nat} {q : Request}
    {result : RequestResult} (h : w.returned? r = some (c, q, result)) :
    w.Returns r c q result := by
  simp only [returned?, Option.bind_eq_bind, Option.bind_eq_some_iff] at h
  obtain ⟨⟨c', q'⟩, hq, a, ha, result', hresult, h⟩ := h
  split at h <;> cases h
  rename_i hlets
  cases hstep : q'.step w.now a with
  | blocked => simp [hstep, Progress.result?] at hresult
  | going _ _ => simp [hstep, Progress.result?] at hresult
  | finished b result' =>
    obtain rfl : result' = result := by simpa [hstep, Progress.result?] using hresult
    exact ⟨hq, by simpa using hlets, a, b, ha, hstep⟩

/-- In a fresh world nobody has been asked. -/
theorem Fresh.unasked {w : World} (h : w.Fresh) : w.Unasked where
  requests r := by cases r <;> simp [request?, h.calls, h.watches]
  clients := by simp [h.clients]

/-- After `n` moves, the next piece of an activity ends its request, with a value or because of
something, as one sees when the moves are made. -/
def Trial.ends (ms : List Move) (n : Nat) (r : Runner) (why : Option RequestFailure) : Bool :=
  (Trial.start.play? (ms.take n)).any fun u =>
    (u.returned? r).any fun x => x.1 == 0 && RequestFailure.of? x.2.2 == why

theorem Trial.exists_returns {ms : List Move} {n : Nat} {r : Runner} {why : Option RequestFailure}
    (hn : n ≤ ms.length) (h : Trial.ends ms n r why = true) :
    ∃ u q result, Trial.start.Moment ms n u ∧ u.Returns r 0 q result ∧
      RequestFailure.of? result = why := by
  obtain ⟨u, hu, h⟩ := (Option.any_eq_true _ _).1 h
  obtain ⟨⟨c, q, result⟩, hr, h⟩ := (Option.any_eq_true _ _).1 h
  simp only [Bool.and_eq_true, beq_iff_eq] at h
  obtain ⟨rfl, hwhy⟩ := h
  exact ⟨u, q, result, ⟨hn, hu⟩, returns_of_returned? hr, hwhy⟩

theorem Trial.exists_failure {ms : List Move} {n : Nat} {r : Runner} {why : RequestFailure}
    (hn : n ≤ ms.length) (h : Trial.ends ms n r (some why) = true) :
    ∃ u q, Trial.start.Moment ms n u ∧ u.Returns r 0 q (.error why) := by
  obtain ⟨u, q, result, hu, hr, hwhy⟩ := exists_returns hn h
  cases result with
  | ok v => cases hwhy
  | error why' => exact ⟨u, q, hu, Option.some.inj hwhy ▸ hr⟩

/-- Two callers ask the client of a running session for its version, one of them in a hurry.  The
server has an error for the second one, and is too late for the first one. -/
def Trial.crowded : List Move :=
  Trial.launching ++ Trial.connecting ++
    [.ask (.askVersion 0 (.ofSeconds 1)), .ask (.askVersion 0 (.ofSeconds 9)),
      .run (.call 1), .run (.call 2), .run (.call 1), .run (.call 2), .run (.call 1),
      .run (.call 2),
      Trial.message "\x7b\"id\":4,\"error\":null\x7d", .run (.reading 0), .run (.reading 0),
      .elapse (Duration.ofSeconds 2).nanos, .run (.call 1), Trial.message "\x7b\"id\":3\x7d",
      .run (.reading 0), .run (.call 1), .run (.reading 0), .run (.call 2)]

/-- A start has its version, and of the two callers one gives up and one is refused. -/
theorem matching_trial :
    Trial.start.Matching Trial.crowded ∧
      (∃ u q v, Trial.start.Moment Trial.crowded 28 u ∧ u.Returns (.call 0) 0 q (.ok v)) ∧
      (∃ u q, Trial.start.Moment Trial.crowded 45 u ∧
        u.Returns (.call 1) 0 q (.error (.timedOut .getVersion))) ∧
      ∃ u q, Trial.start.Moment Trial.crowded 47 u ∧
        u.Returns (.call 2) 0 q (.error (.refused .malformed)) := by
  have hends : Trial.ends Trial.crowded 28 (.call 0) none = true ∧
      Trial.ends Trial.crowded 45 (.call 1) (some (.timedOut .getVersion)) = true ∧
      Trial.ends Trial.crowded 47 (.call 2) (some (.refused .malformed)) = true := by
    decide +kernel
  obtain ⟨hvalue, hlate, hrefused⟩ := hends
  refine ⟨Unasked.matching Trial.fresh_start.unasked _, ?_,
    Trial.exists_failure (by decide) hlate, Trial.exists_failure (by decide) hrefused⟩
  obtain ⟨u, q, result, hu, hr, hwhy⟩ := Trial.exists_returns (by decide) hvalue
  cases result with
  | ok v => exact ⟨u, q, v, hu, hr⟩
  | error why => cases hwhy

end World

end SessionHost
