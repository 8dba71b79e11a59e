import SessionHost.Proofs.Requests.Matching

/-!
# Requests on an ended stream

When its stream ends, a client's reading activity empties the table of waiting requests, once.  The
requests that it takes out are over, whatever their time.  A request that is registered afterwards
is put into the table all the same, and nothing but its own activity takes it out again: it is over
at once only if the writing activity refuses its message, and waits for its time otherwise.

Main definitions:

- `Request.Goes`: how a request goes on.
- `World.Clears`: a move empties the table of a client.
- `World.Refuses`, `World.Expires`: the message of a request is refused; its time is over.
- `World.Cleared`: what becomes of the requests of a client whose table has been emptied.

Main results:

- Theorem `World.Unasked.passage`: how the place of a request tells what it has been through.
- Theorem `World.Unasked.cleared`: what becomes of the requests of a client whose table has been
  emptied.
-/

namespace SessionHost

open Json (Value)
open Rpc (ResponseError)

/-! ## How requests go on -/

/-- How a request goes on in a piece. -/
inductive Request.Goes (q : Request) (now : Nat) (a : Client) : Client → Request → Prop where
  | register (h : q.place = .registering) : Goes q now a (a.await q.id) { q with place := .posting }
  | post {b : Client} (h : q.place = .posting)
      (hb : a.post (.message (Rpc.requestMessage q.id q.method q.params)) = .taken b) :
      Goes q now a b { q with place := .awaiting (now + q.timeout.nanos) }
  | refuse (h : q.place = .posting) (ha : a.writing.isOver = true) :
      Goes q now a a { q with place := .withdrawing .closed }
  | expire {deadline : Nat} (h : q.place = .awaiting deadline) (hw : q.id ∈ a.waiting)
      (hle : deadline ≤ now) : Goes q now a a { q with place := .withdrawing (.timedOut q.method) }

/-- The reading activity does nothing more but tell that the stream has ended. -/
def Client.Quiet (a : Client) : Prop := a.reading = .closing ∨ a.reading = .over

/-- A request goes on in one of the ways listed. -/
theorem Request.goes {q q' : Request} {now : Nat} {a b : Client}
    (h : q.step now a = .going b q') : q.Goes now a b q' := by
  have hpiece := q.step_piece now a
  rw [h] at hpiece
  cases hpiece with
  | register hplace => exact .register hplace
  | post hplace hpost => exact .post hplace hpost
  | refuse hplace hover => exact .refuse hplace hover
  | expire hplace _ hwaits hle => exact .expire hplace hwaits hle

/-- A request that has left the table is held up by nothing but a full writing activity. -/
theorem Request.full_of_blocked {q : Request} {now : Nat} {a : Client}
    (hnot : q.id ∉ a.waiting) (h : q.step now a = .blocked) :
    a.writing.isOver = false ∧ Client.outboxRoom ≤ a.outbox.length := by
  have hpiece := q.step_piece now a
  rw [h] at hpiece
  cases hpiece with
  | full _ hwrites hroom => exact ⟨hwrites, hroom⟩
  | wait _ _ hwaits => exact absurd hwaits hnot

/-- A request that waits without an answer waits for its time. -/
theorem Request.blocked_iff_of_waits {q : Request} {now deadline : Nat} {a : Client}
    (hplace : q.place = .awaiting deadline) (hw : q.id ∈ a.waiting)
    (hanswers : ∀ answer, (q.id, answer) ∉ a.answers) :
    q.step now a = .blocked ↔ now < deadline := by
  have hnone : a.answerTo? q.id = none :=
    Option.eq_none_iff_forall_not_mem.2 fun answer h =>
      hanswers answer (Client.mem_answers_of_answerTo? h)
  rw [step, hplace]
  simp only [hnone, hw, not_true_eq_false, if_false]
  split
  · rename_i hle
    exact ⟨fun h => (by cases h), fun h => absurd hle (Nat.not_le.2 h)⟩
  · rename_i hle
    exact ⟨fun _ => Nat.not_le.1 hle, fun _ => rfl⟩

/-- The last piece of a reading activity. -/
theorem Client.over_of_read? {a b : Client} {k k' : Connection} (h : a.read? k = some (b, k'))
    (ha : a.Quiet) : b.reading = .over := by
  cases read?_piece h with
  | close hr | dropClose hr => rfl
  | finish hr | gather hr | take hr | fail hr | answer hr | reply hr | dropReply hr | signal hr
  | dropSignal hr | forget hr =>
    rw [Quiet, hr] at ha
    rcases ha with hreading | hreading <;> cases hreading

namespace World

/-! ## Tables that are emptied -/

variable (start : World) (ms : List Move)

/-- The move `k` empties the table of a client, whose stream has ended. -/
def Clears (k c : Nat) : Prop :=
  ∃ u v a, start.Moment ms k u ∧ start.Moment ms (k + 1) v ∧ ms[k]? = some (.run (.reading c)) ∧
    u.clients[c]? = some a ∧ a.reading = .forgetting

/-- At the move `p`, an activity with the message of its request in hand finds the writing activity
over. -/
def Refuses (p : Nat) (r : Runner) (c id : Nat) : Prop :=
  ∃ u q a, start.Moment ms p u ∧ ms[p]? = some (.run r) ∧ u.letsGo r = false ∧
    u.request? r = some (c, q) ∧ q.id = id ∧ q.place = .posting ∧ u.clients[c]? = some a ∧
    a.writing.isOver = true

/-- At the move `p`, an activity hands the message of its request over, which is then to wait up to
a deadline. -/
def Posts (p : Nat) (r : Runner) (c id deadline : Nat) : Prop :=
  ∃ u q a b, start.Moment ms p u ∧ ms[p]? = some (.run r) ∧ u.letsGo r = false ∧
    u.request? r = some (c, q) ∧ q.id = id ∧ q.place = .posting ∧ u.clients[c]? = some a ∧
    a.post (.message (Rpc.requestMessage q.id q.method q.params)) = .taken b ∧
    deadline = u.now + q.timeout.nanos

/-- Before the move `n`, the message of a request was handed over, and its deadline has come. -/
def Expires (n : Nat) (r : Runner) (c id : Nat) : Prop :=
  ∃ p e deadline u, p < e ∧ e < n ∧ start.Posts ms p r c id deadline ∧ start.Moment ms e u ∧
    deadline ≤ u.now

/-- What becomes of the requests of a client whose table the move `k` has emptied. -/
structure Cleared (k c : Nat) : Prop where
  /-- The table is emptied once. -/
  once : ∀ {j}, start.Clears ms j c → j = k
  /-- Nothing is read any more. -/
  quiet : ∀ {n u a}, k < n → start.Moment ms n u → u.clients[c]? = some a →
    a.reading = .closing ∨ a.reading = .over
  /-- A request that was waiting, and had not given up, does not wait any longer: it is held up by
  nothing but a full writing activity, whatever the time, and ends with the news that the connection
  is closed. -/
  outstanding : ∀ {x r q n u q'}, start.Moment ms k x → x.request? r = some (c, q) →
    x.Waits c q.id → (∀ why, q.place ≠ .withdrawing why) → k < n → start.Moment ms n u →
    u.request? r = some (c, q') → q'.id = q.id →
    ¬u.Waits c q.id ∧ (∀ {result}, u.Returns r c q' result → result = .error .closed) ∧
      ∀ {now a}, u.clients[c]? = some a → q'.step now a = .blocked →
        a.writing.isOver = false ∧ Client.outboxRoom ≤ a.outbox.length
  /-- What waits has been registered since. -/
  waits : ∀ {n u id}, k < n → start.Moment ms n u → u.Waits c id →
    ∃ g r, k < g ∧ g < n ∧ start.Registers ms g r c id
  /-- A request under way waits if and only if it has been registered since. -/
  waits_iff : ∀ {n u r q}, k < n → start.Moment ms n u → u.request? r = some (c, q) →
    (u.Waits c q.id ↔ ∃ g, k < g ∧ g < n ∧ start.Registers ms g r c q.id)
  /-- Such a request waits for its time, once its message has been handed over. -/
  timer : ∀ {n u r q a deadline}, k < n → start.Moment ms n u → u.request? r = some (c, q) →
    u.Waits c q.id → q.place = .awaiting deadline → u.clients[c]? = some a →
    (q.step u.now a = .blocked ↔ u.now < deadline)
  /-- It is closed if the writing activity has refused its message, and otherwise it times out,
  after its message has been handed over and its time has passed. -/
  later : ∀ {n u r q g result}, start.Moment ms n u → u.Returns r c q result → k < g → g < n →
    start.Registers ms g r c q.id →
    (result = .error .closed ∧ ∃ p < n, start.Refuses ms p r c q.id) ∨
      (result = .error (.timedOut q.method) ∧ (∀ p < n, ¬start.Refuses ms p r c q.id) ∧
        start.Expires ms n r c q.id)

/-- How the place of a request at the moment `n` tells what it has been through. -/
structure Passage (n : Nat) (r : Runner) (c : Nat) (q : Request) : Prop where
  unrefused : q.place ≠ .withdrawing .closed → ∀ p < n, ¬start.Refuses ms p r c q.id
  awaiting : ∀ {deadline}, q.place = .awaiting deadline →
    ∃ p < n, start.Posts ms p r c q.id deadline
  withdrawing : ∀ {why}, q.place = .withdrawing why →
    (why = .closed ∧ ∃ p < n, start.Refuses ms p r c q.id) ∨
      (why = .timedOut q.method ∧ start.Expires ms n r c q.id)

end World

/-! ## The passage of a request -/

namespace World

variable {start w v u : World} {ms : List Move} {m : Move} {r : Runner} {n k p c id : Nat}
  {a b : Client} {q q₀ : Request}

/-- An activity that still has its request has made it go on. -/
theorem Deal.polled (h : Deal (.run r) w v) (hq₀ : w.request? r = some (c, q₀))
    (hq : v.request? r = some (c, q)) :
    w.letsGo r = false ∧ ∃ a b d, w.clients[c]? = some a ∧ q₀.Goes w.now a b q ∧
      v.clients[c]? = some d ∧ b.Agrees d := by
  cases h with
  | aside hm _ _ => exact absurd rfl (hm r)
  | read hm _ _ _ _ _ =>
    cases hm
    cases hq₀
  | write hm _ _ _ _ =>
    cases hm
    cases hq₀
  | @run r' hm _ hdeal _ =>
    cases hm
    rw [hq₀, hq] at hdeal
    generalize hs : some (c, q₀) = s at hdeal
    generalize hs' : some (c, q) = s' at hdeal
    cases hdeal with
    | rest _ | begin _ _ _ _ _ _ => cases hs
    | letGo _ _ => cases hs'
    | poll he hpolls hy hlets =>
      cases hs
      cases hpolls with
      | going hstep =>
        cases hs'
        obtain ⟨d, hd, hagrees⟩ := hy.old (getElem?_set_at he _)
        exact ⟨hlets, _, _, d, he, Request.goes hstep, hd, hagrees⟩
      | finish _ _ | late _ _ => cases hs'

/-- A request is refused where it cannot hand its message over. -/
theorem Refuses.cases (h : start.Refuses ms p r c id) (hu : start.Moment ms p u) :
    ms[p]? = some (.run r) ∧ ∃ q a, u.request? r = some (c, q) ∧ q.id = id ∧ q.place = .posting ∧
      u.clients[c]? = some a ∧ a.writing.isOver = true := by
  obtain ⟨u', q, a, hu', hm, -, hq, hid, hplace, ha, hover⟩ := h
  obtain rfl := hu.unique hu'
  exact ⟨hm, q, a, hq, hid, hplace, ha, hover⟩

/-- What has expired stays so. -/
theorem Expires.mono (h : start.Expires ms n r c id) (hle : n ≤ k) : start.Expires ms k r c id := by
  obtain ⟨p, e, deadline, u, hpe, hen, hrest⟩ := h
  exact ⟨p, e, deadline, u, hpe, Nat.lt_of_lt_of_le hen hle, hrest⟩

namespace Passage

/-- What an activity's request has been through is the same after a move of another activity. -/
theorem aside (h : start.Passage ms n r c q) (hu : start.Moment ms n u)
    (hm : ms[n]? ≠ some (.run r)) : start.Passage ms (n + 1) r c q where
  unrefused hnot p hp hrefuses := by
    rcases Nat.lt_succ_iff_lt_or_eq.1 hp with hlt | rfl
    · exact h.unrefused hnot p hlt hrefuses
    · exact hm (hrefuses.cases hu).1
  awaiting hplace := by
    obtain ⟨p, hp, hposts⟩ := h.awaiting hplace
    exact ⟨p, Nat.lt_succ_of_lt hp, hposts⟩
  withdrawing hplace := by
    obtain ⟨hwhy, p, hp, hrefuses⟩ | ⟨hwhy, hexpires⟩ := h.withdrawing hplace
    · exact .inl ⟨hwhy, p, Nat.lt_succ_of_lt hp, hrefuses⟩
    · exact .inr ⟨hwhy, hexpires.mono (Nat.le_succ n)⟩

/-- A request that has gone on has been through its last piece, too. -/
theorem goes (h : start.Passage ms n r c q₀) (hu : start.Moment ms n u)
    (hm : ms[n]? = some (.run r)) (hlets : u.letsGo r = false) (hq₀ : u.request? r = some (c, q₀))
    (ha : u.clients[c]? = some a) (hgoes : q₀.Goes u.now a b q) :
    start.Passage ms (n + 1) r c q := by
  -- Unless its message is refused now, it has been refused before or never.
  have hunrefused (hplace : q₀.place ≠ .withdrawing .closed)
      (hnow : q₀.place = .posting → a.writing.isOver = false) :
      ∀ p < n + 1, ¬start.Refuses ms p r c q₀.id := by
    intro p hp hrefuses
    rcases Nat.lt_succ_iff_lt_or_eq.1 hp with hlt | rfl
    · exact h.unrefused hplace p hlt hrefuses
    · obtain ⟨-, q', a', hq', -, hposting, ha', hover⟩ := hrefuses.cases hu
      cases hq₀.symm.trans hq'
      cases ha.symm.trans ha'
      rw [hnow hposting] at hover
      cases hover
  cases hgoes with
  | register hplace =>
    refine ⟨fun _ => hunrefused ?_ ?_, fun h => (by cases h), fun h => (by cases h)⟩
    · rw [hplace]
      exact fun h => by cases h
    · rw [hplace]
      exact fun h => by cases h
  | post hplace hpost =>
    refine ⟨fun _ => hunrefused ?_ fun _ => ?_, fun h => ?_, fun h => (by cases h)⟩
    · rw [hplace]
      exact fun h => by cases h
    · exact (Client.post_eq_taken hpost).2.1
    · cases h
      exact ⟨n, Nat.lt_succ_self n, u, q₀, a, b, hu, hm, hlets, hq₀, rfl, hplace, ha, hpost, rfl⟩
  | refuse hplace hover =>
    refine ⟨fun h => absurd rfl h, fun h => (by cases h), fun h => ?_⟩
    cases h
    exact .inl ⟨rfl, n, Nat.lt_succ_self n, u, q₀, a, hu, hm, hlets, hq₀, rfl, hplace, ha, hover⟩
  | expire hplace _ hle =>
    refine ⟨fun _ => hunrefused ?_ ?_, fun h => (by cases h), fun h => ?_⟩
    · rw [hplace]
      exact fun h => by cases h
    · rw [hplace]
      exact fun h => by cases h
    · cases h
      obtain ⟨p, hp, hposts⟩ := h.awaiting hplace
      exact .inr ⟨rfl, p, n, _, u, hp, Nat.lt_succ_self n, hposts, hu, hle⟩

end Passage

/-- How the place of a request tells what it has been through. -/
theorem Unasked.passage (h : start.Unasked) (hn : start.Moment ms n w)
    (hq : w.request? r = some (c, q)) : start.Passage ms n r c q := by
  induction n generalizing w q with
  | zero =>
    obtain rfl := hn.zero
    cases (h.requests r).symm.trans hq
  | succ n ih =>
    obtain ⟨u, hu⟩ := hn.pred
    obtain ⟨m, hm, hmove⟩ := hu.step hn
    have hdeal := move?_deal hmove
    obtain ⟨hother, hsame⟩ | ⟨q₀, -, -, rfl, hq₀, -⟩ | ⟨rfl, -, hplace, b, -, -, hnew⟩ :=
      hdeal.asked hq
    · exact (ih hu hsame).aside hu fun heq => hother (Option.some.inj (hm.symm.trans heq))
    · obtain ⟨hlets, a, b, -, ha, hgoes, -⟩ := hdeal.polled hq₀ hq
      exact (ih hu hq₀).goes hu hm hlets hq₀ ha hgoes
    · -- A request that is begun has an id that no request had before.
      refine ⟨fun _ p hp hrefuses => ?_, fun hawaiting => ?_, fun hwithdrawing => ?_⟩
      · obtain ⟨x, hx⟩ := hu.exists_le (Nat.le_of_lt_succ hp)
        obtain ⟨-, q', -, hq', hid, -⟩ := hrefuses.cases hx
        obtain ⟨a, ha, hlt, -⟩ := (h.tidy_at hx).begun hq'
        have howned : x.Owned r c q'.id :=
          ⟨a, ha, hlt, fun hq₀ heq => (h.tidy_at hx).apart hq₀ hq' heq⟩
        obtain ⟨d, hd, hlt', -⟩ :=
          hx.keeps hu (Nat.le_of_lt_succ hp) (fun hdeal => hdeal.owned) howned
        exact Nat.ne_of_lt hlt' (hid.trans (hnew d hd).1)
      · cases hplace.symm.trans hawaiting
      · cases hplace.symm.trans hwithdrawing

/-! ## Requests that were waiting -/

/-- A request that has left the table without an answer, and can only end with the news that the
connection is closed. -/
def Cut (c id : Nat) (w : World) : Prop :=
  ∃ a, w.clients[c]? = some a ∧ id < a.nextId ∧ id ∉ a.waiting ∧
    (∀ result, (id, result) ∉ a.answers) ∧ ∀ {r q}, w.request? r = some (c, q) → q.id = id →
      q.place ≠ .registering ∧ ∀ why, q.place = .withdrawing why → why = .closed

/-- A request that was cut off stays so. -/
theorem Deal.cut (h : Deal m w v) (hs : w.Cut c id) : v.Cut c id := by
  obtain ⟨a, ha, hlt, hnot, hanswers, hplaces⟩ := hs
  obtain ⟨b, hb, hshift⟩ := h.shift ha
  refine ⟨b, hb, Nat.lt_of_lt_of_le hlt hshift.nextId_le, fun hwaits => ?_, fun result hp => ?_,
    fun {r q} hq hid => ?_⟩
  · obtain hold | ⟨r, q, -, hq, hreg, hid⟩ := hshift.waiting hwaits
    · exact hnot hold
    · exact (hplaces hq hid).1 hreg
  · obtain hold | ⟨-, -, hwaits⟩ := hshift.answers hp
    · exact hanswers result hold
    · exact hnot hwaits
  · obtain ⟨-, hsame⟩ | ⟨q₀, -, -, rfl, hq₀, -⟩ | ⟨-, -, -, b, -, -, hnew⟩ := h.asked hq
    · exact hplaces hsame hid
    · obtain ⟨-, a', b', d, ha', hgoes, -⟩ := h.polled hq₀ hq
      cases ha.symm.trans ha'
      cases hgoes with
      | register hplace => exact absurd hplace (hplaces hq₀ hid).1
      | post _ _ => exact ⟨fun h => (by cases h), fun why h => by cases h⟩
      | refuse _ _ =>
        exact ⟨fun h => (by cases h), fun why h => (RequestPlace.withdrawing.inj h).symm⟩
      | expire _ hwaits _ => exact absurd (hid ▸ hwaits) hnot
    · exact absurd (hid.symm.trans (hnew a ha).1) (Nat.ne_of_lt hlt)

/-! ## Requests that come later -/

/-- A move leaves a quiet client quiet.  It answers no request, and takes at most the one out of the
table that the activity that runs has under way. -/
theorem quiet_shift (h : w.move? m = some v) (ha : w.clients[c]? = some a) (hquiet : a.Quiet) :
    ∃ b, v.clients[c]? = some b ∧ b.Quiet ∧ a.nextId ≤ b.nextId ∧
      (∀ p ∈ b.answers, p ∈ a.answers) ∧ ∀ id ∈ a.waiting, id ∈ b.waiting ∨
        ∃ r q, m = .run r ∧ w.request? r = some (c, q) ∧ q.id = id := by
  obtain ⟨b, hb, hshift⟩ := (move?_deal h).shift ha
  have hagrees {d : Client} (hd : d.Agrees b) (hreading : d.reading = a.reading) : b.Quiet := by
    obtain heq | hover := hd.reading
    · rw [Client.Quiet, heq, hreading]
      exact hquiet
    · exact .inr hover
  refine ⟨b, hb, ?_, hshift.nextId_le, ?_, ?_⟩
  · cases hshift with
    | agree h => exact hagrees h rfl
    | begin h => exact hagrees h rfl
    | register _ _ _ h => exact hagrees h rfl
    | forget _ _ h => exact hagrees h rfl
    | read hm _ _ =>
      subst hm
      obtain ⟨a', k, b', k', ha', -, hread, rfl⟩ := onWire?_cases h
      cases ha.symm.trans ha'
      cases hb.symm.trans (getElem?_set_at ha b')
      exact .inr (Client.over_of_read? hread hquiet)
    | write _ h =>
      rw [Client.Quiet, (Client.write?_spares h).2.2.2]
      exact hquiet
  · rintro ⟨id, result⟩ hp
    obtain hold | ⟨-, hreading, -⟩ := hshift.answers hp
    · exact hold
    · obtain hclosing | hover := hquiet
      · cases hclosing.symm.trans hreading
      · cases hover.symm.trans hreading
  · intro id hid
    cases hshift with
    | agree h => exact .inl (h.waiting ▸ hid)
    | begin h => exact .inl (h.waiting ▸ hid)
    | register _ _ _ h =>
      rw [h.waiting]
      exact .inl (List.mem_append_left _ hid)
    | @forget r q hm hq h =>
      by_cases heq : q.id = id
      · exact .inr ⟨r, q, hm, hq, heq⟩
      · rw [h.waiting]
        exact .inl ((List.mem_erase_of_ne (Ne.symm heq)).2 hid)
    | read _ _ h =>
      have hnot {r : Reading} (hr : a.reading = r) (hne : r ≠ .closing) (hne' : r ≠ .over) :
          id ∈ b.waiting := by
        obtain hclosing | hover := hquiet
        · exact absurd (hr.symm.trans hclosing) hne
        · exact absurd (hr.symm.trans hover) hne'
      cases h with
      | answer hr => exact .inl (hnot hr (fun h => by cases h) fun h => by cases h)
      | forget hr => exact .inl (hnot hr (fun h => by cases h) fun h => by cases h)
      | take hr _ => exact .inl (hnot hr (fun h => by cases h) fun h => by cases h)
      | other _ hw _ _ _ => exact .inl (hw ▸ hid)
    | write _ h => exact .inl ((Client.write?_spares h).2.1 ▸ hid)

/-- A request of a quiet client that waits as long as its activity has it under way, and has no
answer. -/
def Lingers (c id : Nat) (w : World) : Prop :=
  ∃ a, w.clients[c]? = some a ∧ a.Quiet ∧ id < a.nextId ∧ (∀ result, (id, result) ∉ a.answers) ∧
    ∀ {r q}, w.request? r = some (c, q) → q.id = id → id ∈ a.waiting

/-- A request that lingers goes on to do so. -/
theorem Lingers.move? (hs : w.Lingers c id) (ht : w.Tidy) (h : w.move? m = some v) :
    v.Lingers c id := by
  obtain ⟨a, ha, hquiet, hlt, hanswers, hwaits⟩ := hs
  obtain ⟨b, hb, hquiet', hle, hfewer, hkept⟩ := quiet_shift h ha hquiet
  refine ⟨b, hb, hquiet', Nat.lt_of_lt_of_le hlt hle,
    fun result hp => hanswers result (hfewer _ hp), fun {r q} hq hid => ?_⟩
  have hdeal := move?_deal h
  obtain ⟨hother, hsame⟩ | ⟨q₀, -, -, rfl, hq₀, -⟩ | ⟨-, -, -, b, -, -, hnew⟩ := hdeal.asked hq
  · obtain hstays | ⟨r', q', hm, hq', hid'⟩ := hkept id (hwaits hsame hid)
    · exact hstays
    · exact absurd (ht.apart hq' hsame (hid'.trans hid.symm) ▸ hm) hother
  · obtain ⟨-, a', b', d, ha', hgoes, hd, hagrees⟩ := hdeal.polled hq₀ hq
    cases ha.symm.trans ha'
    cases hb.symm.trans hd
    rw [hagrees.waiting]
    cases hgoes with
    | register _ => exact List.mem_append_left _ (hwaits hq₀ hid)
    | post _ hpost => exact (Client.Agrees.of_post hpost).waiting ▸ hwaits hq₀ hid
    | refuse _ _ => exact hwaits hq₀ hid
    | expire _ _ _ => exact hwaits hq₀ hid
  · exact absurd (hid.symm.trans (hnew a ha).1) (Nat.ne_of_lt hlt)

/-! ## After the table has been emptied -/

/-- The move that empties a table does nothing else. -/
theorem Clears.cases (h : start.Clears ms k c) :
    ∃ u v a, start.Moment ms k u ∧ start.Moment ms (k + 1) v ∧ u.clients[c]? = some a ∧
      v.clients[c]? = some { a.forgetAll with reading := .closing } ∧
      ∀ r, v.request? r = u.request? r := by
  obtain ⟨u, v, a, hu, hv, hm, ha, hreading⟩ := h
  obtain ⟨m, hm', hmove⟩ := hu.step hv
  cases hm.symm.trans hm'
  obtain ⟨a', k', b, k'', ha', -, hread, rfl⟩ := onWire?_cases hmove
  cases ha.symm.trans ha'
  simp only [Client.read?, hreading, Option.some.injEq, Prod.mk.injEq] at hread
  obtain ⟨rfl, rfl⟩ := hread
  exact ⟨u, _, a, hu, hv, ha, getElem?_set_at ha _, request?_of_ledger rfl rfl⟩

/-- The reading activity has nothing more to read. -/
theorem Clears.quiet (h : start.Clears ms k c) (hlt : k < n) (hn : start.Moment ms n w) :
    ∃ a, w.clients[c]? = some a ∧ a.Quiet := by
  obtain ⟨-, v, a, -, hv, -, hb, -⟩ := h.cases
  refine play?_induction (P := fun w => ∃ a, w.clients[c]? = some a ∧ a.Quiet) (hv.play hn hlt)
    (fun _ hmove => ?_) ⟨_, hb, .inl rfl⟩
  rintro ⟨a, ha, hquiet⟩
  obtain ⟨b, hb, hquiet', -⟩ := quiet_shift hmove ha hquiet
  exact ⟨b, hb, hquiet'⟩

/-- A request that was waiting is cut off. -/
theorem Clears.cut (h : start.Clears ms k c) (hs : start.Unasked) {x : World}
    (hx : start.Moment ms k x) (hq : x.request? r = some (c, q)) (hw : x.Waits c q.id)
    (hplace : ∀ why, q.place ≠ .withdrawing why) (hlt : k < n) (hn : start.Moment ms n w) :
    w.Cut c q.id := by
  obtain ⟨u, v, a, hu, hv, ha, hb, hsame⟩ := h.cases
  obtain rfl := hx.unique hu
  have ht := hs.tidy_at hx
  have hwaits : q.id ∈ a.waiting := by
    obtain ⟨a', ha', hid⟩ := hw
    cases ha.symm.trans ha'
    exact hid
  refine hv.keeps hn hlt (fun hdeal => hdeal.cut) ⟨_, hb, (ht.clients ha).waiting q.id hwaits,
    List.not_mem_nil, fun result hp => hs.not_waits_of_answers hx ha hp hw, ?_⟩
  intro r' q' hq' hid
  rw [hsame] at hq'
  obtain rfl := ht.apart hq' hq hid
  cases hq.symm.trans hq'
  obtain ⟨a', ha', -, hnot⟩ := ht.begun hq
  cases ha.symm.trans ha'
  exact ⟨fun hreg => hnot hreg hwaits, fun why hwhy => absurd hwhy (hplace why)⟩

/-- A request that is registered afterwards lingers. -/
theorem Clears.lingers (h : start.Clears ms k c) (hs : start.Unasked) {g : Nat} (hkg : k < g)
    (hg : start.Registers ms g r c id) (hgn : g < n) (hn : start.Moment ms n w) :
    w.Lingers c id := by
  obtain ⟨u, v, q, hu, hv, hm, hq, hid, hnot, hw⟩ := hg
  obtain ⟨a, ha, hquiet⟩ := h.quiet (Nat.lt_succ_of_lt hkg) hv
  have ht := hs.tidy_at hv
  have hwaits : id ∈ a.waiting := by
    obtain ⟨a', ha', hid⟩ := hw
    cases ha.symm.trans ha'
    exact hid
  refine (play?_induction (P := fun w => w.Tidy ∧ w.Lingers c id) (hv.play hn hgn)
    (fun _ hmove ⟨ht, hlingers⟩ => ⟨(move?_deal hmove).tidy ht, hlingers.move? ht hmove⟩)
    ⟨ht, a, ha, hquiet, (ht.clients ha).waiting id hwaits, fun result hp =>
      hs.not_waits_of_answers hv ha hp hw, fun _ _ => hwaits⟩).2

/-- What waits has been registered since. -/
theorem Clears.registered (h : start.Clears ms k c) (hlt : k < n) (hn : start.Moment ms n w)
    (hw : w.Waits c id) : ∃ g r, k < g ∧ g < n ∧ start.Registers ms g r c id := by
  obtain ⟨-, v, a, -, hv, -, hb, -⟩ := h.cases
  have hnot : ¬v.Waits c id := by
    rintro ⟨b, hb', hid⟩
    cases hb.symm.trans hb'
    cases hid
  exact registered_since hv hnot hlt hn hw

/-- A request whose client has no answer for it ends without one. -/
theorem Returns.unanswered {result : RequestResult} (hr : w.Returns r c q result)
    (ha : w.clients[c]? = some a) (hanswers : ∀ answer, (q.id, answer) ∉ a.answers) :
    (q.id ∉ a.waiting ∧ result = .error .closed) ∨
      ∃ why, q.place = .withdrawing why ∧ result = .error why := by
  obtain ⟨-, -, a', b, ha', hstep⟩ := hr
  cases ha.symm.trans ha'
  obtain ⟨answer, hanswer, -, -⟩ | ⟨-, hnot, -, hresult⟩ | ⟨why, hplace, -, hresult⟩ :=
    Request.finished_cases hstep
  · exact absurd (Client.mem_answers_of_answerTo? hanswer) (hanswers answer)
  · exact .inl ⟨hnot, hresult⟩
  · exact .inr ⟨why, hplace, hresult⟩

/-- The table is emptied once. -/
theorem Clears.not_again {j : Nat} (h : start.Clears ms k c) (h' : start.Clears ms j c) :
    ¬k < j := by
  intro hlt
  obtain ⟨u, -, a, hu, -, -, ha, hreading⟩ := h'
  obtain ⟨a', ha', hquiet⟩ := h.quiet hlt hu
  cases ha.symm.trans ha'
  obtain hclosing | hover := hquiet
  · cases hclosing.symm.trans hreading
  · cases hover.symm.trans hreading

/-- What becomes of the requests of a client whose table has been emptied. -/
theorem Unasked.cleared (hs : start.Unasked) (h : start.Clears ms k c) :
    start.Cleared ms k c where
  once {j} hj := by
    have hnot := h.not_again hj
    have hnot' := hj.not_again h
    omega
  quiet hlt hn ha := by
    obtain ⟨a', ha', hquiet⟩ := h.quiet hlt hn
    cases ha.symm.trans ha'
    exact hquiet
  outstanding hx hq hw hplace hlt hn hq' hid := by
    obtain ⟨a, ha, -, hnot, hanswers, hplaces⟩ := h.cut hs hx hq hw hplace hlt hn
    refine ⟨?_, fun hr => ?_, fun ha' hblocked => ?_⟩
    · rintro ⟨a', ha', hwaits⟩
      cases ha.symm.trans ha'
      exact hnot hwaits
    · obtain ⟨-, hresult⟩ | ⟨why, hwhy, hresult⟩ := hr.unanswered ha (hid ▸ hanswers)
      · exact hresult
      · rw [hresult, (hplaces hq' hid).2 why hwhy]
    · cases ha.symm.trans ha'
      exact Request.full_of_blocked (hid ▸ hnot) hblocked
  waits hlt hn hw := h.registered hlt hn hw
  waits_iff hlt hn hq := by
    constructor
    · intro hw
      obtain ⟨g, r', hkg, hgn, hregisters⟩ := h.registered hlt hn hw
      obtain ⟨x, -, q', hx, -, -, hq', hid, -⟩ := id hregisters
      obtain rfl := hs.own hx hn (Nat.le_of_lt hgn) hq' hq hid
      exact ⟨g, hkg, hgn, hregisters⟩
    · rintro ⟨g, hkg, hgn, hregisters⟩
      obtain ⟨a, ha, -, -, -, hwaits⟩ := h.lingers hs hkg hregisters hgn hn
      exact ⟨a, ha, hwaits hq rfl⟩
  timer hlt hn hq hw hplace ha := by
    obtain ⟨g, r', hkg, hgn, hregisters⟩ := h.registered hlt hn hw
    obtain ⟨a', ha', -, -, hanswers, hwaits⟩ := h.lingers hs hkg hregisters hgn hn
    cases ha.symm.trans ha'
    exact Request.blocked_iff_of_waits hplace (hwaits hq rfl) hanswers
  later hn hr hkg hgn hg := by
    obtain ⟨a, ha, -, -, hanswers, hwaits⟩ := h.lingers hs hkg hg hgn hn
    have hpassage := hs.passage hn hr.1
    obtain ⟨hnot, -⟩ | ⟨why, hwhy, rfl⟩ := hr.unanswered ha hanswers
    · exact absurd (hwaits hr.1 rfl) hnot
    · obtain ⟨rfl, hrefused⟩ | ⟨rfl, hexpires⟩ := hpassage.withdrawing hwhy
      · exact .inl ⟨rfl, hrefused⟩
      · refine .inr ⟨rfl, hpassage.unrefused fun heq => ?_, hexpires⟩
        cases hwhy.symm.trans heq

end World

/-! ## A trial -/

/-- The reading activity is about to empty the table of waiting requests. -/
def Reading.isForgetting : Reading → Bool
  | .forgetting => true
  | _ => false

namespace World

/-- Three callers ask the client of a running session for its version, and the server drops the
connection when the first of them waits.  The second one asks before the writing activity has seen
this, and the third one afterwards. -/
def Trial.severed : List Move :=
  Trial.launching ++ Trial.connecting ++
    [.ask (.askVersion 0 (.ofSeconds 9)), .ask (.askVersion 0 (.ofSeconds 1)),
      .ask (.askVersion 0 (.ofSeconds 9)), .run (.call 1), .run (.call 1), .run (.call 1),
      .sever 0, .run (.reading 0), .run (.reading 0), .run (.call 1),
      .run (.call 2), .run (.call 2), .run (.call 2), .run (.writing 0), .run (.writing 0),
      .run (.call 3), .run (.call 3), .run (.call 3), .run (.call 3),
      .elapse (Duration.ofSeconds 2).nanos, .run (.call 2), .run (.call 2)]

/-- The move `k` empties the table of a client, as one sees when the moves are made. -/
def Trial.empties (ms : List Move) (k c : Nat) : Bool :=
  ((Trial.start.play? (ms.take k)).any fun u => u.clients[c]?.any (·.reading.isForgetting)) &&
    (Trial.start.play? (ms.take (k + 1))).isSome

theorem Trial.clears {ms : List Move} {k c : Nat} (hk : k < ms.length)
    (hm : ms[k]? = some (.run (.reading c))) (h : Trial.empties ms k c = true) :
    Trial.start.Clears ms k c := by
  obtain ⟨hforgetting, hnext⟩ := Bool.and_eq_true_iff.1 h
  obtain ⟨u, hu, hforgetting⟩ := (Option.any_eq_true _ _).1 hforgetting
  obtain ⟨a, ha, hforgetting⟩ := (Option.any_eq_true _ _).1 hforgetting
  obtain ⟨v, hv⟩ := Option.isSome_iff_exists.1 hnext
  refine ⟨u, v, a, ⟨Nat.le_of_lt hk, hu⟩, ⟨hk, hv⟩, hm, ha, ?_⟩
  unfold Reading.isForgetting at hforgetting
  split at hforgetting
  · assumption
  · cases hforgetting

/-- The first caller and the third one are told that the connection is closed; the second one waits
for its time. -/
theorem cleared_trial :
    Trial.start.Clears Trial.severed 38 0 ∧ Trial.start.Cleared Trial.severed 38 0 ∧
      (∃ u q, Trial.start.Moment Trial.severed 39 u ∧
        u.Returns (.call 1) 0 q (.error .closed)) ∧
      (∃ u q, Trial.start.Moment Trial.severed 48 u ∧
        u.Returns (.call 3) 0 q (.error .closed)) ∧
      ∃ u q, Trial.start.Moment Trial.severed 51 u ∧
        u.Returns (.call 2) 0 q (.error (.timedOut .getVersion)) := by
  have hends : Trial.empties Trial.severed 38 0 = true ∧
      Trial.ends Trial.severed 39 (.call 1) (some .closed) = true ∧
      Trial.ends Trial.severed 48 (.call 3) (some .closed) = true ∧
      Trial.ends Trial.severed 51 (.call 2) (some (.timedOut .getVersion)) = true := by
    decide +kernel
  obtain ⟨hempties, hfirst, hthird, hsecond⟩ := hends
  have hclears : Trial.start.Clears Trial.severed 38 0 := Trial.clears (by decide) rfl hempties
  exact ⟨hclears, Unasked.cleared Trial.fresh_start.unasked hclears,
    Trial.exists_failure (by decide) hfirst, Trial.exists_failure (by decide) hthird,
    Trial.exists_failure (by decide) hsecond⟩

end World

end SessionHost
