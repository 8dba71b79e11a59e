import SessionHost.Proofs.Requests.Dealings
import SessionHost.Proofs.Signals.Conservation

/-!
# What moves do to requests

Only the activity that has a request under way deals with it, and only the reading activity of its
client answers it.  So a move begins, registers or ends one request, or takes or hands over one
message, or it has nothing to do with requests.

Main definitions:

- `World.request?`: the request that an activity has under way.
- `Client.Reads`: what a piece of a client's reading activity does.
- `World.Deal`: what a move does to requests and clients.
- `World.Shift`: what becomes of one client.

Main results:

- Theorem `World.move?_deal`: every move deals with requests in one of these ways.
- Theorems `World.Deal.shift`, `World.Deal.asked`: what a move does to one client, and to the
  request of one activity.
-/

namespace SessionHost

open Json (Value)
open Rpc (ResponseError)

/-! ## Who asks -/

/-- The request that a call has under way, after the number of its client. -/
def Call.request? : Call → Option (Nat × Request)
  | .active job => job.request?
  | .over _ => none

/-- A call lets go of its request when its start does. -/
def Call.letsGo (w : World) : Call → Bool
  | .active job => job.letsGo w
  | .over _ => false

namespace World

/-- The request that an activity has under way, after the number of its client. -/
def request? (w : World) : Runner → Option (Nat × Request)
  | .call i => w.calls[i]?.bind Call.request?
  | .watch j => w.watches[j]?.bind Watch.request?
  | _ => none

/-- An activity lets go of the request that it has under way, instead of polling it. -/
def letsGo (w : World) : Runner → Bool
  | .call i => w.calls[i]?.any (Call.letsGo w)
  | _ => false

end World

/-! ## Reading -/

/-- What a piece of a client's reading activity does. -/
inductive Client.Reads (a : Client) (k : Connection) : Client → Prop where
  | answer {id : Nat} {result : Except ResponseError Value}
      (hr : a.reading = .answering id result) :
      Reads a k { a.answer id result with reading := .bytes .idle }
  | forget (hr : a.reading = .forgetting) : Reads a k { a.forgetAll with reading := .closing }
  | take {r next : Rpc.FrameReader} {rest : List UInt8} {message : Value}
      (hr : a.reading = .bytes r)
      (hm : takeFrame r k.toClient = (next, rest, some (.ok message))) :
      Reads a k { a with reading := route message }
  | other {b : Client} (hid : b.nextId = a.nextId) (hw : b.waiting = a.waiting)
      (hanswers : b.answers = a.answers) (ha : a.reading.isAnswering = false)
      (hb : b.reading.isAnswering = false) : Reads a k b

/-- What a client reads is one of the ways of reading. -/
theorem Client.read?_reads {a b : Client} {k k' : Connection} (h : a.read? k = some (b, k')) :
    a.Reads k b := by
  cases read?_piece h with
  | take hr htake => exact .take hr htake
  | answer hr => exact .answer hr
  | forget hr => exact .forget hr
  | finish hr | gather hr | fail hr | reply hr | dropReply hr | signal hr | dropSignal hr
  | close hr | dropClose hr => exact .other rfl rfl rfl (by rw [hr]; rfl) rfl

/-- The writing activity has nothing to do with requests. -/
theorem Client.write?_spares {a b : Client} {k k' : Connection} (h : a.write? k = some (b, k')) :
    b.nextId = a.nextId ∧ b.waiting = a.waiting ∧ b.answers = a.answers ∧
      b.reading = a.reading := by
  cases write?_piece h <;> exact ⟨rfl, rfl, rfl, rfl⟩

/-! ## Deals -/

namespace World

/-- What a move does to the requests of all activities, and to all clients. -/
inductive Deal (m : Move) (w v : World) : Prop where
  /-- An activity deals with its own request. -/
  | run {r : Runner} (hm : m = .run r) (hr : ∀ c, r ≠ .reading c)
      (h : Dealing w.now (w.letsGo r) (w.request? r) w.clients (v.request? r) v.clients)
      (hothers : ∀ r', r' ≠ r → v.request? r' = w.request? r')
  /-- A client reads. -/
  | read {c : Nat} {a b : Client} {k : Connection} (hm : m = .run (.reading c))
      (ha : w.clients[c]? = some a) (hk : w.connections[a.connection]? = some k)
      (h : a.Reads k b) (hv : v.clients = w.clients.set c b)
      (hsame : ∀ r, v.request? r = w.request? r)
  /-- A client writes. -/
  | write {c : Nat} {a b : Client} {k k' : Connection} (hm : m = .run (.writing c))
      (ha : w.clients[c]? = some a) (h : a.write? k = some (b, k'))
      (hv : v.clients = w.clients.set c b) (hsame : ∀ r, v.request? r = w.request? r)
  /-- The move has nothing to do with requests. -/
  | aside (hm : ∀ r, m ≠ .run r) (h : Spares w.clients v.clients)
      (hsame : ∀ r, v.request? r = w.request? r)

variable {w u v : World} {m : Move} {i j : Nat}

/-- A call at another stage, where everything else is as it was. -/
theorem request?_setCall (hcalls : u.calls = w.calls)
    (hwatches : ∀ j, u.request? (.watch j) = w.request? (.watch j)) (c : Call) {r : Runner}
    (hr : r ≠ .call i) : (u.setCall i c).request? r = w.request? r := by
  cases r with
  | call k =>
    have hk : i ≠ k := fun hk => hr (hk ▸ rfl)
    simp only [request?, setCall, List.getElem?_set_ne hk, hcalls]
  | watch j => exact hwatches j
  | _ => rfl

/-- A watch at another stage, where everything else is as it was. -/
theorem request?_moveWatch (hcalls : u.calls = w.calls) (hwatches : u.watches = w.watches)
    (x : Watch) (place : WatchPlace) {r : Runner} (hr : r ≠ .watch j) :
    (u.moveWatch j x place).request? r = w.request? r := by
  cases r with
  | call k => simp only [request?, moveWatch, hcalls]
  | watch k =>
    have hk : j ≠ k := fun hk => hr (hk ▸ rfl)
    simp only [request?, moveWatch, List.getElem?_set_ne hk, hwatches]
  | _ => rfl

/-- Requests are read off the calls and the watches. -/
theorem request?_of_ledger (hcalls : v.calls = w.calls) (hwatches : v.watches = w.watches)
    (r : Runner) : v.request? r = w.request? r := by
  cases r <;> simp only [request?, hcalls, hwatches]

/-- A piece of a call deals with its own request. -/
theorem call?_deal (h : w.call? i = some v) : Deal (.run (.call i)) w v := by
  obtain ⟨job, hjob, hcase⟩ := call?_cases h
  have hdeals := w.call_deals job
  have hcalls := w.call_calls job
  have hwatches : (w.call job).Ends fun u => ∀ j, u.request? (.watch j) = w.request? (.watch j) :=
    (w.call_writes job).imp fun u hu =>
      hu.watch_eq (·.bind Watch.request?) fun x hx => by simp [Watch.request?, hx]
  have hletsGo : w.letsGo (.call i) = job.letsGo w := by simp [letsGo, hjob, Call.letsGo]
  have hbefore : w.request? (.call i) = job.request? := by simp [request?, hjob, Call.request?]
  obtain ⟨u, job', hcall, rfl⟩ | ⟨u, result, hcall, rfl⟩ := hcase
  · rw [hcall] at hdeals hcalls hwatches
    have hu : u.calls[i]? = some (.active job) := (congrArg (·[i]?) hcalls).trans hjob
    have hafter : (u.setCall i (.active job')).request? (.call i) = job'.request? := by
      simp [request?, setCall, getElem?_set_at hu, Call.request?]
    refine .run rfl (fun _ h => by cases h) ?_ fun r hr => request?_setCall hcalls hwatches _ hr
    rw [hletsGo, hbefore, hafter]
    exact hdeals
  · rw [hcall] at hdeals hcalls hwatches
    have hu : u.calls[i]? = some (.active job) := (congrArg (·[i]?) hcalls).trans hjob
    have hafter : (u.setCall i (.over result)).request? (.call i) = none := by
      simp [request?, setCall, getElem?_set_at hu, Call.request?]
    refine .run rfl (fun _ h => by cases h) ?_ fun r hr => request?_setCall hcalls hwatches _ hr
    rw [hletsGo, hbefore, hafter]
    exact hdeals

/-- A piece of a watch deals with its own request. -/
theorem watch?_deal (h : w.watch? j = some v) : Deal (.run (.watch j)) w v := by
  obtain ⟨x, hx, hcase⟩ := watch?_cases h
  -- The watch goes on at a place, in a world where it has dealt with its request.
  have hgoes {u : World} {place : WatchPlace} (hcalls : u.calls = w.calls)
      (hwatches : u.watches = w.watches)
      (hdeal : Dealing w.now false x.request? w.clients ({ x with place } : Watch).request?
        u.clients) : Deal (.run (.watch j)) w (u.moveWatch j x place) := by
    have hu : u.watches[j]? = some x := hwatches ▸ hx
    have hbefore : w.request? (.watch j) = x.request? := by simp [request?, hx]
    have hafter : (u.moveWatch j x place).request? (.watch j) =
        ({ x with place } : Watch).request? := by
      simp [request?, moveWatch, getElem?_set_at hu]
    refine .run rfl (fun _ h => by cases h) ?_ fun r hr =>
      request?_moveWatch hcalls hwatches x place hr
    rw [hbefore, hafter]
    exact hdeal
  obtain ⟨hplace, q, e, -, -, rfl⟩ | ⟨e, r, hplace, hcase⟩ := hcase
  · have hnone : x.request? = none := by rw [Watch.request?, hplace]
    have hrests {u : World} (hcalls : u.calls = w.calls) (hwatches : u.watches = w.watches)
        (hclients : u.clients = w.clients) (place : WatchPlace)
        (hp : ({ x with place } : Watch).request? = none) :
        Deal (.run (.watch j)) w (u.moveWatch j x place) := by
      refine hgoes hcalls hwatches ?_
      rw [hnone, hp]
      exact .rest (.of_eq hclients)
    obtain hover | ⟨-, -, hfall⟩ := w.seeExit_cases j x e
    · rw [hover]
      exact hrests rfl rfl rfl .over rfl
    · obtain ⟨hcalls, hwatches, hclients⟩ : (w.setStatus .failed).calls = w.calls ∧
          (w.setStatus .failed).watches = w.watches ∧
          (w.setStatus .failed).clients = w.clients := by
        unfold setStatus
        split <;> exact ⟨rfl, rfl, rfl⟩
      rw [hfall]
      exact hrests (u := (w.setStatus .failed).warn .session _) hcalls hwatches hclients
        (.releasing e .taking) rfl
  · have hdeals := w.release_deals x.generation r
    have hwrites := w.release_writes none x.generation r
    have hbefore : x.request? = r.request? := by rw [Watch.request?, hplace]
    obtain ⟨u, r', heq, rfl⟩ | ⟨u, heq, rfl⟩ := hcase
    · rw [heq] at hdeals hwrites
      refine hgoes hwrites.calls_eq hwrites.watches_eq ?_
      rw [hbefore]
      exact hdeals
    · rw [heq] at hdeals hwrites
      refine hgoes (u := u.record _) hwrites.calls_eq hwrites.watches_eq ?_
      rw [hbefore]
      exact hdeals

/-! ## Everything else -/

/-- All activities are where they were, and all clients but for what is none of a request's
business. -/
structure SparesRequests (w v : World) : Prop where
  calls : v.calls = w.calls
  watches : v.watches = w.watches
  clients : Spares w.clients v.clients

namespace SparesRequests

/-- Requests spared twice are spared. -/
theorem trans (h : w.SparesRequests v) (h' : v.SparesRequests u) : w.SparesRequests u :=
  ⟨h'.calls.trans h.calls, h'.watches.trans h.watches, h.clients.trans h'.clients⟩

/-- What leaves the ledger and the wires alone spares the requests. -/
theorem of_ledger (hledger : v.ledger = w.ledger) (hwires : v.wires = w.wires) :
    w.SparesRequests v :=
  ⟨congrArg Ledger.calls hledger, congrArg Ledger.watches hledger, w.spares_of_wires hwires⟩

/-- A client that was opened in vain lets go of no request of its own. -/
theorem abandonClient (w : World) (c : Nat) : w.SparesRequests (w.abandonClient c) := by
  refine ⟨?_, ?_, w.spares_abandonClient c⟩ <;>
    · unfold World.abandonClient
      split <;> rfl

/-- A step of the status spares the requests. -/
theorem transition (w : World) (g : Nat) (sources : List Status) (target : Status) :
    w.SparesRequests (w.transition g sources target).1 := by
  refine ⟨?_, ?_, w.spares_of_wires (w.wires_transition g sources target)⟩ <;>
    · rcases w.transition_cases g sources target with h | h <;> rw [h]
      rfl

/-- The end of a pump spares them. -/
theorem endPump (w : World) (i : Nat) (x : Pump) : w.SparesRequests (w.endPump i x) := by
  unfold World.endPump
  split
  · rename_i a ha
    exact ⟨rfl, rfl, .set ha (.of_same rfl rfl rfl rfl rfl rfl)⟩
  · exact ⟨rfl, rfl, .refl _⟩

/-- What a pump does with a signal spares them. -/
theorem handle (w : World) (i : Nat) (x : Pump) (signal : ClientSignal) :
    w.SparesRequests (w.handle i x signal) := by
  unfold World.handle
  split
  · exact endPump w i x
  · split
    · exact transition w _ _ _
    · exact transition w _ _ _
    · split <;> exact ⟨rfl, rfl, .refl _⟩
    · exact endPump w i x

/-- The end of the session's holder spares them. -/
theorem dissolve (w : World) : w.SparesRequests w.dissolve := by
  have hdispose (u : World) (p : Option Nat) : u.SparesRequests (u.disposeAny p) :=
    .of_ledger (u.ledger_disposeAny p) (u.wires_disposeAny p)
  have hclear : w.SparesRequests { w with session := {}, dissolved := true } :=
    ⟨rfl, rfl, .refl _⟩
  have hprocess := hclear.trans (hdispose _ (w.session.process.map Stored.value))
  unfold World.dissolve
  simp only []
  split
  · exact (hprocess.trans (abandonClient _ _)).trans (hdispose _ _)
  · exact hprocess.trans (hdispose _ _)

/-- Requests that are spared stay with their activities. -/
theorem request? (h : w.SparesRequests v) (r : Runner) : v.request? r = w.request? r :=
  request?_of_ledger h.calls h.watches r

/-- A piece of an activity that has no requests of its own. -/
theorem deal {r : Runner} (h : w.SparesRequests v) (hr : ∀ c, r ≠ .reading c)
    (hnone : w.request? r = none) : Deal (.run r) w v := by
  refine .run rfl hr ?_ fun r' _ => h.request? r'
  rw [h.request? r, hnone]
  exact .rest h.clients

end SparesRequests

/-- A piece of a pump deals with no request. -/
theorem pump?_deal (h : w.pump? i = some v) : Deal (.run (.pump i)) w v := by
  obtain ⟨x, hx, ⟨-, u, hpressed, rfl⟩ | ⟨a, -, ha, hcase⟩⟩ := pump?_cases h
  · have hpress : w.SparesRequests (u.movePump i x .receiving) :=
      (SparesRequests.of_ledger hpressed.ledger_eq hpressed.wires_eq).trans ⟨rfl, rfl, .refl _⟩
    exact hpress.deal (fun _ h => by cases h) rfl
  · obtain ⟨-, -, rfl⟩ | ⟨signal, rest, -, rfl⟩ := hcase
    · exact (SparesRequests.endPump w i x).deal (fun _ h => by cases h) rfl
    · have htake : w.SparesRequests (w.setClient x.client { a with mailbox := rest }) :=
        ⟨rfl, rfl, w.spares_setClient ha
          (.of_same rfl rfl rfl rfl rfl rfl)⟩
      exact (htake.trans (.handle _ i x signal)).deal (fun _ h => by cases h) rfl

/-- Every step deals with the request of its activity. -/
theorem step?_deal {r : Runner} (h : w.step? r = some v) : Deal (.run r) w v := by
  cases r with
  | call i => exact call?_deal h
  | exit c =>
    obtain ⟨k, q, e, -, -, -, -, -, rfl⟩ := passOn?_cases h
    exact SparesRequests.deal ⟨rfl, rfl, .refl _⟩ (fun _ h => by cases h) rfl
  | watch j => exact watch?_deal h
  | reading c =>
    obtain ⟨a, k, b, k', ha, hk, hread, rfl⟩ := onWire?_cases h
    exact .read rfl ha hk (Client.read?_reads hread) rfl (request?_of_ledger rfl rfl)
  | writing c =>
    obtain ⟨a, k, b, k', ha, -, hwrite, rfl⟩ := onWire?_cases h
    exact .write rfl ha hwrite rfl (request?_of_ledger rfl rfl)
  | pump i => exact pump?_deal h

/-- The work on the file system has nothing to do with requests. -/
theorem performJob_request? {job job' : Job} (h : w.performJob job = some (u, job')) :
    job'.request? = job.request? := by
  cases performJob_prepares h <;> rfl

/-- What a call waits for outside has no request. -/
theorem perform?_request? (h : w.perform? i = some v) (r : Runner) :
    v.request? r = w.request? r := by
  obtain ⟨job, u, job', hjob, hperform, rfl⟩ := perform?_cases h
  have hledger := performJob_ledger hperform
  have hcalls : u.calls = w.calls := congrArg Ledger.calls hledger
  have hwatches : u.watches = w.watches := congrArg Ledger.watches hledger
  by_cases hr : r = .call i
  · subst hr
    have hu : u.calls[i]? = some (.active job) := by rw [hcalls]; exact hjob
    simp [request?, setCall, getElem?_set_at hu, hjob, Call.request?, performJob_request? hperform]
  · exact request?_setCall hcalls (fun j => request?_of_ledger hcalls hwatches _) _ hr

/-- A call that has just been made waits for no request. -/
theorem request?_of_ask (w : World) (command : Command) (r : Runner) :
    { w with calls := w.calls ++ [Call.active (.fresh command)] }.request? r = w.request? r := by
  cases r with
  | call k =>
    simp only [request?]
    cases hk : w.calls[k]? with
    | some c => rw [getElem?_append_of_some hk]
    | none =>
      cases hk' : (w.calls ++ [Call.active (.fresh command)])[k]? with
      | none => rfl
      | some c =>
        obtain hold | ⟨-, rfl⟩ := getElem?_append_cases hk'
        · cases hk.symm.trans hold
        · rfl
  | _ => rfl

/-- Every move deals with requests in one of these ways. -/
theorem move?_deal (h : w.move? m = some v) : Deal m w v := by
  cases moves_of_move? h with
  | run hstep => exact step?_deal hstep
  | perform hperform =>
    have hspares : Spares w.clients v.clients := by
      obtain ⟨job, u, job', -, hwork, rfl⟩ := perform?_cases hperform
      exact w.spares_of_wires (w.performJob_wires hwork).1
    exact .aside (by simp) hspares (perform?_request? hperform)
  | ask => exact .aside (by simp) (.refl _) (w.request?_of_ask _)
  | answerLaunch | heed | endConsole | answerConnection | answerInquiry | take | send | silence
  | sever | writeFile | elapse | changeStore | letGo =>
    exact .aside (by simp) (.refl _) (request?_of_ledger rfl rfl)
  | dissolve =>
    have hspares := SparesRequests.dissolve w
    exact .aside (by simp) hspares.clients hspares.request?

end World

/-! ## Polling -/

namespace Request

variable {q q' : Request} {now : Nat} {a b : Client} {result : RequestResult}

/-- A request that goes on has been registered, and gives up only when the writing activity is over
or its time is. -/
theorem going_cases (h : q.step now a = .going b q') :
    q'.id = q.id ∧ q'.place ≠ .registering ∧
      ((q.place = .registering ∧ b = a.await q.id) ∨ a.Agrees b) ∧
      ∀ why, q'.place = .withdrawing why → why = .closed ∨ why = .timedOut q.method := by
  have hpiece := q.step_piece now a
  rw [h] at hpiece
  cases hpiece with
  | register hplace => exact ⟨rfl, nofun, .inl ⟨hplace, rfl⟩, nofun⟩
  | post _ hpost => exact ⟨rfl, nofun, .inr (.of_post hpost), nofun⟩
  | refuse =>
    exact ⟨rfl, nofun, .inr (.refl a),
      fun why hwhy => .inl (RequestPlace.withdrawing.inj hwhy).symm⟩
  | expire =>
    exact ⟨rfl, nofun, .inr (.refl a),
      fun why hwhy => .inr (RequestPlace.withdrawing.inj hwhy).symm⟩

/-- A request ends with its answer, with the end of its stream, or with what it has given up for. -/
theorem finished_cases (h : q.step now a = .finished b result) :
    (∃ answer, a.answerTo? q.id = some answer ∧ b = a.forget q.id ∧ result = resultOf answer) ∨
      (a.answerTo? q.id = none ∧ q.id ∉ a.waiting ∧ b = a ∧ result = .error .closed) ∨
      ∃ why, q.place = .withdrawing why ∧ b = a.forget q.id ∧ result = .error why := by
  have hpiece := q.step_piece now a
  rw [h] at hpiece
  cases hpiece with
  | answer _ hanswer => exact .inl ⟨_, hanswer, rfl, rfl⟩
  | clear _ hnone hwaits => exact .inr (.inl ⟨hnone, hwaits, rfl, rfl⟩)
  | withdraw hplace => exact .inr (.inr ⟨_, hplace, rfl, rfl⟩)

end Request

/-! ## One client, and one request -/

/-- One client of many of which one has changed, and then none. -/
theorem Spares.of_set {x y : List Client} {c d : Nat} {a b e : Client} (h : Spares (x.set c b) y)
    (ha : x[c]? = some a) (he : x[d]? = some e) :
    ∃ f, y[d]? = some f ∧ ((d = c ∧ e = a ∧ b.Agrees f) ∨ e.Agrees f) := by
  obtain ⟨rfl, rfl⟩ | hsame := getElem?_set_or ha he b
  · obtain ⟨f, hf, hagrees⟩ := h.old (getElem?_set_at ha b)
    exact ⟨f, hf, .inl ⟨rfl, rfl, hagrees⟩⟩
  · obtain ⟨f, hf, hagrees⟩ := h.old hsame
    exact ⟨f, hf, .inr hagrees⟩

namespace World

/-- What becomes of one client in a move. -/
inductive Shift (m : Move) (w : World) (c : Nat) (a b : Client) : Prop where
  | agree (h : a.Agrees b)
  /-- It hands out an id. -/
  | begin (h : { a with nextId := a.nextId + 1 }.Agrees b)
  | register {r : Runner} {q : Request} (hm : m = .run r) (hq : w.request? r = some (c, q))
      (hplace : q.place = .registering) (h : (a.await q.id).Agrees b)
  | forget {r : Runner} {q : Request} (hm : m = .run r) (hq : w.request? r = some (c, q))
      (h : (a.forget q.id).Agrees b)
  | read {k : Connection} (hm : m = .run (.reading c))
      (hk : w.connections[a.connection]? = some k) (h : a.Reads k b)
  | write {k k' : Connection} (hm : m = .run (.writing c)) (h : a.write? k = some (b, k'))

variable {w v : World} {m : Move} {r : Runner} {c : Nat} {a : Client} {q : Request}

/-- A deal shifts each client in one of the ways listed. -/
theorem Deal.shift (h : Deal m w v) (ha : w.clients[c]? = some a) :
    ∃ b, v.clients[c]? = some b ∧ Shift m w c a b := by
  cases h with
  | aside hm hspares hsame =>
    obtain ⟨b, hb, hagrees⟩ := hspares.old ha
    exact ⟨b, hb, .agree hagrees⟩
  | @read d e f k hm he hk hreads hv hsame =>
    rw [hv]
    obtain ⟨rfl, rfl⟩ | hother := getElem?_set_or he ha f
    · exact ⟨f, getElem?_set_at he f, .read hm hk hreads⟩
    · exact ⟨a, hother, .agree (.refl a)⟩
  | @write d e f k k' hm he hwrite hv hsame =>
    rw [hv]
    obtain ⟨rfl, rfl⟩ | hother := getElem?_set_or he ha f
    · exact ⟨f, getElem?_set_at he f, .write hm hwrite⟩
    · exact ⟨a, hother, .agree (.refl a)⟩
  | @run r hm hr hdeal hothers =>
    generalize hs : w.request? r = s at hdeal
    generalize v.request? r = s' at hdeal
    cases hdeal with
    | rest hspares | letGo hspares =>
      obtain ⟨b, hb, hagrees⟩ := hspares.old ha
      exact ⟨b, hb, .agree hagrees⟩
    | begin hx he hid hplace hnext hz =>
      obtain ⟨d, hd, had⟩ := hx.old ha
      obtain ⟨b, hb, ⟨rfl, rfl, hagrees⟩ | hagrees⟩ := hz.of_set he hd
      · refine ⟨b, hb, .begin (Client.Agrees.trans ?_ (hnext.trans hagrees))⟩
        exact ⟨congrArg (· + 1) had.nextId, had.waiting, had.answers, had.reading, had.sending⟩
      · exact ⟨b, hb, .agree (had.trans hagrees)⟩
    | @poll _ _ e _ _ q q? he hpolls hy =>
      obtain ⟨b, hb, ⟨rfl, rfl, hagrees⟩ | hagrees⟩ := hy.of_set he ha
      · refine ⟨b, hb, ?_⟩
        cases hpolls with
        | going hstep =>
          obtain ⟨-, -, ⟨hplace, rfl⟩ | hpost, -⟩ := Request.going_cases hstep
          · exact .register hm hs hplace hagrees
          · exact .agree (hpost.trans hagrees)
        | finish hstep hd =>
          obtain ⟨answer, -, rfl, -⟩ | ⟨-, -, rfl, -⟩ | ⟨why, -, rfl, -⟩ :=
            Request.finished_cases hstep
          · exact .forget hm hs (hd.trans hagrees)
          · exact .agree (hd.trans hagrees)
          · exact .forget hm hs (hd.trans hagrees)
        | late hstep hd => exact .agree (hd.trans hagrees)
      · exact ⟨b, hb, .agree hagrees⟩

/-- A client that was not there before has no requests. -/
theorem Deal.unasked (h : Deal m w v) (hnone : w.clients[c]? = none)
    (ha : v.clients[c]? = some a) : a.Unasked := by
  have hset {x : List Client} (hx : x[c]? = none) (d : Nat) (b : Client) :
      (x.set d b)[c]? = none := by
    rw [List.getElem?_eq_none_iff, List.length_set]
    exact List.getElem?_eq_none_iff.1 hx
  cases h with
  | aside hm hspares hsame => exact hspares.new hnone ha
  | @read d e f k hm he hk hreads hv hsame =>
    rw [hv, hset hnone d f] at ha
    cases ha
  | @write d e f k k' hm he hwrite hv hsame =>
    rw [hv, hset hnone d f] at ha
    cases ha
  | @run r hm hr hdeal hothers =>
    generalize w.request? r = s at hdeal
    generalize v.request? r = s' at hdeal
    cases hdeal with
    | rest hspares | letGo hspares => exact hspares.new hnone ha
    | @begin _ y _ d e f _ hx he hid hplace hnext hz =>
      cases hy : y[c]? with
      | none => exact hz.new (hset hy d f) ha
      | some g =>
        have hg := hx.new hnone hy
        obtain ⟨b, hb, ⟨rfl, rfl, hagrees⟩ | hagrees⟩ := hz.of_set he hy
        · cases ha.symm.trans hb
          refine (hnext.trans hagrees).unasked ?_
          exact ⟨hg.waiting, hg.answers, hg.reading⟩
        · cases ha.symm.trans hb
          exact hagrees.unasked hg
    | @poll _ _ d e f _ _ he hpolls hy => exact hy.new (hset hnone d f) ha

/-- A request under way after a move was so before, as it is or a piece behind, or the move has
begun it with a new id. -/
theorem Deal.asked (h : Deal m w v) (hq : v.request? r = some (c, q)) :
    (m ≠ .run r ∧ w.request? r = some (c, q)) ∨
      (∃ q₀ a b, m = .run r ∧ w.request? r = some (c, q₀) ∧ q₀.step w.now a = .going b q) ∨
      m = .run r ∧ w.request? r = none ∧ q.place = .registering ∧
        ∃ b, v.clients[c]? = some b ∧ b.nextId = q.id + 1 ∧
          ∀ a, w.clients[c]? = some a → q.id = a.nextId ∧ b.waiting = a.waiting := by
  cases h with
  | aside hm hspares hsame => exact .inl ⟨hm r, hsame r ▸ hq⟩
  | read hm he hk hreads hv hsame =>
    refine .inl ⟨?_, hsame r ▸ hq⟩
    rw [hm]
    rintro ⟨⟩
    cases hq
  | write hm he hwrite hv hsame =>
    refine .inl ⟨?_, hsame r ▸ hq⟩
    rw [hm]
    rintro ⟨⟩
    cases hq
  | @run r' hm hr hdeal hothers =>
    by_cases hr' : r = r'
    · subst hr'
      rw [hq] at hdeal
      generalize hs : w.request? r = s at hdeal
      refine .inr ?_
      generalize hs' : some (c, q) = s' at hdeal
      cases hdeal with
      | rest _ | letGo _ => cases hs'
      | begin hx he hid hplace hnext hz =>
        cases hs'
        refine .inr ⟨hm, rfl, hplace, ?_⟩
        obtain ⟨b, hb, hagrees⟩ := hz.old (getElem?_set_at he _)
        have hnew := hnext.trans hagrees
        refine ⟨b, hb, hid ▸ hnew.nextId, fun a ha => ?_⟩
        obtain ⟨e, he', hae⟩ := hx.old ha
        cases he.symm.trans he'
        exact ⟨hid.trans hae.nextId, hnew.waiting.trans hae.waiting⟩
      | @poll _ _ d e f q₀ q? he hpolls hy =>
        cases hpolls with
        | going hstep =>
          cases hs'
          exact .inl ⟨q₀, _, _, hm, rfl, hstep⟩
        | finish hstep hd => cases hs'
        | late hstep hd => cases hs'
    · refine .inl ⟨?_, hothers r hr' ▸ hq⟩
      rw [hm]
      rintro ⟨⟩
      exact hr' rfl

end World

end SessionHost
