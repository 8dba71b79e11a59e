import SessionHost.Proofs.Ledger.Course
import SessionHost.Proofs.Lifecycle.Moments
import SessionHost.Proofs.Signals.Accounts

/-!
# Nothing is lost on the way

Every move keeps the accounts of all clients, so at every moment of a session's life what a server
has sent is what was heard from its client and what the client still has ahead of it, in the order
in which it was sent.

Main definitions:

- `World.gather`: what moves bring, one after the other.
- `World.sentOn`, `World.heardFrom`: what was sent on a connection and heard from a client.
- `World.line`: what each activity has in hand of the wires.

Main results:

- Theorem `World.move?_accounts`: every move of a session in use keeps the accounts.
- Theorem `World.Life.accounts`: the accounts are right at every moment of a session's life.
-/

namespace SessionHost

open Rpc (FrameReader ServerSignal)

/-! ## What moves bring -/

namespace World

/-- What moves bring, one after the other. -/
def gather {α : Type} (f : World → Move → List α) (w : World) : List Move → List α
  | [] => []
  | m :: rest => f w m ++ (w.after m).gather f rest

/-- The bytes that a move sends on a connection; after the end of the server's way they are
lost. -/
def sends (k : Nat) (w : World) (m : Move) : List UInt8 :=
  match m with
  | .send j bytes =>
    if j = k then
      match w.connections[j]? with
      | some q => if q.serverSilent then [] else bytes
      | none => []
    else []
  | _ => []

/-- The signal that a pump takes out of the mailbox of a client. -/
def hears (c : Nat) (w : World) (m : Move) : List ServerSignal :=
  match m with
  | .run (.pump i) =>
    match w.pumps[i]? with
    | some ⟨d, _, .receiving⟩ =>
      if d = c then
        match w.clients[d]?.map Client.mailbox with
        | some (.server s :: _) => [s]
        | _ => []
      else []
    | _ => []
  | _ => []

/-- What moves send on a connection. -/
def sentOn (w : World) (k : Nat) (ms : List Move) : List UInt8 := w.gather (sends k) ms

/-- What moves hear from a client. -/
def heardFrom (w : World) (c : Nat) (ms : List Move) : List ServerSignal := w.gather (hears c) ms

variable {start w v : World} {ms : List Move} {n : Nat}

/-- What two stretches give is put together. -/
theorem gather_append {α : Type} (f : World → Move → List α) {w v : World} {ms : List Move}
    (h : w.play? ms = some v) (ns : List Move) :
    w.gather f (ms ++ ns) = w.gather f ms ++ v.gather f ns := by
  induction ms generalizing w with
  | nil =>
    cases h
    rfl
  | cons m rest ih =>
    obtain ⟨u, hu, hrest⟩ := Option.bind_eq_some_iff.1 h
    have hafter : w.after m = u := by rw [after, hu]; rfl
    rw [List.cons_append, gather, gather, hafter, ih hrest, List.append_assoc]

/-- One move more brings one thing more. -/
theorem Moment.gather_succ {α : Type} (f : World → Move → List α) (hn : start.Moment ms n w)
    {m : Move} (hm : ms[n]? = some m) :
    start.gather f (ms.take (n + 1)) = start.gather f (ms.take n) ++ f w m := by
  obtain ⟨hlt, hget⟩ := List.getElem?_eq_some_iff.1 hm
  rw [List.take_add_one, hm, gather_append f hn.2]
  simp [gather]

end World

/-! ## The lines of a world -/

namespace World

/-- What an activity has in hand of the wires. -/
def line (w : World) (r : Runner) : Line :=
  match r with
  | .call i => (w.calls[i]?.map Call.line).getD .idle
  | .watch j => (w.watches[j]?.map Watch.line).getD .idle
  | _ => .idle

variable {w u v : World} {i j : Nat}

/-- The line of a call is read off the call. -/
theorem line_of_call {call : Call} (h : w.calls[i]? = some call) :
    w.line (.call i) = call.line := by
  rw [line, h]
  rfl

/-- The line of a watch is read off the watch. -/
theorem line_of_watch {x : Watch} (h : w.watches[j]? = some x) : w.line (.watch j) = x.line := by
  rw [line, h]
  rfl

/-- Lines depend on how far calls and watches are. -/
theorem line_of_ledger (hcalls : v.calls = w.calls) (hwatches : v.watches = w.watches) :
    v.line = w.line := by
  funext r
  cases r <;> simp only [line, hcalls, hwatches]

/-- A call at another stage. -/
theorem line_setCall {call : Call} (h : w.calls[i]? = some call) (call' : Call) :
    (w.setCall i call').line = Function.update w.line (.call i) call'.line := by
  funext r
  by_cases hr : r = .call i
  · subst hr
    rw [Function.update_self]
    exact line_of_call (getElem?_set_at h call')
  · rw [Function.update_of_ne hr]
    cases r with
    | call k =>
      have hk : i ≠ k := fun hk => hr (hk ▸ rfl)
      rw [line, setCall, List.getElem?_set_ne hk]
      rfl
    | _ => rfl

/-- A watch at another stage. -/
theorem line_moveWatch {x : Watch} (h : w.watches[j]? = some x) (place : WatchPlace) :
    (w.moveWatch j x place).line =
      Function.update w.line (.watch j) ({ x with place } : Watch).line := by
  funext r
  by_cases hr : r = .watch j
  · subst hr
    rw [Function.update_self]
    exact line_of_watch (getElem?_set_at h _)
  · rw [Function.update_of_ne hr]
    cases r with
    | watch k =>
      have hk : j ≠ k := fun hk => hr (hk ▸ rfl)
      rw [line, moveWatch, List.getElem?_set_ne hk]
      rfl
    | _ => rfl

end World

/-- A piece of a call leaves the lines of all watches alone. -/
theorem Job.Writes.watch_line {job : Job} {l l' : Ledger} (h : job.Writes l l') (j : Nat) :
    (l'.watches[j]?.map Watch.line).getD .idle = (l.watches[j]?.map Watch.line).getD .idle :=
  h.watch_eq (fun x? => (x?.map Watch.line).getD .idle) (fun x hx => by simp [Watch.line, hx]) j

namespace World

variable {sent : Nat → List UInt8} {heard : Nat → List ServerSignal} {w u v : World} {i j : Nat}

/-- A piece of a call leaves the lines of all others alone. -/
theorem call_line (w : World) (job : Job) : (w.call job).Ends (·.line = w.line) := by
  refine (w.call_writes job).imp fun u hu => ?_
  have hcalls : u.calls = w.calls := hu.calls_eq
  funext r
  cases r with
  | call k => simp only [line, hcalls]
  | watch k => exact hu.watch_line k
  | _ => rfl

/-- The accounts depend on wires and lines alone. -/
theorem accounts_of_eq (a : Accounts sent heard w.wires w.line) (hx : v.wires = w.wires)
    (hl : v.line = w.line) : Accounts sent heard v.wires v.line := by
  rw [hx, hl]
  exact a

/-! ## Calls and watches -/

/-- A piece of a call keeps the accounts. -/
theorem call?_accounts (h : w.call? i = some v) (s : Sound w.outline)
    (a : Accounts sent heard w.wires w.line) : Accounts sent heard v.wires v.line := by
  obtain ⟨job, hjob, hcase⟩ := call?_cases h
  have hin : job.role ≠ .outsider := s.tenure.inside (roles_of_active hjob)
  have hwired := w.call_wired job hin
  have hlines := w.call_line job
  have hcalls := w.call_calls job
  have hline : w.line (.call i) = job.line := line_of_call hjob
  rcases hcase with ⟨u, job', hcall, rfl⟩ | ⟨u, result, hcall, rfl⟩
  · rw [hcall] at hwired hlines hcalls
    have hu : u.calls[i]? = some (.active job) := (congrArg (·[i]?) hcalls).trans hjob
    rw [line_setCall hu, show u.line = w.line from hlines]
    exact Wirings.accounts hwired a hline
  · rw [hcall] at hwired hlines hcalls
    have hu : u.calls[i]? = some (.active job) := (congrArg (·[i]?) hcalls).trans hjob
    rw [line_setCall hu, show u.line = w.line from hlines]
    exact Wirings.accounts hwired a hline

/-- What a call waits for outside keeps the accounts. -/
theorem perform?_accounts (h : w.perform? i = some v) (a : Accounts sent heard w.wires w.line) :
    Accounts sent heard v.wires v.line := by
  obtain ⟨job, u, job', hjob, hperform, rfl⟩ := perform?_cases h
  obtain ⟨hwires, hsame⟩ := w.performJob_wires hperform
  have hledger := performJob_ledger hperform
  have hcalls : u.calls = w.calls := congrArg Ledger.calls hledger
  have hlines : u.line = w.line := line_of_ledger hcalls (congrArg Ledger.watches hledger)
  have hu : u.calls[i]? = some (.active job) := by rw [hcalls]; exact hjob
  refine accounts_of_eq a hwires ?_
  rw [line_setCall hu, hlines, show (Call.active job').line = (Call.active job).line from hsame,
    ← line_of_call hjob, Function.update_eq_self]

/-- A watch that sees an exit has nothing in hand yet. -/
theorem seeExit_accounts {x : Watch} {e : ConsoleExit} (hx : w.watches[j]? = some x)
    (hplace : x.place = .waiting) (a : Accounts sent heard w.wires w.line) :
    Accounts sent heard (w.seeExit j x e).wires (w.seeExit j x e).line := by
  have hidle : w.line (.watch j) = .idle := by
    rw [line_of_watch hx, Watch.line, hplace]
  have hstay (u : World) (hu : u.wires = w.wires) (hl : u.line = w.line)
      (hwatch : u.watches = w.watches) (place : WatchPlace)
      (hp : ({ x with place } : Watch).line = .idle) :
      Accounts sent heard (u.moveWatch j x place).wires (u.moveWatch j x place).line := by
    refine accounts_of_eq a hu ?_
    rw [line_moveWatch (hwatch ▸ hx), hl, hp, ← hidle, Function.update_eq_self]
  obtain hover | ⟨-, -, hfall⟩ := w.seeExit_cases j x e
  · rw [hover]
    exact hstay w rfl rfl rfl .over rfl
  · have hstatus : (w.setStatus .failed).line = w.line ∧
        (w.setStatus .failed).watches = w.watches := by
      unfold setStatus
      split <;> exact ⟨rfl, rfl⟩
    rw [hfall]
    exact hstay ((w.setStatus .failed).warn .session _) (w.wires_setStatus .failed) hstatus.1
      hstatus.2 (.releasing e .taking) rfl

/-- A piece of a watch keeps the accounts. -/
theorem watch?_accounts (h : w.watch? j = some v) (a : Accounts sent heard w.wires w.line) :
    Accounts sent heard v.wires v.line := by
  obtain ⟨x, hx, ⟨hplace, q, e, -, -, rfl⟩ | ⟨e, r, hplace, hcase⟩⟩ := watch?_cases h
  · exact seeExit_accounts hx hplace a
  · have hwired := w.release_wired x.generation r
    have hwrites := w.release_writes none x.generation r
    have hline : w.line (.watch j) = r.line := by rw [line_of_watch hx, Watch.line, hplace]
    have hlines {u : World} (hu : Postings none w.ledger u.ledger) :
        u.line = w.line ∧ u.watches = w.watches :=
      ⟨line_of_ledger hu.calls_eq hu.watches_eq, hu.watches_eq⟩
    obtain ⟨u, r', heq, rfl⟩ | ⟨u, heq, rfl⟩ := hcase
    · rw [heq] at hwired hwrites
      obtain ⟨hl, hw⟩ := hlines hwrites
      rw [line_moveWatch (hw ▸ hx), hl]
      exact Wirings.accounts hwired a hline
    · rw [heq] at hwired hwrites
      obtain ⟨hl, hw⟩ := hlines hwrites
      have hmove : (u.reportExit j x e).line = Function.update w.line (.watch j) .idle := by
        rw [← hl]
        exact line_moveWatch (w := u.record _) (hw ▸ hx) .over
      rw [hmove]
      exact Wirings.accounts hwired a hline

/-! ## Reading and writing -/

/-- A reading client keeps the accounts. -/
theorem read_accounts {c : Nat} (h : w.onWire? c Client.read? = some v)
    (a : Accounts sent heard w.wires w.line) : Accounts sent heard v.wires v.line := by
  obtain ⟨b, q, b', q', hb, hq, hread, rfl⟩ := onWire?_cases h
  have hstops : b.stops ≤ b'.stops := Nat.le_of_eq (Client.read?_stops hread).symm
  exact a.modify hb hq (Client.read?_connection hread) hstops (fun _ _ => rfl) a.unheard
    fun _ _ _ hhearing _ => hhearing.read? hread

/-- A writing client keeps the accounts. -/
theorem write_accounts {c : Nat} (h : w.onWire? c Client.write? = some v)
    (a : Accounts sent heard w.wires w.line) : Accounts sent heard v.wires v.line := by
  obtain ⟨b, q, b', q', hb, hq, hwrite, rfl⟩ := onWire?_cases h
  obtain ⟨htalk, hbytes, hsilent⟩ := Client.write?_talks hwrite
  exact a.modify hb hq htalk.connection htalk.stops (fun _ _ => rfl) a.unheard
    fun _ _ {read} hhearing _ => ⟨read, List.prefix_rfl,
      (hhearing.talk htalk).connection hbytes fun hs => hsilent.trans hs⟩

/-! ## The server's end -/

/-- A connection changes, and no byte comes to the client. -/
theorem changes_accounts {q q' : Connection} (hq : w.connections[j]? = some q)
    (hbytes : q'.toClient = q.toClient) (hsilent : q.serverSilent = true → q'.serverSilent = true)
    (a : Accounts sent heard w.wires w.line) :
    Accounts sent heard (w.setConnection j q').wires (w.setConnection j q').line :=
  a.setConnection hq (fun _ _ => rfl) (fun hs => hs.trans hbytes.symm)
    fun hhearing => hhearing.connection hbytes hsilent

/-- What a server sends is entered as sent. -/
theorem send_accounts (bytes : List UInt8) {q : Connection} (hq : w.connections[j]? = some q)
    (a : Accounts sent heard w.wires w.line) :
    Accounts (fun k => sent k ++ sends k w (.send j bytes)) heard
      (w.setConnection j (q.deliver bytes)).wires (w.setConnection j (q.deliver bytes)).line := by
  have hsends : sends j w (.send j bytes) = if q.serverSilent then [] else bytes := by
    simp [sends, hq]
  refine a.setConnection (p := q.deliver bytes) hq (fun k hk => ?_) (fun hs => ?_) ?_
  · simp [sends, Ne.symm hk]
  · simp only [hsends, hs]
    unfold Connection.deliver
    split <;> simp
  · intro b read heard' hhearing
    simp only [hsends]
    exact hhearing.deliver bytes

/-! ## Pumps -/

/-- A pump at another place hears the same client. -/
theorem wires_movePump {x : Pump} (hx : w.pumps[i]? = some x) (place : PumpPlace) :
    (w.movePump i x place).wires = w.wires := by
  have hmap : (w.pumps.set i { x with place }).map Pump.client = w.pumps.map Pump.client :=
    map_set_of_eq hx rfl
  rw [wires, wires, movePump, hmap]

/-- Nothing of a key goes over the wires. -/
theorem Pressed.wires_eq (h : w.Pressed u) : u.wires = w.wires := by
  obtain rfl | ⟨p, rfl⟩ := h
  · rfl
  · exact w.wires_tellProcess p keyPress

/-- The signal that a pump takes is heard from its client. -/
theorem hears_pump {x : Pump} {a : Client} (hx : w.pumps[i]? = some x) (hp : x.place = .receiving)
    (ha : w.clients[x.client]? = some a) (c : Nat) :
    hears c w (.run (.pump i)) =
      if x.client = c then (a.mailbox.head?.bind ClientSignal.server?).toList else [] := by
  obtain ⟨d, g, place⟩ := x
  cases hp
  change w.clients[d]? = some a at ha
  simp only [hears, hx, ha, Option.map_some]
  split
  · cases a.mailbox with
    | nil => rfl
    | cons signal rest => cases signal <;> rfl
  · rfl

/-- A pump that takes no signal of the server hears nothing. -/
theorem hears_of_none {x : Pump} (hx : w.pumps[i]? = some x)
    (h : x.place ≠ .receiving ∨ ∃ a, w.clients[x.client]? = some a ∧
      (a.mailbox.head?.bind ClientSignal.server?) = none) (c : Nat) :
    hears c w (.run (.pump i)) = [] := by
  by_cases hp : x.place = .receiving
  · obtain ⟨a, ha, hnone⟩ := h.resolve_left (not_not_intro hp)
    rw [hears_pump hx hp ha, hnone]
    split <;> rfl
  · obtain ⟨d, g, place⟩ := x
    simp only [hears, hx]
    cases place with
    | receiving => exact absurd rfl hp
    | pressing => rfl
    | «over» => rfl

/-- A pump leaves its client. -/
theorem wires_endPump {x : Pump} {a : Client} (hx : w.pumps[i]? = some x)
    (ha : w.clients[x.client]? = some a) :
    (w.endPump i x).wires =
      { w.wires with
        clients := w.wires.clients.set x.client { a with heard := false, mailbox := [] } } := by
  simp only [endPump, ha]
  exact wires_movePump (w := w.setClient x.client { a with heard := false, mailbox := [] }) hx .over

/-- The end of a pump is no activity's line. -/
theorem line_endPump (w : World) (i : Nat) (x : Pump) : (w.endPump i x).line = w.line := by
  refine line_of_ledger ?_ ?_ <;> unfold endPump <;> simp only [] <;> split <;> rfl

/-- A client whose last word has been taken is left, and nothing is lost. -/
theorem leave_accounts {line : Runner → Line} {c : Nat} {a : Client} (ha : w.clients[c]? = some a)
    (s : Accounts sent heard w.wires line)
    (hend : ∀ {q read}, Hearing w.config.mailboxRoom a q (sent a.connection) read (heard c) →
      a.reading.isOver = true ∧ a.mailbox.filterMap ClientSignal.server? = []) :
    Accounts sent heard
      { w.wires with clients := w.wires.clients.set c { a with heard := false, mailbox := [] } }
      line := by
  refine s.setClient ha rfl (Nat.le_refl _) (fun _ _ => rfl) s.unheard ?_
  intro _ _ q read hhearing _
  obtain ⟨hover, hbox⟩ := hend hhearing
  exact ⟨read, List.prefix_rfl, hhearing.leave hover hbox⟩

theorem line_transition (w : World) (g : Nat) (sources : List Status) (target : Status) :
    (w.transition g sources target).1.line = w.line := by
  rcases w.transition_cases g sources target with h | h <;> rw [h]
  rfl

/-- What a pump does with a signal of the server touches no wire. -/
theorem handle_server (hd : w.dissolved = false) {x : Pump} (hx : w.pumps[i]? = some x)
    (signal : ServerSignal) :
    (w.handle i x (.server signal)).wires = w.wires ∧
      (w.handle i x (.server signal)).line = w.line := by
  unfold handle
  rw [if_neg (by simp [hd])]
  cases signal with
  | busy value =>
    cases value with
    | true => exact ⟨w.wires_transition _ _ _, w.line_transition _ _ _⟩
    | false => exact ⟨w.wires_transition _ _ _, w.line_transition _ _ _⟩
  | keyPress =>
    simp only []
    split
    · exact ⟨wires_movePump hx .pressing, rfl⟩
    · exact ⟨rfl, rfl⟩

/-- What a pump takes from the mailbox is entered as heard. -/
theorem pump?_accounts (h : w.pump? i = some v) (hd : w.dissolved = false)
    (s : Accounts sent heard w.wires w.line) :
    Accounts sent (fun c => heard c ++ hears c w (.run (.pump i))) v.wires v.line := by
  obtain ⟨x, hx, ⟨hp, u, hpressed, rfl⟩ | ⟨a, hp, ha, hcase⟩⟩ := pump?_cases h
  · have hledger := hpressed.ledger_eq
    simp only [hears_of_none hx (.inl (by rw [hp]; nofun)), List.append_nil]
    have hpumps : u.pumps = w.pumps := congrArg Ledger.pumps hledger
    refine accounts_of_eq s ((wires_movePump (hpumps ▸ hx) .receiving).trans hpressed.wires_eq) ?_
    exact line_of_ledger (congrArg Ledger.calls hledger) (congrArg Ledger.watches hledger)
  · have hmem : x.client ∈ w.wires.pumps :=
      List.mem_map.2 ⟨x, List.mem_of_getElem? hx, rfl⟩
    rcases hcase with ⟨hbox, hover, rfl⟩ | ⟨signal, rest, hbox, rfl⟩
    · simp only [hears_of_none hx (.inr ⟨a, ha, by rw [hbox]; rfl⟩), List.append_nil]
      rw [wires_endPump hx ha, line_endPump]
      exact leave_accounts ha s fun _ => ⟨hover, by rw [hbox]; rfl⟩
    · let b : Client := { a with mailbox := rest }
      have hb : (w.setClient x.client b).clients[x.client]? = some b := getElem?_set_at ha b
      have hx' : (w.setClient x.client b).pumps[i]? = some x := hx
      cases signal with
      | server signal =>
        obtain ⟨hwires, hline⟩ := handle_server (w := w.setClient x.client b) hd hx' signal
        rw [hwires, hline]
        refine s.setClient (b := b) ha rfl (Nat.le_refl _) (fun d hdc => ?_)
          (fun hnot => absurd hmem hnot) fun _ _ {q read} hhearing hany => ?_
        · rw [hears_pump hx hp ha, if_neg (Ne.symm hdc), List.append_nil]
        · refine ⟨read, List.prefix_rfl, ?_⟩
          rw [hears_pump hx hp ha, if_pos rfl, hbox]
          exact hhearing.hear (hany hmem) hbox
      | closed =>
        simp only [hears_of_none hx (.inr ⟨a, ha, by rw [hbox]; rfl⟩), List.append_nil]
        have hend : (w.setClient x.client b).handle i x .closed =
            (w.setClient x.client b).endPump i x := by
          unfold handle
          split <;> rfl
        have hclients : (w.clients.set x.client b).set x.client
            { b with heard := false, mailbox := [] } =
            w.clients.set x.client { a with heard := false, mailbox := [] } := List.set_set ..
        rw [hend, wires_endPump hx' hb, line_endPump]
        change Accounts _ _ ⟨(w.clients.set x.client b).set x.client _, _, _, _⟩ _
        rw [hclients]
        refine leave_accounts ha s fun hhearing => ?_
        obtain ⟨hrest, hover⟩ := hhearing.over_of_closed hbox
        exact ⟨hover, by rw [hbox, hrest]; rfl⟩

/-! ## Every move -/

/-- A move that neither sends nor hears keeps the accounts as they are. -/
theorem accounts_of_quiet {m : Move} (a : Accounts sent heard v.wires v.line)
    (hsends : ∀ k, sends k w m = []) (hhears : ∀ c, hears c w m = []) :
    Accounts (fun k => sent k ++ sends k w m) (fun c => heard c ++ hears c w m) v.wires v.line := by
  simpa only [hsends, hhears, List.append_nil] using a

/-- Every move of a session in use keeps the accounts. -/
theorem move?_accounts {m : Move} (h : w.move? m = some v) (hm : m.ofSession = true)
    (s : Sound w.outline) (a : Accounts sent heard w.wires w.line) :
    Accounts (fun k => sent k ++ sends k w m) (fun c => heard c ++ hears c w m) v.wires v.line := by
  cases moves_of_move? h with
  | @run r _ hstep =>
    cases r with
    | call i => exact accounts_of_quiet (call?_accounts hstep s a) (fun _ => rfl) fun _ => rfl
    | exit c =>
      refine accounts_of_quiet ?_ (fun _ => rfl) fun _ => rfl
      obtain ⟨k, q, e, -, -, -, -, -, rfl⟩ := passOn?_cases hstep
      exact accounts_of_eq a rfl (line_of_ledger rfl rfl)
    | watch j => exact accounts_of_quiet (watch?_accounts hstep a) (fun _ => rfl) fun _ => rfl
    | reading c => exact accounts_of_quiet (read_accounts hstep a) (fun _ => rfl) fun _ => rfl
    | writing c => exact accounts_of_quiet (write_accounts hstep a) (fun _ => rfl) fun _ => rfl
    | pump i =>
      have hpump := pump?_accounts hstep s.present a
      simpa only [sends, List.append_nil] using hpump
  | perform hperform =>
    exact accounts_of_quiet (perform?_accounts hperform a) (fun _ => rfl) fun _ => rfl
  | ask =>
    refine accounts_of_quiet (accounts_of_eq a rfl ?_) (fun _ => rfl) fun _ => rfl
    funext r
    cases r with
    | call k =>
      simp only [line]
      rcases Nat.lt_or_ge k w.calls.length with hk | hk
      · rw [List.getElem?_append_left hk]
      · rw [List.getElem?_append_right hk, List.getElem?_eq_none hk]
        cases hn : k - w.calls.length <;> rfl
    | _ => rfl
  | answerConnection hk =>
    refine accounts_of_quiet ?_ (fun _ => rfl) fun _ => rfl
    exact a.setConnection hk (fun _ _ => rfl) (fun hs => hs)
      fun hhearing => hhearing.connection rfl fun hs => hs
  | take hk =>
    exact accounts_of_quiet (changes_accounts hk rfl (fun hs => hs) a) (fun _ => rfl) fun _ => rfl
  | @send j bytes k hk =>
    have hsend := send_accounts bytes hk a
    simpa only [hears, List.append_nil] using hsend
  | silence hk | sever hk =>
    exact accounts_of_quiet (changes_accounts hk rfl (fun _ => rfl) a) (fun _ => rfl) fun _ => rfl
  | answerLaunch | heed | endConsole | answerInquiry | writeFile | elapse | changeStore | letGo =>
    exact accounts_of_quiet a (fun _ => rfl) fun _ => rfl
  | dissolve => cases hm

/-- The accounts are right at every moment of a session's life. -/
theorem Life.accounts {start : World} {ms : List Move} {n : Nat} (h : Life start ms w)
    (hn : start.Moment ms n v) :
    Accounts (fun k => start.sentOn k (ms.take n)) (fun c => start.heardFrom c (ms.take n))
      v.wires v.line := by
  induction n generalizing v with
  | zero =>
    obtain rfl : start = v := Option.some.inj hn.2
    have hwires : start.wires = ⟨[], [], [], start.config.mailboxRoom⟩ := by
      simp [wires, h.fresh.clients, h.fresh.connections, h.fresh.pumps]
    have hline (r : Runner) : start.line r = .idle := by
      cases r <;> simp [line, h.fresh.calls, h.fresh.watches]
    rw [hwires]
    constructor
    case unsent => exact fun _ => rfl
    case unheard => exact fun _ => rfl
    case attached => exact fun hc => by cases hc
    case alone => exact fun hc => by cases hc
    case dialled => exact fun {r k} hr => by simp [hline] at hr
    case opened => exact fun {r c b} hr => by simp [hline] at hr
    case closing => exact fun {r c} hr => by simp [hline] at hr
    case pumped => exact fun hc => by cases hc
    case once => exact List.nodup_nil
  | succ n ih =>
    obtain ⟨u, hu⟩ := hn.pred
    obtain ⟨m, hm, hmove⟩ := hu.step hn
    have hof := h.ofSession m (List.mem_of_getElem? hm)
    have hnext := move?_accounts hmove hof (h.moment hu).sound (ih hu)
    simpa only [sentOn, heardFrom, hu.gather_succ _ hm] using hnext

end World

end SessionHost
