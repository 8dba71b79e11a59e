import SessionHost.Proofs.Ledger.Postings

/-!
# How moves change the ledger

A move that changes the ledger is a piece of a call, of the watch over an exit, or of the handling
of a client's signals; everything else that happens leaves the ledger alone.

Main definitions:

- `Change`: what a move writes into the ledger.

Main results:

- Theorem `World.move?_change`: every move of a session in use is such a change.
- Theorem `World.calls_of_move?`: only its own pieces change how far a call is.
-/

namespace SessionHost

/-! ## What is left alone -/

/-- What a start stores does not change any call. -/
theorem Store.calls_eq {l l' : Ledger} {place : Starting} (h : Store l place l') :
    l'.calls = l.calls := by
  cases h <;> rfl

/-- A posting does not change any call. -/
theorem Posting.calls_eq {own : Option Nat} {l l' : Ledger} (h : Posting own l l') :
    l'.calls = l.calls := by
  cases h <;> rfl

/-- Writings do not change any call. -/
theorem Writings.calls_eq {own : Option Nat} {l l' : Ledger} (h : Writings own l l') :
    l'.calls = l.calls :=
  h.keeps (P := fun u => u.calls = l.calls) (fun _ _ hu hposting => hposting.calls_eq.trans hu)
    (fun _ _ hu hamendment => by cases hamendment <;> exact hu) rfl

/-- Postings that follow each other do not change any call. -/
theorem Postings.calls_eq {own : Option Nat} {l l' : Ledger} (h : Postings own l l') :
    l'.calls = l.calls :=
  (Writings.of_postings h).calls_eq

/-- What a call writes does not change any call; its own place is set apart. -/
theorem Job.Writes.calls_eq {job : Job} {l l' : Ledger} (h : job.Writes l l') :
    l'.calls = l.calls := by
  obtain ⟨m, hm, hwritings⟩ := h
  rcases hm with rfl | ⟨place, next, -, hstore⟩
  · exact hwritings.calls_eq
  · exact hwritings.calls_eq.trans hstore.calls_eq

/-! ## Changes -/

/-- What a move writes into the ledger. -/
inductive Change (m : Move) (l : Ledger) : Ledger → Prop where
  | still : Change m l l
  | ask (command : Command) (hm : m = .ask command) :
      Change m l { l with calls := l.calls ++ [.active (.fresh command)] }
  | call {i : Nat} {job : Job} {l' : Ledger} (hm : m = .run (.call i))
      (hi : l.calls[i]? = some (.active job)) (hw : job.Writes l l') (c : Call) :
      Change m l { l' with calls := l'.calls.set i c }
  | perform {i : Nat} {job : Job} (hm : m = .perform i) (hi : l.calls[i]? = some (.active job))
      (job' : Job) : Change m l { l with calls := l.calls.set i (.active job') }
  /-- A live session loses its console. -/
  | fall {j : Nat} {x : Watch} (hm : m = .run (.watch j)) (hx : l.watches[j]? = some x)
      (hp : x.place = .waiting) (hg : l.generation = x.generation) (hs : l.status.isLive = true)
      (e : ConsoleExit) :
      Change m l
        { l with
          status := .failed
          news := l.news ++ [.statusChanged l.generation .failed]
          watches := l.watches.set j { x with place := .releasing e .taking } }
  /-- The exit is none of the watch's business. -/
  | ignore {j : Nat} {x : Watch} (hm : m = .run (.watch j)) (hx : l.watches[j]? = some x)
      (hp : x.place = .waiting) :
      Change m l { l with watches := l.watches.set j { x with place := .over } }
  | release {j : Nat} {x : Watch} {e : ConsoleExit} {r : Release} {l' : Ledger}
      (hm : m = .run (.watch j)) (hx : l.watches[j]? = some x) (hp : x.place = .releasing e r)
      (hl : Postings none l l') (r' : Release) :
      Change m l { l' with watches := l'.watches.set j { x with place := .releasing e r' } }
  | report {j : Nat} {x : Watch} {e : ConsoleExit} {r : Release} {l' : Ledger}
      (hm : m = .run (.watch j)) (hx : l.watches[j]? = some x) (hp : x.place = .releasing e r)
      (hl : Postings none l l') (notice : Notice) :
      Change m l
        { l' with
          news := l'.news ++ [.unexpectedExit x.generation notice]
          watches := l'.watches.set j { x with place := .over } }
  | busy {k : Nat} {x : Pump} (hm : m = .run (.pump k)) (hx : l.pumps[k]? = some x)
      (hg : l.generation = x.generation) (hs : l.status = .running) :
      Change m l
        { l with status := .busy, news := l.news ++ [.statusChanged l.generation .busy] }
  | idle {k : Nat} {x : Pump} (hm : m = .run (.pump k)) (hx : l.pumps[k]? = some x)
      (hg : l.generation = x.generation) (hs : l.status = .busy) :
      Change m l
        { l with status := .running, news := l.news ++ [.statusChanged l.generation .running] }
  | pump {k : Nat} {x : Pump} (hm : m = .run (.pump k)) (hx : l.pumps[k]? = some x)
      (place : PumpPlace) : Change m l { l with pumps := l.pumps.set k { x with place } }

namespace World

variable {w v : World}

theorem ledger_setCall (w : World) (i : Nat) (c : Call) :
    (w.setCall i c).ledger = { w.ledger with calls := w.ledger.calls.set i c } :=
  rfl

/-! ## Calls -/

/-- A piece of a call leaves it to others to say how far the calls are. -/
theorem call_calls (w : World) (job : Job) : (w.call job).Ends (·.calls = w.calls) :=
  (w.call_writes job).imp fun _ hu => hu.calls_eq

/-- What a piece of a call leads to, and how far the call is then. -/
theorem piece_of_call? {i : Nat} {job : Job} (h : w.call? i = some v)
    (hi : w.calls[i]? = some (.active job)) :
    (∃ u job', w.call job = .going u job' ∧ v = u.setCall i (.active job') ∧
        v.calls[i]? = some (.active job')) ∨
      ∃ u r, w.call job = .finished u r ∧ v = u.setCall i (.over r) ∧
        v.calls[i]? = some (.over r) := by
  have hlt : i < w.calls.length := (List.getElem?_eq_some_iff.1 hi).1
  have hset {u : World} (c : Call) (hu : u.calls = w.calls) : (u.setCall i c).calls[i]? = some c :=
    List.getElem?_set_self (by rwa [hu])
  have hcalls := w.call_calls job
  obtain ⟨job', hjob, hpiece⟩ := call?_cases h
  cases hi.symm.trans hjob
  rcases hpiece with ⟨u, job', hpiece, rfl⟩ | ⟨u, r, hpiece, rfl⟩ <;> rw [hpiece] at hcalls
  · exact .inl ⟨u, job', hpiece, rfl, hset _ hcalls⟩
  · exact .inr ⟨u, r, hpiece, rfl, hset _ hcalls⟩

/-- The work on the file system leaves the ledger as it is. -/
theorem performJob_ledger {job job' : Job} {u : World} (h : w.performJob job = some (u, job')) :
    u.ledger = w.ledger := by
  cases performJob_prepares h with
  | startFolder | debugFolder => exact w.ledger_makeFolder
  | _ => rfl

/-- A piece of a call changes the ledger by what it writes and by its place. -/
theorem call?_change {i : Nat} (h : w.call? i = some v) :
    Change (.run (.call i)) w.ledger v.ledger := by
  obtain ⟨job, hjob, ⟨u, job', hcall, rfl⟩ | ⟨u, r, hcall, rfl⟩⟩ := call?_cases h
  · have hwrites := w.call_writes job
    rw [hcall] at hwrites
    exact .call rfl hjob hwrites _
  · have hwrites := w.call_writes job
    rw [hcall] at hwrites
    exact .call rfl hjob hwrites _

/-! ## Watches -/

/-- A session that falls is written down as failed, with a watch that takes it apart. -/
theorem fall_ledger (hs : w.status ≠ .failed) (j : Nat) (x : Watch) (e : ConsoleExit) :
    (w.fall j x e).ledger =
      { w.ledger with
        status := .failed
        news := w.ledger.news ++ [.statusChanged w.generation .failed]
        watches := w.ledger.watches.set j { x with place := .releasing e .taking } } := by
  let u : World := (w.setStatus .failed).warn .session ("'" ++ x.name ++ "' exited unexpectedly")
  have hledger : u.ledger =
      { w.ledger with
        status := .failed
        news := w.ledger.news ++ [.statusChanged w.generation .failed] } :=
    (ledger_warn _ .session _).trans (w.ledger_setStatus hs)
  have hwatches : u.watches = w.watches := congrArg Ledger.watches hledger
  calc (w.fall j x e).ledger
      = { u.ledger with watches := u.watches.set j { x with place := .releasing e .taking } } := rfl
    _ = _ := by rw [hledger, hwatches]; rfl

/-- An exit that is seen is a change of its watch. -/
theorem seeExit_change {j : Nat} {x : Watch} {e : ConsoleExit} (hx : w.watches[j]? = some x)
    (hp : x.place = .waiting) : Change (.run (.watch j)) w.ledger (w.seeExit j x e).ledger := by
  obtain hover | ⟨hg, hs, hfall⟩ := w.seeExit_cases j x e
  · rw [hover]
    exact .ignore rfl hx hp
  · have hne : w.status ≠ .failed := by
      intro h
      rw [h] at hs
      cases hs
    rw [hfall, fall_ledger hne]
    exact .fall rfl hx hp hg hs e

/-- The end of a watch is told. -/
theorem reportExit_ledger (w : World) (j : Nat) (x : Watch) (e : ConsoleExit) :
    (w.reportExit j x e).ledger =
      { w.ledger with
        news := w.ledger.news ++ [.unexpectedExit x.generation
          (SessionFailure.unexpectedExit e.code).notice]
        watches := w.ledger.watches.set j { x with place := .over } } := by
  have hrecord := w.ledger_record_news (e := .unexpectedExit x.generation
    (SessionFailure.unexpectedExit e.code).notice) rfl
  calc (w.reportExit j x e).ledger
      = { (w.record (.unexpectedExit x.generation
          (SessionFailure.unexpectedExit e.code).notice)).ledger with
          watches := w.watches.set j { x with place := .over } } := rfl
    _ = _ := by rw [hrecord]; rfl

/-- Every piece of a watch is such a change. -/
theorem watch?_change {j : Nat} (h : w.watch? j = some v) :
    Change (.run (.watch j)) w.ledger v.ledger := by
  obtain ⟨x, hx, ⟨hplace, q, e, -, -, rfl⟩ | ⟨e, r, hplace, hcase⟩⟩ := watch?_cases h
  · exact seeExit_change hx hplace
  · have hwrites := w.release_writes none x.generation r
    obtain ⟨u, r', heq, rfl⟩ | ⟨u, heq, rfl⟩ := hcase
    · rw [heq] at hwrites
      exact .release rfl hx hplace hwrites r'
    · rw [heq] at hwrites
      rw [reportExit_ledger]
      exact .report rfl hx hplace hwrites _

/-! ## Signals -/

/-- A pump that ends is a change of its own. -/
theorem endPump_change {k : Nat} {x : Pump} (hx : w.pumps[k]? = some x) :
    Change (.run (.pump k)) w.ledger (w.endPump k x).ledger := by
  unfold endPump
  simp only []
  split <;> exact .pump rfl hx .over

/-- What a pump does with a signal is a change of its own. -/
theorem handle_change {k : Nat} {x : Pump} (hx : w.pumps[k]? = some x) (signal : ClientSignal) :
    Change (.run (.pump k)) w.ledger (w.handle k x signal).ledger := by
  unfold handle
  split
  · exact endPump_change hx
  · split
    · by_cases hmove : w.generation = x.generation ∧ w.status ∈ [.running]
      · have hs : w.status = .running := by simpa using hmove.2
        rw [w.transition_of hmove, w.ledger_setStatus (by rw [hs]; nofun)]
        exact .busy rfl hx hmove.1 hs
      · rw [w.transition_of_not hmove]
        exact .still
    · by_cases hmove : w.generation = x.generation ∧ w.status ∈ [.busy]
      · have hs : w.status = .busy := by simpa using hmove.2
        rw [w.transition_of hmove, w.ledger_setStatus (by rw [hs]; nofun)]
        exact .idle rfl hx hmove.1 hs
      · rw [w.transition_of_not hmove]
        exact .still
    · split
      · exact .pump rfl hx .pressing
      · exact .still
    · exact endPump_change hx

/-- The ledger says nothing of keys. -/
theorem Pressed.ledger_eq {u : World} (h : w.Pressed u) : u.ledger = w.ledger := by
  obtain rfl | ⟨p, rfl⟩ := h
  · rfl
  · exact w.ledger_tellProcess p keyPress

/-- Every piece of a pump is such a change. -/
theorem pump?_change {k : Nat} (h : w.pump? k = some v) :
    Change (.run (.pump k)) w.ledger v.ledger := by
  obtain ⟨x, hx, ⟨-, u, hpressed, rfl⟩ | ⟨a, -, -, hcase⟩⟩ := pump?_cases h
  · have hledger := hpressed.ledger_eq
    have hpumps : u.pumps = w.pumps := congrArg Ledger.pumps hledger
    have hmove : (u.movePump k x .receiving).ledger =
        { w.ledger with pumps := w.ledger.pumps.set k { x with place := .receiving } } := by
      calc _ = { u.ledger with pumps := u.pumps.set k { x with place := .receiving } } := rfl
        _ = _ := by rw [hledger, hpumps]; rfl
    rw [hmove]
    exact .pump rfl hx .receiving
  · obtain ⟨-, -, rfl⟩ | ⟨signal, rest, -, rfl⟩ := hcase
    · exact endPump_change hx
    · exact handle_change (w := w.setClient x.client { a with mailbox := rest }) hx signal

/-! ## Moves -/

/-- An exit that is passed on is not in the ledger. -/
theorem passOn?_ledger {c : Nat} (h : w.passOn? c = some v) : v.ledger = w.ledger := by
  obtain ⟨k, q, e, -, -, -, -, -, rfl⟩ := passOn?_cases h
  rfl

/-- What goes over wires is not in the ledger. -/
theorem onWire?_ledger {c : Nat} {step : Client → Connection → Option (Client × Connection)}
    (h : w.onWire? c step = some v) : v.ledger = w.ledger := by
  obtain ⟨a, k, b, k', -, -, -, rfl⟩ := onWire?_cases h
  rfl

/-- Every step of an activity is a change. -/
theorem step?_change {r : Runner} (h : w.step? r = some v) :
    Change (.run r) w.ledger v.ledger := by
  cases r with
  | call i => exact call?_change h
  | exit c =>
    rw [passOn?_ledger h]
    exact .still
  | watch j => exact watch?_change h
  | reading c | writing c =>
    rw [onWire?_ledger h]
    exact .still
  | pump k => exact pump?_change h

/-- Every move of a session in use changes the ledger in one of these ways. -/
theorem move?_change {m : Move} (h : w.move? m = some v) (hm : m.ofSession = true) :
    Change m w.ledger v.ledger := by
  cases moves_of_move? h with
  | run hstep => exact step?_change hstep
  | perform hperform =>
    obtain ⟨job, u, job', hjob, hwork, rfl⟩ := perform?_cases hperform
    rw [ledger_setCall, performJob_ledger hwork]
    exact .perform rfl hjob job'
  | ask => exact .ask _ rfl
  | heed =>
    rw [(w.chore_heed _ _).ledger]
    exact .still
  | answerLaunch | endConsole | answerConnection | answerInquiry | take | send | silence | sever
  | writeFile | elapse | changeStore | letGo => exact .still
  | dissolve => cases hm

/-- Only its own pieces, and what comes to it from outside, change how far a call is. -/
theorem calls_of_move? {m : Move} (h : w.move? m = some v) (hm : m.ofSession = true) {i : Nat}
    {c : Call} (hi : w.calls[i]? = some c) :
    v.calls[i]? = some c ∨ m = .run (.call i) ∨ m = .perform i := by
  -- Another call's piece leaves the entry of this one as it is.
  have hother : ∀ {l : Ledger} {k : Nat} {c' : Call}, l.calls = w.calls → k ≠ i →
      (l.calls.set k c')[i]? = some c := by
    intro l k c' hl hki
    rw [List.getElem?_set_ne hki, hl]
    exact hi
  have hchange := move?_change h hm
  change v.ledger.calls[i]? = some c ∨ _
  generalize v.ledger = l' at hchange ⊢
  cases hchange with
  | still => exact .inl hi
  | ask command hm => exact .inl (getElem?_append_of_some hi _)
  | @call k job l' hm hk hw c' =>
    by_cases hki : k = i
    · subst hki
      exact .inr (.inl hm)
    · exact .inl (hother hw.calls_eq hki)
  | @perform k job hm hk job' =>
    by_cases hki : k = i
    · subst hki
      exact .inr (.inr hm)
    · exact .inl (hother (l := w.ledger) rfl hki)
  | release hm hx hp hl r' => exact .inl (hl.calls_eq.symm ▸ hi)
  | report hm hx hp hl notice => exact .inl (hl.calls_eq.symm ▸ hi)
  | fall | ignore | busy | idle | pump => exact .inl hi

/-- A call that is over stays so. -/
theorem over_of_move? {m : Move} (hmove : w.move? m = some v) (hof : m.ofSession = true) {i : Nat}
    {r : CallResult} (h : w.calls[i]? = some (.over r)) : v.calls[i]? = some (.over r) := by
  rcases calls_of_move? hmove hof h with hsame | rfl | rfl
  · exact hsame
  · obtain ⟨job, hjob, -⟩ := call?_cases hmove
    cases h.symm.trans hjob
  · obtain ⟨job, -, -, hjob, -, -⟩ := perform?_cases hmove
    cases h.symm.trans hjob

end World

end SessionHost
