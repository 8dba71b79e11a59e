import SessionHost.Proofs.Disposal.Deeds

/-!
# The phases of a process

Between its launch and its end a process goes through few phases: the launch has not begun, waits
for the launcher, has given the process a console, or has come to its end without one.  Every deed
leads from one of these phases to another one, and what a disposal has settled stays so.

Main definitions:

- `World.Stand`: the phases.
- `World.Transit`: how a process goes from one phase to another one.

Main results:

- Theorems `World.run_transit`, `World.dispose_transit` and others: one for each kind of deed.
- Theorem `World.deed_transit`, `World.Sequel.transit`: every deed is a transit, and so is a course
  of deeds.
-/

namespace SessionHost

/-! ## Phases -/

/-- A process without a console counts as ended as soon as it is disposed of. -/
structure ServerProcess.EmptyHanded (q : ServerProcess) : Prop where
  console_eq : q.console = none
  exit_eq : q.exit = if q.disposed then some .silent else none

/-- A console that its process has not taken over. -/
structure Console.Untouched (k : Console) : Prop where
  watched_eq : k.watched = false
  passedOn_eq : k.passedOn = false
  kills_eq : k.kills = 0

/-- A process has taken a console over, and kills it when it is disposed of.  Its exit is the one
that was passed on. -/
structure Registered (q : ServerProcess) (c : Nat) (k : Console) : Prop where
  console_eq : q.console = if q.disposed then none else some c
  exit_eq : q.exit = if k.passedOn then k.ending.map Ending.exit else none
  watched_eq : k.watched = true
  kills_eq : k.kills = if q.disposed then 1 else 0
  ending_of_passedOn : k.passedOn = true → k.ending.isSome = true
  answered : ∃ n, k.answer = some (.ok n)

/-- A launch has come to its end without a console: the launcher refused one, or it came too late
and was killed. -/
inductive TurnedAway (q : ServerProcess) (k : Console) : LaunchOutcome → Prop where
  | refused {e : SystemError} (hanswer : k.answer = some (.error e)) (hkills : k.kills = 0) :
      TurnedAway q k (.error (.spawn q.exe.path e))
  | dismissed {n : Option Nat} (hanswer : k.answer = some (.ok n)) (hkills : k.kills = 1)
      (hdisposed : q.disposed = true) : TurnedAway q k (.ok none)

/-- A call attends to the console of a process: it looks for the session file, or is over. -/
inductive Call.Attends (p : Nat) : Call → Prop where
  | looking {l : Launching} (h : l.Looks) : Attends p (.active (.launching p l))
  | ended (outcome : LaunchOutcome) : Attends p (.over (.launch outcome))

namespace World

variable {p i c c' : Nat} {n : Option Nat} {w v u : World} {q q' q'' : ServerProcess}
  {k k' : Console}

/-- The process has no console. -/
def Without (w : World) (p : Nat) : Prop :=
  ∀ ⦃c : Nat⦄ ⦃k : Console⦄, w.consoles[c]? = some k → k.owner ≠ p

/-- The one console of a process. -/
structure Only (w : World) (p c : Nat) (k : Console) : Prop where
  console : w.consoles[c]? = some k
  owner : k.owner = p
  unique : ∀ {c' : Nat} {k' : Console}, w.consoles[c']? = some k' → k'.owner = p → c' = c

/-- The phases of a process and of the call that launches it. -/
inductive Stand (p i : Nat) (w : World) (q : ServerProcess) : Prop where
  | due (hcall : w.calls[i]? = some (.active (.fresh (.launch p)))) (hempty : q.EmptyHanded)
      (hno : w.Without p)
  | asking {c : Nat} {k : Console} (hcall : w.calls[i]? = some (.active (.launching p (.answer c))))
      (hempty : q.EmptyHanded) (honly : w.Only p c k) (hk : k.Untouched)
  | held {c : Nat} {k : Console} {call : Call} (hcall : w.calls[i]? = some call)
      (hattends : call.Attends p) (honly : w.Only p c k) (hreg : Registered q c k)
  | unlaunched (hcall : w.calls[i]? = some (.over (.launch (.ok none)))) (hempty : q.EmptyHanded)
      (hdisposed : q.disposed = true) (hno : w.Without p)
  | turnedAway {c : Nat} {k : Console} {outcome : LaunchOutcome}
      (hcall : w.calls[i]? = some (.over (.launch outcome))) (hempty : q.EmptyHanded)
      (honly : w.Only p c k) (hwatched : k.watched = false) (haway : TurnedAway q k outcome)

/-- The consoles of a process are those that it had; none has been taken over or told anything but
to end. -/
def Settled (p : Nat) (w v : World) : Prop :=
  ∀ ⦃c : Nat⦄ ⦃k' : Console⦄, v.consoles[c]? = some k' → k'.owner = p →
    ∃ k, w.consoles[c]? = some k ∧ k.owner = p ∧ k'.watched = k.watched ∧
      v.requests c = w.requests c

/-- A process goes from one phase to another one: it stays disposed of, and its exit stays; what
is settled by a disposal stays so. -/
structure Transit (p i : Nat) (w : World) (q : ServerProcess) (v : World) (q' : ServerProcess) :
    Prop where
  process : v.processes[p]? = some q'
  exe_eq : q'.exe = q.exe
  stand : Stand p i v q'
  disposed : q.disposed = true → q'.disposed = true
  exit : ∀ {e : ConsoleExit}, q.exit = some e → q'.exit = some e
  settled : q.disposed = true → Settled p w v

/-! ## Consoles of a process -/

namespace Settled

/-- If no console has changed, all is settled. -/
theorem of_consoles (hc : v.consoles = w.consoles) (hr : ∀ c, v.requests c = w.requests c) :
    Settled p w v := fun c k' hk ho => ⟨k', hc ▸ hk, ho, rfl, hr c⟩

/-- What is settled twice is settled. -/
theorem trans (h : Settled p w v) (h' : Settled p v u) : Settled p w u := by
  intro c k'' hk'' ho''
  obtain ⟨k', hk', ho', hwatched', hreq'⟩ := h' hk'' ho''
  obtain ⟨k, hk, ho, hwatched, hreq⟩ := h hk' ho'
  exact ⟨k, hk, ho, hwatched'.trans hwatched, hreq'.trans hreq⟩

/-- Nobody else settles anything. -/
theorem of_beside (h : Beside p i w v) : Settled p w v := fun _ k' hk ho =>
  ⟨k', (h.console_iff ho).1 hk, ho, rfl, h.requests_eq hk ho⟩

/-- The one console is settled if it is awaited as before and was told to end at most. -/
theorem of_only (hw : w.Only p c k) (hv : v.Only p c k') (hwatched : k'.watched = k.watched)
    (hreq : v.requests c = w.requests c) : Settled p w v := by
  intro c' x hx ho
  obtain rfl := hv.unique hx ho
  obtain rfl : k' = x := Option.some.inj (hv.console.symm.trans hx)
  exact ⟨k, hw.console, hw.owner, hwatched, hreq⟩

end Settled

/-- Without new consoles a process gets none. -/
theorem Without.of_consoles (h : w.Without p) (hc : v.consoles = w.consoles) : v.Without p :=
  fun _ _ hk => h (hc ▸ hk)

/-- Nobody else gives a process a console. -/
theorem Without.of_beside (h : w.Without p) (hb : Beside p i w v) : v.Without p :=
  fun _ _ hk ho => h ((hb.console_iff ho).1 hk) ho

/-- Without new consoles the one console stays the only one. -/
theorem Only.of_consoles (h : w.Only p c k) (hc : v.consoles = w.consoles) : v.Only p c k :=
  ⟨hc ▸ h.console, h.owner, fun hk => h.unique (hc ▸ hk)⟩

/-- Nobody else gives a process a second console. -/
theorem Only.of_beside (h : w.Only p c k) (hb : Beside p i w v) : v.Only p c k :=
  ⟨(hb.console_iff h.owner).2 h.console, h.owner,
    fun hk ho => h.unique ((hb.console_iff ho).1 hk) ho⟩

/-- The one console of a process has changed. -/
theorem Only.set (h : w.Only p c k) (ho : k'.owner = k.owner)
    (hc : v.consoles = w.consoles.set c k') : v.Only p c k' where
  console := hc ▸ getElem?_set_at h.console k'
  owner := ho.trans h.owner
  unique {c' x} hx hox := by
    rw [hc] at hx
    rcases getElem?_set_cases hx with ⟨hcc, -⟩ | ⟨-, hx⟩
    · exact hcc
    · exact h.unique hx hox

/-- A process without a console gets its first one. -/
theorem Without.append (h : w.Without p) (ho : k.owner = p) (hc : v.consoles = w.consoles ++ [k]) :
    v.Only p w.consoles.length k where
  console := hc ▸ List.getElem?_concat_length
  owner := ho
  unique {c' x} hx hox := by
    rw [hc] at hx
    rcases getElem?_append_cases hx with hx | ⟨hcc, -⟩
    · exact absurd hox (h hx)
    · exact hcc

/-! ## Changes that keep the phase -/

/-- The phase speaks of the call, of the consoles, and of the process. -/
theorem Stand.of_beside (h : Stand p i w q) (hb : Beside p i w v) : Stand p i v q := by
  cases h with
  | due hcall hempty hno => exact .due (hb.call_eq.trans hcall) hempty (hno.of_beside hb)
  | asking hcall hempty honly hk =>
    exact .asking (hb.call_eq.trans hcall) hempty (honly.of_beside hb) hk
  | held hcall hattends honly hreg =>
    exact .held (hb.call_eq.trans hcall) hattends (honly.of_beside hb) hreg
  | unlaunched hcall hempty hdisposed hno =>
    exact .unlaunched (hb.call_eq.trans hcall) hempty hdisposed (hno.of_beside hb)
  | turnedAway hcall hempty honly hwatched haway =>
    exact .turnedAway (hb.call_eq.trans hcall) hempty (honly.of_beside hb) hwatched haway

namespace Transit

/-- Ways from phase to phase are put together. -/
theorem trans (h : Transit p i w q v q') (h' : Transit p i v q' u q'') : Transit p i w q u q'' where
  process := h'.process
  exe_eq := h'.exe_eq.trans h.exe_eq
  stand := h'.stand
  disposed hd := h'.disposed (h.disposed hd)
  exit he := h'.exit (h.exit he)
  settled hd := (h.settled hd).trans (h'.settled (h.disposed hd))

/-- Nobody else leads a process from its phase. -/
theorem of_beside (hq : w.processes[p]? = some q) (h : Stand p i w q) (hb : Beside p i w v) :
    Transit p i w q v q where
  process := hb.process_eq.trans hq
  exe_eq := rfl
  stand := h.of_beside hb
  disposed := id
  exit := id
  settled _ := .of_beside hb

end Transit

/-! ## The launch -/

/-- Deleting a file touches no console. -/
theorem consoles_deleteSessionFile (w : World) (path : Path) :
    (w.deleteSessionFile path).consoles = w.consoles := by
  unfold deleteSessionFile
  split <;> rfl

/-- What is sent to a console changes that console and nothing else of processes and calls. -/
theorem tell_cases (hk : w.consoles[c]? = some k) (command : ConsoleCommand) :
    (w.tell c command).processes = w.processes ∧ (w.tell c command).calls = w.calls ∧
      (w.tell c command).consoles = w.consoles.set c (k.told command) := by
  unfold tell
  rw [hk]
  simp only []
  split
  · exact ⟨rfl, rfl, rfl⟩
  · exact ⟨rfl, rfl, rfl⟩

/-- A kill is no request. -/
theorem requests_kill (w : World) (c c' : Nat) :
    (w.tell c .kill).requests c' = w.requests c' := by
  unfold tell
  split
  · rfl
  · simp only []
    split
    · exact requests_post ⟨c, some .kill⟩ (if_neg fun h => h.2 rfl)
    · rfl

/-- The launch begins: a process that is disposed of is not launched. -/
theorem beginLaunch_transit (hq : w.processes[p]? = some q)
    (hcall : w.calls[i]? = some (.active (.fresh (.launch p)))) (hempty : q.EmptyHanded)
    (hno : w.Without p) (h : w.call? i = some v) : Transit p i w q v q := by
  obtain ⟨job, hjob, hcase⟩ := call?_cases h
  obtain rfl : Job.fresh (.launch p) = job := by simpa [hcall] using hjob
  simp only [call, beginCall, beginLaunch, hq] at hcase
  by_cases hd : q.disposed = true
  · simp only [if_pos hd, Progress.andThen_finished, reduceCtorEq, Progress.finished.injEq] at hcase
    obtain ⟨_, _, ⟨⟩, _⟩ | ⟨_, _, ⟨rfl, rfl⟩, rfl⟩ := hcase
    exact ⟨hq, rfl, .unlaunched (getElem?_set_at hcall _) hempty hd (hno.of_consoles rfl), id, id,
      fun _ => .of_consoles rfl fun _ => rfl⟩
  · simp only [if_neg hd, askForConsole, Progress.andThen_going, Progress.going.injEq] at hcase
    obtain ⟨_, _, ⟨rfl, rfl⟩, rfl⟩ | ⟨_, _, ⟨⟩, _⟩ := hcase
    refine ⟨?_, rfl,
      .asking (c := w.consoles.length) (k := { owner := p }) ?_ hempty ?_ ⟨rfl, rfl, rfl⟩, id, id,
      fun hd' => absurd hd' hd⟩
    · exact (Beside.deleteSessionFile (i := i) w _).process_eq.trans hq
    · refine getElem?_set_at (a := .active (.fresh (.launch p))) ?_ _
      exact (Beside.deleteSessionFile (p := p) w _).call_eq.trans hcall
    · exact hno.append rfl (congrArg (· ++ _) (w.consoles_deleteSessionFile _))

/-- A process that is not disposed of takes its console over, and the launch begins to look for the
session file. -/
theorem adoptConsole_eq (hq : w.processes[p]? = some q) (hempty : q.EmptyHanded)
    (honly : w.Only p c k) (hd : ¬q.disposed = true) :
    ∃ u : World, w.adoptConsole p q c n = u.lookAgain p (q.holding c n) 1 ∧
      u.processes[p]? = some (q.holding c n) ∧ u.calls = w.calls ∧
      u.Only p c { k with watched := true } := by
  have hset : (w.setProcess p (q.holding c n)).consoles[c]? = some k := honly.console
  have hwatch : ((w.setProcess p (q.holding c n)).setConsole c { k with watched := true }).Only p c
      { k with watched := true } := honly.set rfl rfl
  unfold adoptConsole
  simp only [if_neg hd, hempty.console_eq, hset]
  split
  · refine ⟨_, rfl, ?_⟩
    obtain ⟨hprocesses, hcalls, hconsoles⟩ := tell_cases hwatch.console (.reveal true)
    rw [hprocesses, hcalls]
    exact ⟨getElem?_set_at hq _, rfl, hwatch.set rfl hconsoles⟩
  · exact ⟨_, rfl, getElem?_set_at hq _, rfl, hwatch⟩

/-- A call after a piece of its launch. -/
theorem call?_launching {l : Launching} (hcall : w.calls[i]? = some (.active (.launching p l)))
    (h : w.call? i = some v) :
    (∃ u l', w.launch p l = .going u l' ∧ v = u.setCall i (.active (.launching p l'))) ∨
      ∃ u outcome, w.launch p l = .finished u outcome ∧
        v = u.setCall i (.over (.launch outcome)) := by
  obtain ⟨job, hjob, hcase⟩ := call?_cases h
  obtain rfl : Job.launching p l = job := by simpa [hcall] using hjob
  simp only [call] at hcase
  cases hlaunch : w.launch p l with
  | blocked => simp [hlaunch] at hcase
  | going u l' =>
    simp only [hlaunch, Progress.andThen_going, Progress.going.injEq, reduceCtorEq] at hcase
    obtain ⟨_, _, ⟨rfl, rfl⟩, rfl⟩ | ⟨_, _, ⟨⟩, _⟩ := hcase
    exact .inl ⟨u, l', rfl, rfl⟩
  | finished u outcome =>
    simp only [hlaunch, Progress.andThen_finished, Progress.finished.injEq, reduceCtorEq] at hcase
    obtain ⟨_, _, ⟨⟩, _⟩ | ⟨_, _, ⟨rfl, rfl⟩, rfl⟩ := hcase
    exact .inr ⟨u, outcome, rfl, rfl⟩

/-- A launch that looks for its session file goes on doing so, or is over. -/
theorem LeavesAlone.attends {piece : LaunchProgress} (hpiece : LeavesAlone p i u piece)
    (h : (∃ x l, piece = .going x l ∧ v = x.setCall i (.active (.launching p l))) ∨
      ∃ x outcome, piece = .finished x outcome ∧ v = x.setCall i (.over (.launch outcome))) :
    ∃ x call, Beside p i u x ∧ v = x.setCall i call ∧ call.Attends p := by
  obtain ⟨x, l, rfl, rfl⟩ | ⟨x, outcome, rfl, rfl⟩ := h
  · exact ⟨x, _, hpiece.1, rfl, .looking hpiece.2⟩
  · exact ⟨x, _, hpiece, rfl, .ended outcome⟩

/-- The phase of a process whose call goes on attending to its console. -/
theorem Stand.of_attends {x : World} {call call' : Call} (hbeside : Beside p i u x)
    (hcall : u.calls[i]? = some call) (hattends : call'.Attends p) (honly : u.Only p c k)
    (hreg : Registered q c k) : Stand p i (x.setCall i call') q :=
  .held (getElem?_set_at (hbeside.call_eq.trans hcall) call') hattends
    ((honly.of_beside hbeside).of_consoles rfl) hreg

/-- The launcher's answer: it refuses a console, or the console comes too late, or the process
takes it over. -/
theorem takeAnswer_transit (hq : w.processes[p]? = some q)
    (hcall : w.calls[i]? = some (.active (.launching p (.answer c)))) (hempty : q.EmptyHanded)
    (honly : w.Only p c k) (hk : k.Untouched) (h : w.call? i = some v) :
    ∃ q', Transit p i w q v q' := by
  have hcase := call?_launching hcall h
  simp only [launch, hq, honly.console, Option.bind_some] at hcase
  cases hanswer : k.answer with
  | none => simp [hanswer] at hcase
  | some answer =>
    cases answer with
    | error e =>
      simp only [hanswer, reduceCtorEq, false_and, exists_false, false_or,
        Progress.finished.injEq] at hcase
      obtain ⟨_, _, ⟨rfl, rfl⟩, rfl⟩ := hcase
      exact ⟨q, hq, rfl, .turnedAway (getElem?_set_at hcall _) hempty (honly.of_consoles rfl)
        hk.watched_eq (.refused hanswer hk.kills_eq), id, id,
      fun _ => .of_consoles rfl fun _ => rfl⟩
    | ok n =>
      simp only [hanswer] at hcase
      by_cases hd : q.disposed = true
      · simp only [adoptConsole, if_pos hd, reduceCtorEq, false_and, exists_false, false_or,
          Progress.finished.injEq] at hcase
        obtain ⟨_, _, ⟨rfl, rfl⟩, rfl⟩ := hcase
        obtain ⟨hprocesses, hcalls, hconsoles⟩ := tell_cases honly.console .kill
        have honly' : (w.tell c .kill).Only p c (k.told .kill) := honly.set rfl hconsoles
        refine ⟨q, ?_, rfl, ?_, id, id, fun _ => ?_⟩
        · exact (congrArg (·[p]?) hprocesses).trans hq
        · exact .turnedAway (getElem?_set_at ((congrArg (·[i]?) hcalls).trans hcall) _) hempty
            (honly'.of_consoles rfl) hk.watched_eq
            (.dismissed hanswer (by simp [Console.told, hk.kills_eq]) hd)
        · exact .of_only honly (honly'.of_consoles rfl) rfl (requests_kill w c c)
      · obtain ⟨u, hadopt, hprocess, hcalls, honly'⟩ :=
          adoptConsole_eq hq hempty honly (n := n) hd
        rw [hadopt] at hcase
        obtain ⟨x, call, hbeside, rfl, hattends⟩ := (lookAgain_beside _ 1).attends hcase
        have hexit : q.exit = none := by rw [hempty.exit_eq, if_neg hd]
        have hreg : Registered (q.holding c n) c { k with watched := true } :=
          { console_eq := (if_neg hd).symm
            exit_eq := by simp [ServerProcess.holding, hexit, hk.passedOn_eq]
            watched_eq := rfl
            kills_eq := hk.kills_eq.trans (if_neg hd).symm
            ending_of_passedOn := fun hp => by simp [hk.passedOn_eq] at hp
            answered := ⟨n, hanswer⟩ }
        refine ⟨q.holding c n, hbeside.process_eq.trans hprocess, rfl, ?_, fun hd' => absurd hd' hd,
          fun he => ?_, fun hd' => absurd hd' hd⟩
        · exact .of_attends hbeside ((congrArg (·[i]?) hcalls).trans hcall) hattends honly' hreg
        · rw [hexit] at he
          cases he

/-- A piece of the launch. -/
theorem run_transit (hq : w.processes[p]? = some q) (hstand : Stand p i w q)
    (h : w.call? i = some v) : ∃ q', Transit p i w q v q' := by
  cases hstand with
  | due hcall hempty hno => exact ⟨q, beginLaunch_transit hq hcall hempty hno h⟩
  | asking hcall hempty honly hk => exact takeAnswer_transit hq hcall hempty honly hk h
  | held hcall hattends honly hreg =>
    cases hattends with
    | looking hlooks =>
      obtain ⟨x, call, hbeside, rfl, hattends⟩ :=
        (launch_beside hlooks).attends (call?_launching hcall h)
      exact ⟨q, hbeside.process_eq.trans hq, rfl, .of_attends hbeside hcall hattends honly hreg, id,
        id, fun _ => (Settled.of_beside hbeside).trans (.of_consoles rfl fun _ => rfl)⟩
    | ended outcome => simp [call?, hcall] at h
  | unlaunched hcall => simp [call?, hcall] at h
  | turnedAway hcall => simp [call?, hcall] at h

/-- Only a launch that looks for its session file waits for something from outside. -/
theorem performJob_launching {l : Launching} {job : Job}
    (h : w.performJob (.launching p l) = some (u, job)) :
    u = w ∧ l.Looks ∧ ∃ l', job = .launching p l' ∧ l'.Looks := by
  obtain ⟨l', hlook, hpair⟩ : ∃ l', w.arrival? p l = some l' ∧ (w, Job.launching p l') = (u, job) :=
    Option.map_eq_some_iff.1 h
  obtain ⟨rfl, rfl⟩ := Prod.mk.inj hpair
  unfold arrival? at hlook
  split at hlook
  · cases hlook
    exact ⟨rfl, trivial, _, rfl, trivial⟩
  · split at hlook
    · cases hlook
      exact ⟨rfl, trivial, _, rfl, trivial⟩
    · cases hlook
  · cases hlook

/-- The look at the session file, or the end of an interval. -/
theorem perform_transit (hq : w.processes[p]? = some q) (hstand : Stand p i w q)
    (h : w.perform? i = some v) : Transit p i w q v q := by
  obtain ⟨job, u, job', hjob, hperform, rfl⟩ := perform?_cases h
  cases hstand with
  | due hcall =>
    obtain rfl : Job.fresh (.launch p) = job := by simpa [hcall] using hjob
    cases hperform
  | @asking c k hcall =>
    obtain rfl : Job.launching p (.answer c) = job := by simpa [hcall] using hjob
    exact False.elim (performJob_launching hperform).2.1
  | held hcall hattends honly hreg =>
    cases hattends with
    | @looking l hlooks =>
      obtain rfl : Job.launching p l = job := by simpa [hcall] using hjob
      obtain ⟨rfl, -, l', rfl, hlooks'⟩ := performJob_launching hperform
      exact ⟨hq, rfl, .of_attends (.refl u) hcall (.looking hlooks') honly hreg, id, id, fun _ =>
        .of_consoles rfl fun _ => rfl⟩
    | ended outcome => simp [hcall] at hjob
  | unlaunched hcall => simp [hcall] at hjob
  | turnedAway hcall => simp [hcall] at hjob

/-! ## Consoles -/

end World

/-- What a console meets with from outside: it may be answered for or end, each at most once, and be
written to. -/
structure Console.Meets (k k' : Console) : Prop where
  owner_eq : k'.owner = k.owner
  watched_eq : k'.watched = k.watched
  passedOn_eq : k'.passedOn = k.passedOn
  kills_eq : k'.kills = k.kills
  answer : ∀ {a : LaunchAnswer}, k.answer = some a → k'.answer = some a
  ending : ∀ {e : Ending}, k.ending = some e → k'.ending = some e

section Changes

variable {q : ServerProcess} {c : Nat} {k k' : Console} {outcome : LaunchOutcome}

/-- Being told anything but to end is one of the things a console meets with. -/
theorem Console.Meets.of_told {command : ConsoleCommand} (h : command ≠ .kill) (k : Console) :
    k.Meets (k.told command) := by
  cases command with
  | kill => exact absurd rfl h
  | text input => exact ⟨rfl, rfl, rfl, rfl, id, id⟩
  | reveal preserve => exact ⟨rfl, rfl, rfl, rfl, id, id⟩

/-- What a console meets with does not put it into a process's hands. -/
theorem Console.Untouched.meets (hk : k.Untouched) (h : k.Meets k') : k'.Untouched :=
  ⟨h.watched_eq.trans hk.watched_eq, h.passedOn_eq.trans hk.passedOn_eq,
    h.kills_eq.trans hk.kills_eq⟩

/-- What a console meets with does not take it out of them. -/
theorem Registered.meets (hreg : Registered q c k) (h : k.Meets k') : Registered q c k' where
  console_eq := hreg.console_eq
  exit_eq := by
    rw [hreg.exit_eq, h.passedOn_eq]
    cases hp : k.passedOn with
    | false => rfl
    | true =>
      obtain ⟨e, he⟩ := Option.isSome_iff_exists.1 (hreg.ending_of_passedOn hp)
      rw [he, h.ending he]
  watched_eq := h.watched_eq.trans hreg.watched_eq
  kills_eq := h.kills_eq.trans hreg.kills_eq
  ending_of_passedOn hp := by
    obtain ⟨e, he⟩ := Option.isSome_iff_exists.1
      (hreg.ending_of_passedOn (h.passedOn_eq.symm.trans hp))
    rw [h.ending he]
    rfl
  answered := hreg.answered.imp fun _ => h.answer

/-- A launch that was turned away stays so. -/
theorem TurnedAway.meets (haway : TurnedAway q k outcome) (h : k.Meets k') :
    TurnedAway q k' outcome := by
  cases haway with
  | refused hanswer hkills => exact .refused (h.answer hanswer) (h.kills_eq.trans hkills)
  | dismissed hanswer hkills hdisposed =>
    exact .dismissed (h.answer hanswer) (h.kills_eq.trans hkills) hdisposed

/-- The exit of a console is passed on once, to a process that has none yet. -/
theorem Registered.exit_eq_none (h : Registered q c k) (hp : k.passedOn = false) :
    q.exit = none := by
  simp [h.exit_eq, hp]

/-! ## After a disposal -/

/-- A process without a console counts as ended once it is disposed of. -/
theorem ServerProcess.EmptyHanded.retired (h : q.EmptyHanded) (hd : q.disposed = false) :
    q.retired.EmptyHanded where
  console_eq := rfl
  exit_eq := by simp [ServerProcess.retired, h.console_eq, h.exit_eq, hd]

/-- A disposal tells the console to end. -/
theorem Registered.retired (h : Registered q c k) (hd : q.disposed = false) :
    Registered q.retired c (k.told .kill) where
  console_eq := rfl
  exit_eq := by
    have hc : q.console.isSome = true := by rw [h.console_eq, hd]; rfl
    exact (if_pos hc).trans h.exit_eq
  watched_eq := h.watched_eq
  kills_eq := by
    have hk : k.kills = 0 := by rw [h.kills_eq, hd]; rfl
    simp [ServerProcess.retired, Console.told, hk]
  ending_of_passedOn := h.ending_of_passedOn
  answered := h.answered

/-- A disposal leaves an exit that has come. -/
theorem ServerProcess.exit_retired {e : ConsoleExit} (h : q.exit = some e) :
    q.retired.exit = some e := by
  simp [ServerProcess.retired, h]

end Changes

namespace World

variable {p i c : Nat} {w v : World} {q q' : ServerProcess} {k k' : Console}

/-- A process has at most one console. -/
theorem Only.eq (h : w.Only p c k) {c' : Nat} {k' : Console} (hk : w.consoles[c']? = some k')
    (ho : k'.owner = p) : c' = c ∧ k' = k := by
  obtain rfl := h.unique hk ho
  exact ⟨rfl, Option.some.inj (hk.symm.trans h.console)⟩

/-- The phase does not end with what the console of the process meets with. -/
theorem Stand.of_meets (h : Stand p i w q) (hk : w.consoles[c]? = some k) (ho : k.owner = p)
    (hmeets : k.Meets k') (hcalls : v.calls = w.calls)
    (hconsoles : v.consoles = w.consoles.set c k') :
    Stand p i v q := by
  cases h with
  | due hcall hempty hno => exact absurd ho (hno hk)
  | asking hcall hempty honly huntouched =>
    obtain ⟨rfl, rfl⟩ := honly.eq hk ho
    exact .asking (hcalls ▸ hcall) hempty (honly.set hmeets.owner_eq hconsoles)
      (huntouched.meets hmeets)
  | held hcall hattends honly hreg =>
    obtain ⟨rfl, rfl⟩ := honly.eq hk ho
    exact .held (hcalls ▸ hcall) hattends (honly.set hmeets.owner_eq hconsoles)
      (hreg.meets hmeets)
  | unlaunched hcall hempty hdisposed hno => exact absurd ho (hno hk)
  | turnedAway hcall hempty honly hwatched haway =>
    obtain ⟨rfl, rfl⟩ := honly.eq hk ho
    exact .turnedAway (hcalls ▸ hcall) hempty (honly.set hmeets.owner_eq hconsoles)
      (hmeets.watched_eq.trans hwatched) (haway.meets hmeets)

/-- A console meets with something from outside, whoever it belongs to. -/
theorem meets_transit (hq : w.processes[p]? = some q) (hstand : Stand p i w q)
    (hk : w.consoles[c]? = some k) (hmeets : k.Meets k') :
    Transit p i w q (w.setConsole c k') q := by
  by_cases ho : k.owner = p
  · refine ⟨hq, rfl, hstand.of_meets hk ho hmeets rfl rfl, id, id, fun _ c' x hx hox => ?_⟩
    rcases getElem?_set_cases hx with ⟨rfl, rfl⟩ | ⟨-, hx⟩
    · exact ⟨k, hk, ho, hmeets.watched_eq, rfl⟩
    · exact ⟨x, hx, hox, rfl, rfl⟩
  · exact .of_beside hq hstand (.setConsole hk ho hmeets.owner_eq)

/-- An answer of the launcher keeps the phase. -/
theorem answerLaunch_transit {a : LaunchAnswer} (hq : w.processes[p]? = some q)
    (hstand : Stand p i w q) (h : w.answerLaunch? c a = some v) : Transit p i w q v q := by
  cases moves_of_move? (m := .answerLaunch c a) h with
  | answerLaunch hk hnone =>
    refine meets_transit hq hstand hk ⟨rfl, rfl, rfl, rfl, fun ha => ?_, id⟩
    rw [hnone] at ha
    cases ha

/-- The end of a console keeps the phase until it is passed on. -/
theorem endConsole_transit {e : Ending} (hq : w.processes[p]? = some q)
    (hstand : Stand p i w q) (h : w.endConsole? c e = some v) : Transit p i w q v q := by
  cases moves_of_move? (m := .endConsole c e) h with
  | endConsole hk hnone =>
    refine meets_transit hq hstand hk ⟨rfl, rfl, rfl, rfl, id, fun he => ?_⟩
    rw [hnone] at he
    cases he

/-- Only a console that its process has taken over is watched. -/
theorem Stand.registered (h : Stand p i w q) (hk : w.consoles[c]? = some k) (ho : k.owner = p)
    (hwatched : k.watched = true) : w.Only p c k ∧ Registered q c k ∧
      ∃ call, w.calls[i]? = some call ∧ call.Attends p := by
  cases h with
  | due hcall hempty hno => exact absurd ho (hno hk)
  | asking hcall hempty honly huntouched =>
    obtain ⟨rfl, rfl⟩ := honly.eq hk ho
    rw [huntouched.watched_eq] at hwatched
    cases hwatched
  | held hcall hattends honly hreg =>
    obtain ⟨rfl, rfl⟩ := honly.eq hk ho
    exact ⟨honly, hreg, _, hcall, hattends⟩
  | unlaunched hcall hempty hdisposed hno => exact absurd ho (hno hk)
  | turnedAway hcall hempty honly hw haway =>
    obtain ⟨rfl, rfl⟩ := honly.eq hk ho
    rw [hw] at hwatched
    cases hwatched

/-- An exit that is passed on leads from phase to phase. -/
theorem passOn_transit (hq : w.processes[p]? = some q) (hstand : Stand p i w q)
    (h : w.passOn? c = some v) : ∃ q', Transit p i w q v q' := by
  obtain ⟨k, x, e, hk, hx, he, hwatched, hpassed, rfl⟩ := passOn?_cases h
  by_cases ho : k.owner = p
  · obtain ⟨honly, hreg, call, hcall, hattends⟩ := hstand.registered hk ho hwatched
    subst ho
    obtain rfl : q = x := Option.some.inj (hq.symm.trans hx)
    have honly' : (w.setConsole c { k with passedOn := true }).Only k.owner c
        { k with passedOn := true } := honly.set rfl rfl
    have hreg' : Registered { q with exit := some e.exit } c { k with passedOn := true } :=
      { console_eq := hreg.console_eq
        exit_eq := by simp [he]
        watched_eq := hwatched
        kills_eq := hreg.kills_eq
        ending_of_passedOn := fun _ => by simp [he]
        answered := hreg.answered }
    refine ⟨_, getElem?_set_at hq _, rfl, .held hcall hattends (honly'.of_consoles rfl) hreg', id,
      fun hexit => ?_, fun _ => .of_only honly (honly'.of_consoles rfl) rfl rfl⟩
    rw [Registered.exit_eq_none hreg hpassed] at hexit
    cases hexit
  · have hbeside : Beside p i w (w.setConsole c { k with passedOn := true }) :=
      .setConsole hk ho rfl
    exact ⟨q, .of_beside hq hstand (hbeside.trans (.setProcess ho _))⟩

/-! ## Requests -/

/-- Only a process that has a console and is not disposed of passes requests on. -/
theorem Stand.console_cases (h : Stand p i w q) :
    q.console = none ∨ ∃ c k call, q.console = some c ∧ q.disposed = false ∧ w.Only p c k ∧
      Registered q c k ∧ w.calls[i]? = some call ∧ call.Attends p := by
  cases h with
  | due hcall hempty => exact .inl hempty.console_eq
  | asking hcall hempty => exact .inl hempty.console_eq
  | @held c k call hcall hattends honly hreg =>
    cases hd : q.disposed with
    | true => exact .inl (by rw [hreg.console_eq, hd]; rfl)
    | false =>
      exact .inr ⟨c, k, call, by rw [hreg.console_eq, hd]; rfl, rfl, honly, hreg, hcall, hattends⟩
  | unlaunched hcall hempty => exact .inl hempty.console_eq
  | turnedAway hcall hempty => exact .inl hempty.console_eq

/-- A process without a console is told nothing. -/
theorem tellProcess_of_none (hq : w.processes[p]? = some q) (h : q.console = none)
    (command : ConsoleCommand) : w.tellProcess p command = w := by
  simp [tellProcess, hq, h]

/-- What a process is told, its console is told. -/
theorem tellProcess_of_some (hq : w.processes[p]? = some q) (h : q.console = some c)
    (command : ConsoleCommand) : w.tellProcess p command = w.tell c command := by
  simp [tellProcess, hq, h]

/-- A key is pressed, or the console is to be shown. -/
theorem request_transit {command : ConsoleCommand} (hcommand : command ≠ .kill)
    (hq : w.processes[p]? = some q) (hstand : Stand p i w q) :
    Transit p i w q (w.tellProcess p command) q := by
  obtain hnone | ⟨c, k, call, hc, hd, honly, -⟩ := hstand.console_cases
  · rw [tellProcess_of_none hq hnone]
    exact .of_beside hq hstand (.refl w)
  · rw [tellProcess_of_some hq hc]
    obtain ⟨hprocesses, hcalls, hconsoles⟩ := tell_cases honly.console command
    refine ⟨(congrArg (·[p]?) hprocesses).trans hq, rfl, ?_, id, id, fun hd' => ?_⟩
    · exact hstand.of_meets honly.console honly.owner (.of_told hcommand k) hcalls hconsoles
    · rw [hd] at hd'
      cases hd'

/-! ## The process -/

/-- A watch over the exit keeps the phase. -/
theorem takeNotice_transit (hq : w.processes[p]? = some q) (hstand : Stand p i w q) :
    Transit p i w q (w.setProcess p { q with noticeTaken := true })
      { q with noticeTaken := true } := by
  refine ⟨getElem?_set_at hq _, rfl, ?_, id, id, fun _ => .of_consoles rfl fun _ => rfl⟩
  cases hstand with
  | due hcall hempty hno => exact .due hcall ⟨hempty.1, hempty.2⟩ hno
  | asking hcall hempty honly hk =>
    exact .asking hcall ⟨hempty.1, hempty.2⟩ (honly.of_consoles rfl) hk
  | held hcall hattends honly hreg =>
    exact .held hcall hattends (honly.of_consoles rfl)
      ⟨hreg.1, hreg.2, hreg.3, hreg.4, hreg.5, hreg.6⟩
  | unlaunched hcall hempty hd hno => exact .unlaunched hcall ⟨hempty.1, hempty.2⟩ hd hno
  | turnedAway hcall hempty honly hwatched haway =>
    refine .turnedAway hcall ⟨hempty.1, hempty.2⟩ (honly.of_consoles rfl) hwatched ?_
    cases haway with
    | refused hanswer hkills => exact .refused hanswer hkills
    | dismissed hanswer hkills hd => exact .dismissed hanswer hkills hd

/-! ## Disposal -/

/-- A second disposal changes nothing. -/
theorem dispose_of_disposed (hq : w.processes[p]? = some q) (hd : q.disposed = true) :
    w.dispose p = w := by
  simp [dispose, hq, hd]

/-- Disposing of a process that has no console: there is nobody to be told. -/
theorem dispose_of_none (hq : w.processes[p]? = some q) (hd : q.disposed = false)
    (h : q.console = none) :
    w.dispose p = (w.deleteSessionFile q.spec.sessionFile).setProcess p q.retired := by
  have hfile : (w.deleteSessionFile q.spec.sessionFile).processes[p]? = some q :=
    (Beside.deleteSessionFile (i := 0) w _).process_eq.trans hq
  simp [dispose, hq, hd, tellProcess_of_none hfile h]

/-- Disposing of a process that has a console, which is told to end. -/
theorem dispose_of_some (hq : w.processes[p]? = some q) (hd : q.disposed = false)
    (h : q.console = some c) :
    w.dispose p =
      ((w.deleteSessionFile q.spec.sessionFile).tell c .kill).setProcess p q.retired := by
  have hfile : (w.deleteSessionFile q.spec.sessionFile).processes[p]? = some q :=
    (Beside.deleteSessionFile (i := 0) w _).process_eq.trans hq
  simp [dispose, hq, hd, tellProcess_of_some hfile h]

/-- A disposal leads to the phase of a disposed process. -/
theorem Transit.of_retired (hd : q.disposed = false) (hv : v.processes[p]? = some q.retired)
    (hstand : Stand p i v q.retired) : Transit p i w q v q.retired where
  process := hv
  exe_eq := rfl
  stand := hstand
  disposed _ := rfl
  exit := ServerProcess.exit_retired
  settled hd' := by
    rw [hd] at hd'
    cases hd'

/-- Disposing of a process: the console that it has is told to end; without one it counts as
ended. -/
theorem dispose_transit (hq : w.processes[p]? = some q) (hstand : Stand p i w q) :
    ∃ q', Transit p i w q (w.dispose p) q' ∧ q'.disposed = true := by
  cases hd : q.disposed with
  | true =>
    rw [dispose_of_disposed hq hd]
    exact ⟨q, .of_beside hq hstand (.refl w), hd⟩
  | false =>
    refine ⟨q.retired, ?_, rfl⟩
    have hfile : Beside p i w (w.deleteSessionFile q.spec.sessionFile) := .deleteSessionFile w _
    have hfiled := hfile.process_eq.trans hq
    cases hstand with
    | due hcall hempty hno =>
      rw [dispose_of_none hq hd hempty.console_eq]
      exact .of_retired hd (getElem?_set_at hfiled _)
        (.due (hfile.call_eq.trans hcall) (hempty.retired hd)
          ((hno.of_beside hfile).of_consoles rfl))
    | asking hcall hempty honly hk =>
      rw [dispose_of_none hq hd hempty.console_eq]
      exact .of_retired hd (getElem?_set_at hfiled _) (.asking (hfile.call_eq.trans hcall)
        (hempty.retired hd) ((honly.of_beside hfile).of_consoles rfl) hk)
    | @held c k call hcall hattends honly hreg =>
      rw [dispose_of_some hq hd (by rw [hreg.console_eq, hd]; rfl)]
      obtain ⟨hprocesses, hcalls, hconsoles⟩ := tell_cases (honly.of_beside hfile).console .kill
      have honly' : ((w.deleteSessionFile q.spec.sessionFile).tell c .kill).Only p c
          (k.told .kill) := (honly.of_beside hfile).set rfl hconsoles
      exact .of_retired hd (getElem?_set_at ((congrArg (·[p]?) hprocesses).trans hfiled) _)
        (.held ((congrArg (·[i]?) hcalls).trans (hfile.call_eq.trans hcall)) hattends
          (honly'.of_consoles rfl) (hreg.retired hd))
    | unlaunched hcall hempty hdisposed hno =>
      rw [hd] at hdisposed
      cases hdisposed
    | turnedAway hcall hempty honly hwatched haway =>
      rw [dispose_of_none hq hd hempty.console_eq]
      refine .of_retired hd (getElem?_set_at hfiled _) (.turnedAway (hfile.call_eq.trans hcall)
        (hempty.retired hd) ((honly.of_beside hfile).of_consoles rfl) hwatched ?_)
      cases haway with
      | refused hanswer hkills => exact .refused hanswer hkills
      | dismissed hanswer hkills hdisposed => exact .dismissed hanswer hkills rfl

/-! ## Deeds -/

/-- Every deed leads from one phase to another one. -/
theorem deed_transit {d : Deed} (hq : w.processes[p]? = some q) (hstand : Stand p i w q)
    (hd : d.suits i = true) (h : w.deed? p d = some v) : ∃ q', Transit p i w q v q' := by
  cases d with
  | move m =>
    cases m with
    | run r =>
      cases r with
      | call j =>
        obtain rfl : j = i := of_decide_eq_true hd
        exact run_transit hq hstand h
      | exit c => exact passOn_transit hq hstand h
      | watch _ | reading _ | writing _ | pump _ => cases hd
    | perform j =>
      obtain rfl : j = i := of_decide_eq_true hd
      exact ⟨q, perform_transit hq hstand h⟩
    | answerLaunch c a => exact ⟨q, answerLaunch_transit hq hstand h⟩
    | heed c => exact ⟨q, .of_beside hq hstand (heed_beside h)⟩
    | endConsole c e => exact ⟨q, endConsole_transit hq hstand h⟩
    | ask _ | answerConnection _ _ | answerInquiry _ _ | take _ _ | send _ _ | silence _ | sever _
    | writeFile _ _ | elapse _ | changeStore _ | letGo | dissolve => cases hd
  | dispose =>
    cases h
    obtain ⟨q', htransit, -⟩ := dispose_transit hq hstand
    exact ⟨q', htransit⟩
  | press =>
    cases h
    exact ⟨q, request_transit (by decide) hq hstand⟩
  | reveal preserve =>
    cases h
    exact ⟨q, request_transit ConsoleCommand.noConfusion hq hstand⟩
  | takeNotice =>
    obtain ⟨x, hx, rfl⟩ := Option.map_eq_some_iff.1 h
    obtain rfl := Option.some.inj (hq.symm.trans hx)
    exact ⟨_, takeNotice_transit hq hstand⟩

/-- So does a course of deeds. -/
theorem Sequel.transit {start : World} {ds : List Deed} (hq : start.processes[p]? = some q)
    (hstand : Stand p i start q) (h : Sequel p i start ds w) :
    ∃ q', Transit p i start q w q' := by
  induction h with
  | refl => exact ⟨q, .of_beside hq hstand (.refl start)⟩
  | step _ hd hdeed ih =>
    obtain ⟨q', htransit⟩ := ih
    obtain ⟨q'', hstep⟩ := deed_transit htransit.process htransit.stand hd hdeed
    exact ⟨q'', htransit.trans hstep⟩
  | beside _ hbeside ih =>
    obtain ⟨q', htransit⟩ := ih
    exact ⟨q', htransit.trans (.of_beside htransit.process htransit.stand hbeside)⟩

/-- After a course with a disposal in it the process is disposed of. -/
theorem Sequel.disposed {start : World} {ds : List Deed} (hq : start.processes[p]? = some q)
    (hstand : Stand p i start q) (h : Sequel p i start ds w) (hds : .dispose ∈ ds) :
    ∃ q', w.processes[p]? = some q' ∧ q'.disposed = true := by
  induction h with
  | refl => cases hds
  | @step ds w v d hcourse hd hdeed ih =>
    obtain ⟨q', htransit⟩ := hcourse.transit hq hstand
    rcases List.mem_append.1 hds with hmem | hlast
    · obtain ⟨x, hx, hdisposed⟩ := ih hmem
      obtain rfl := Option.some.inj (htransit.process.symm.trans hx)
      obtain ⟨q'', hstep⟩ := deed_transit htransit.process htransit.stand hd hdeed
      exact ⟨q'', hstep.process, hstep.disposed hdisposed⟩
    · obtain rfl := List.mem_singleton.1 hlast
      cases hdeed
      obtain ⟨q'', hstep, hdisposed⟩ := dispose_transit htransit.process htransit.stand
      exact ⟨q'', hstep.process, hdisposed⟩
  | beside _ hbeside ih =>
    obtain ⟨q', hq', hdisposed⟩ := ih hds
    exact ⟨q', hbeside.process_eq.trans hq', hdisposed⟩

end World

end SessionHost
