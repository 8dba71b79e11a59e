import SessionHost.Proofs.Disposal.Phases

/-!
# Launching and disposing of a process

A process that is disposed of ends for good, wherever its launch may be at that moment: the
duty to kill the console and to report the exit lies with the disposal or with the launch, and
is done once.

Main definitions:

- `World.Unstarted`: a process and the call that is to launch it.
- `World.Unregistered`: the process has not taken a console over.
- `World.Handled`: what holds of a process in the course of deeds.

Main results:

- Theorem `World.Sequel.handled`: it holds for all orders of a launch, of disposals, of requests and
  of the end of the console.
-/

namespace SessionHost

namespace World

variable {p i c : Nat} {w v start : World} {q q' : ServerProcess} {k : Console} {ds : List Deed}

/-- A process that nobody has launched or disposed of, and the call that is to launch it. -/
structure Unstarted (w : World) (p i : Nat) (q : ServerProcess) : Prop where
  process : w.processes[p]? = some q
  call : w.calls[i]? = some (.active (.fresh (.launch p)))
  console : q.console = none
  exit : q.exit = none
  disposed : q.disposed = false
  without : w.Without p

/-- The exit of a process, when it has come. -/
def exitOf (w : World) (p : Nat) : Option ConsoleExit := w.processes[p]?.bind ServerProcess.exit

/-- The process has not taken a console over. -/
def Unregistered (w : World) (p : Nat) : Prop :=
  ∀ ⦃c : Nat⦄ ⦃k : Console⦄, w.consoles[c]? = some k → k.owner = p → k.watched = false

/-- The process has a console. -/
def Owns (w : World) (p c : Nat) (k : Console) : Prop := w.consoles[c]? = some k ∧ k.owner = p

/-- The launch found its process disposed of, or the launcher failed. -/
def EndedEarly (w : World) (p : Nat) (exe : Path) (r : CallResult) : Prop :=
  r = .launch (.ok none) ∨
    ∃ c k e, w.Owns p c k ∧ k.answer = some (.error e) ∧ r = .launch (.error (.spawn exe e))

/-- What holds after some deeds of a process with a given program, whatever comes next. -/
structure Handled (p i : Nat) (exe : Path) (ds : List Deed) (w : World) : Prop where
  one_console : ∀ {c c' k k'}, w.Owns p c k → w.Owns p c' k' → c = c'
  kills_le_one : ∀ {c k}, w.Owns p c k → k.kills ≤ 1
  killed : .dispose ∈ ds → ∀ {r}, w.calls[i]? = some (.over r) → ∀ {c k n}, w.Owns p c k →
    k.answer = some (.ok n) → k.kills = 1
  exit_once : ∀ {c k v}, w.Owns p c k → w.passOn? c = some v → w.exitOf p = none
  exit_lasts : ∀ {e}, w.exitOf p = some e → ∀ {es v}, Sequel p i w es v → v.exitOf p = some e
  exit_of_disposed : .dispose ∈ ds → w.Unregistered p → w.exitOf p = some .silent
  exit_of_ended : ∀ {c k e}, w.Owns p c k → k.watched = true → k.ending = some e →
    w.exitOf p = some e.exit ∨ ∃ v, w.passOn? c = some v ∧ v.exitOf p = some e.exit
  /-- The next piece of the launch takes over what the launcher has handed out, unless the process
  is disposed of. -/
  registers : ∀ {c k n}, w.Owns p c k → k.answer = some (.ok n) →
    k.watched = true ∨ w.exitOf p = some .silent ∨
      ∃ v k', w.call? i = some v ∧ v.Owns p c k' ∧ k'.watched = true
  early : w.Unregistered p → ∀ {es v}, Sequel p i (w.dispose p) es v →
    v.Unregistered p ∧ ∀ {r}, v.calls[i]? = some (.over r) → v.EndedEarly p exe r
  /-- A launch that has been called off early comes to its end as soon as the launcher answers. -/
  early_ends : .dispose ∈ ds → w.Unregistered p →
    (∃ r, w.calls[i]? = some (.over r)) ∨
      (∃ c k, w.calls[i]? = some (.active (.launching p (.answer c))) ∧ w.Owns p c k ∧
        k.answer = none) ∨
      ∃ v r, w.call? i = some v ∧ v.calls[i]? = some (.over r)
  quiet : ∀ {es v}, Sequel p i (w.dispose p) es v → ∀ {c k}, v.Owns p c k →
    v.requests c = w.requests c

/-- The exit of a process is read off the process. -/
theorem exitOf_of_process (hq : w.processes[p]? = some q) : w.exitOf p = q.exit := by
  rw [exitOf, hq]
  rfl

/-- A process that has not been launched is in the first phase. -/
theorem Unstarted.stand (h : start.Unstarted p i q) : Stand p i start q :=
  .due h.call ⟨h.console, by rw [h.exit, h.disposed]; rfl⟩ h.without

/-! ## Kills -/

/-- The console of a process is killed once at most. -/
theorem Stand.kills_le_one (h : Stand p i w q) (ho : w.Owns p c k) : k.kills ≤ 1 := by
  cases h with
  | due hcall hempty hno => exact absurd ho.2 (hno ho.1)
  | asking hcall hempty honly huntouched =>
    obtain ⟨rfl, rfl⟩ := honly.eq ho.1 ho.2
    simp [huntouched.kills_eq]
  | held hcall hattends honly hreg =>
    obtain ⟨rfl, rfl⟩ := honly.eq ho.1 ho.2
    rw [hreg.kills_eq]
    split <;> decide
  | unlaunched hcall hempty hdisposed hno => exact absurd ho.2 (hno ho.1)
  | turnedAway hcall hempty honly hwatched haway =>
    obtain ⟨rfl, rfl⟩ := honly.eq ho.1 ho.2
    cases haway with
    | refused hanswer hkills => simp [hkills]
    | dismissed hanswer hkills hdisposed => simp [hkills]

/-- A console that was handed out is killed by the disposal or by the end of the launch. -/
theorem Stand.killed (h : Stand p i w q) (hd : q.disposed = true) {r : CallResult}
    (hover : w.calls[i]? = some (.over r)) (ho : w.Owns p c k)
    {n : Option Nat} (hanswer : k.answer = some (.ok n)) : k.kills = 1 := by
  cases h with
  | due hcall hempty hno => exact absurd ho.2 (hno ho.1)
  | asking hcall => simp [hcall] at hover
  | held hcall hattends honly hreg =>
    obtain ⟨rfl, rfl⟩ := honly.eq ho.1 ho.2
    rw [hreg.kills_eq, if_pos hd]
  | unlaunched hcall hempty hdisposed hno => exact absurd ho.2 (hno ho.1)
  | turnedAway hcall hempty honly hwatched haway =>
    obtain ⟨rfl, rfl⟩ := honly.eq ho.1 ho.2
    cases haway with
    | refused hrefused => simp [hrefused] at hanswer
    | dismissed hanswer hkills hdisposed => exact hkills

/-! ## Exits -/

/-- An exit is passed on at most once. -/
theorem Stand.exit_once (h : Stand p i w q) (hq : w.processes[p]? = some q)
    (ho : w.Owns p c k) (hv : w.passOn? c = some v) :
    w.exitOf p = none := by
  obtain ⟨x, _, _, hx, -, -, hwatched, hpassed, -⟩ := passOn?_cases hv
  obtain rfl : k = x := Option.some.inj (ho.1.symm.trans hx)
  obtain ⟨-, hreg, -⟩ := h.registered ho.1 ho.2 hwatched
  rw [exitOf_of_process hq, hreg.exit_eq_none hpassed]

/-- A process that has not taken a console over and is disposed of counts as ended. -/
theorem Stand.exit_of_unregistered (h : Stand p i w q) (hd : q.disposed = true)
    (hun : w.Unregistered p) : q.exit = some .silent := by
  have hempty (hempty : q.EmptyHanded) : q.exit = some .silent := by
    rw [hempty.exit_eq, if_pos hd]
  cases h with
  | due _ h => exact hempty h
  | asking _ h => exact hempty h
  | held hcall hattends honly hreg =>
    have hwatched := hun honly.console honly.owner
    rw [hreg.watched_eq] at hwatched
    cases hwatched
  | unlaunched _ h => exact hempty h
  | turnedAway _ h => exact hempty h

/-- The end of a console that was taken over reaches its process. -/
theorem Stand.exit_of_ended (h : Stand p i w q) (hq : w.processes[p]? = some q)
    (ho : w.Owns p c k) (hwatched : k.watched = true)
    {e : Ending} (he : k.ending = some e) :
    w.exitOf p = some e.exit ∨ ∃ v, w.passOn? c = some v ∧ v.exitOf p = some e.exit := by
  obtain ⟨-, hreg, -⟩ := h.registered ho.1 ho.2 hwatched
  cases hpassed : k.passedOn with
  | true =>
    left
    rw [exitOf_of_process hq, hreg.exit_eq, hpassed, he]
    rfl
  | false =>
    right
    obtain ⟨hk, rfl⟩ := ho
    refine ⟨(w.setConsole c { k with passedOn := true }).setProcess k.owner
      { q with exit := some e.exit }, ?_, ?_⟩
    · simp [passOn?, hk, hq, he, hwatched, hpassed]
    · rw [exitOf_of_process (getElem?_set_at hq _)]

/-- A look that comes next is no wait. -/
theorem lookAgain_cases (w : World) (p : Nat) (q : ServerProcess) (attempt : Nat) :
    (∃ l, w.lookAgain p q attempt = .going w l) ∨
      ∃ outcome, w.lookAgain p q attempt = .finished w outcome := by
  unfold lookAgain
  split
  · exact .inr ⟨_, rfl⟩
  · split
    · exact .inr ⟨_, rfl⟩
    · exact .inl ⟨_, rfl⟩

/-- A launch whose process is not disposed of takes over what the launcher has handed out. -/
theorem adopts (hq : w.processes[p]? = some q)
    (hcall : w.calls[i]? = some (.active (.launching p (.answer c)))) (hempty : q.EmptyHanded)
    (honly : w.Only p c k) {n : Option Nat} (hanswer : k.answer = some (.ok n))
    (hd : ¬q.disposed = true) :
    ∃ v k', w.call? i = some v ∧ v.Owns p c k' ∧ k'.watched = true := by
  obtain ⟨u, hadopt, -, -, honly'⟩ := adoptConsole_eq hq hempty honly (n := n) hd
  have hlaunch : w.launch p (.answer c) = u.lookAgain p (q.holding c n) 1 := by
    simp only [launch, hq, honly.console, Option.bind_some, hanswer, hadopt]
  rcases lookAgain_cases u p (q.holding c n) 1 with ⟨l, hlook⟩ | ⟨outcome, hlook⟩
  · refine ⟨u.setCall i (.active (.launching p l)), _, ?_, ⟨honly'.console, honly'.owner⟩, rfl⟩
    simp only [call?, hcall, call, hlaunch, hlook, Progress.andThen_going]
  · refine ⟨u.setCall i (.over (.launch outcome)), _, ?_, ⟨honly'.console, honly'.owner⟩, rfl⟩
    simp only [call?, hcall, call, hlaunch, hlook, Progress.andThen_finished]

/-- A console that was handed out has been taken over, or is taken over by the next piece,
unless its process has ended without one. -/
theorem Stand.registers (h : Stand p i w q) (hq : w.processes[p]? = some q) (ho : w.Owns p c k)
    {n : Option Nat} (hanswer : k.answer = some (.ok n)) :
    k.watched = true ∨ w.exitOf p = some .silent ∨
      ∃ v k', w.call? i = some v ∧ v.Owns p c k' ∧ k'.watched = true := by
  cases h with
  | due hcall hempty hno => exact absurd ho.2 (hno ho.1)
  | asking hcall hempty honly huntouched =>
    obtain ⟨rfl, rfl⟩ := honly.eq ho.1 ho.2
    by_cases hd : q.disposed = true
    · exact .inr (.inl (by rw [exitOf_of_process hq, hempty.exit_eq, if_pos hd]))
    · exact .inr (.inr (adopts hq hcall hempty honly hanswer hd))
  | held hcall hattends honly hreg =>
    obtain ⟨rfl, rfl⟩ := honly.eq ho.1 ho.2
    exact .inl hreg.watched_eq
  | unlaunched hcall hempty hdisposed hno => exact absurd ho.2 (hno ho.1)
  | turnedAway hcall hempty honly hwatched haway =>
    obtain ⟨rfl, rfl⟩ := honly.eq ho.1 ho.2
    cases haway with
    | refused hrefused => simp [hrefused] at hanswer
    | dismissed _ _ hd =>
      exact .inr (.inl (by rw [exitOf_of_process hq, hempty.exit_eq, if_pos hd]))

/-! ## Early disposals -/

/-- The launch of a process that was disposed of early ends as soon as the launcher answers. -/
theorem Stand.early_ends (h : Stand p i w q) (hq : w.processes[p]? = some q)
    (hd : q.disposed = true) (hun : w.Unregistered p) :
    (∃ r, w.calls[i]? = some (.over r)) ∨
      (∃ c k, w.calls[i]? = some (.active (.launching p (.answer c))) ∧ w.Owns p c k ∧
        k.answer = none) ∨
      ∃ v r, w.call? i = some v ∧ v.calls[i]? = some (.over r) := by
  cases h with
  | due hcall hempty hno =>
    refine .inr (.inr ⟨w.setCall i (.over (.launch (.ok none))), _, ?_, getElem?_set_at hcall _⟩)
    simp only [call?, hcall, call, beginCall, beginLaunch, hq, if_pos hd, Progress.andThen_finished]
  | @asking c k hcall hempty honly huntouched =>
    cases hanswer : k.answer with
    | none => exact .inr (.inl ⟨c, k, hcall, ⟨honly.console, honly.owner⟩, hanswer⟩)
    | some answer =>
      have hcall' (k' : ConsoleCommand) : (w.tell c k').calls[i]? = w.calls[i]? :=
        congrArg (·[i]?) (tell_cases honly.console k').2.1
      cases answer with
      | error e =>
        refine .inr (.inr ⟨w.setCall i (.over (.launch (.error (.spawn q.exe.path e)))), _, ?_,
          getElem?_set_at hcall _⟩)
        simp only [call?, hcall, call, launch, hq, honly.console, Option.bind_some, hanswer,
          Progress.andThen_finished]
      | ok n =>
        refine .inr (.inr ⟨(w.tell c .kill).setCall i (.over (.launch (.ok none))), _, ?_,
          getElem?_set_at ((hcall' .kill).trans hcall) _⟩)
        simp only [call?, hcall, call, launch, hq, honly.console, Option.bind_some, hanswer,
          adoptConsole, if_pos hd, Progress.andThen_finished]
  | held hcall hattends honly hreg =>
    have hwatched := hun honly.console honly.owner
    rw [hreg.watched_eq] at hwatched
    cases hwatched
  | unlaunched hcall => exact .inl ⟨_, hcall⟩
  | turnedAway hcall => exact .inl ⟨_, hcall⟩

/-- The result of a launch whose process has not taken a console over. -/
theorem Stand.endedEarly (h : Stand p i w q) (hun : w.Unregistered p) {r : CallResult}
    (hover : w.calls[i]? = some (.over r)) : w.EndedEarly p q.exe.path r := by
  have hresult {r' : CallResult} (h : w.calls[i]? = some (.over r')) : r = r' := by
    simpa [hover] using h
  cases h with
  | due hcall => simp [hcall] at hover
  | asking hcall => simp [hcall] at hover
  | held hcall hattends honly hreg =>
    have hwatched := hun honly.console honly.owner
    rw [hreg.watched_eq] at hwatched
    cases hwatched
  | unlaunched hcall => exact .inl (hresult hcall)
  | @turnedAway c k outcome hcall hempty honly hwatched haway =>
    cases haway with
    | @refused e hanswer hkills =>
      exact .inr ⟨c, k, e, ⟨honly.console, honly.owner⟩, hanswer, hresult hcall⟩
    | dismissed => exact .inl (hresult hcall)

/-- Telling a console to end settles everything. -/
theorem settled_kill (w : World) (p c : Nat) : Settled p w (w.tell c .kill) := by
  cases hk : w.consoles[c]? with
  | none =>
    have htell : w.tell c .kill = w := by simp [tell, hk]
    rw [htell]
    exact .of_consoles rfl fun _ => rfl
  | some k =>
    intro c' k' hk' ho'
    rw [(tell_cases hk .kill).2.2] at hk'
    rcases getElem?_set_cases hk' with ⟨rfl, rfl⟩ | ⟨-, hold⟩
    · exact ⟨k, hk, ho', rfl, requests_kill w c' c'⟩
    · exact ⟨k', hold, ho', rfl, requests_kill w c c'⟩

/-- A disposal asks nothing of a console and takes none over. -/
theorem settled_dispose (hq : w.processes[p]? = some q) : Settled p w (w.dispose p) := by
  cases hd : q.disposed with
  | true =>
    rw [dispose_of_disposed hq hd]
    exact .of_consoles rfl fun _ => rfl
  | false =>
    have hfile : Settled p w (w.deleteSessionFile q.spec.sessionFile) :=
      .of_beside (i := 0) (.deleteSessionFile w _)
    cases hc : q.console with
    | none =>
      rw [dispose_of_none hq hd hc]
      exact hfile.trans (.of_consoles rfl fun _ => rfl)
    | some c =>
      rw [dispose_of_some hq hd hc]
      exact (hfile.trans (settled_kill _ p c)).trans (.of_consoles rfl fun _ => rfl)

/-- After a disposal, nothing is asked of a console of the process, and none is taken over. -/
theorem Sequel.settled (hq : w.processes[p]? = some q) (hstand : Stand p i w q)
    (h : Sequel p i (w.dispose p) ds v) :
    ∃ q', v.processes[p]? = some q' ∧ q'.exe = q.exe ∧ Stand p i v q' ∧ Settled p w v := by
  obtain ⟨x, hdispose, hd⟩ := dispose_transit hq hstand
  obtain ⟨q', htransit⟩ := h.transit hdispose.process hdispose.stand
  exact ⟨q', htransit.process, htransit.exe_eq.trans hdispose.exe_eq, htransit.stand,
    (settled_dispose hq).trans (htransit.settled hd)⟩

/-- What is settled takes no console over. -/
theorem Settled.unregistered (h : Settled p w v) (hun : w.Unregistered p) : v.Unregistered p := by
  intro c k' hk' ho'
  obtain ⟨k, hk, ho, hwatched, -⟩ := h hk' ho'
  exact hwatched.trans (hun hk ho)

/-! ## All orders -/

/-- What holds of a process in one of its phases. -/
theorem Stand.upholds (h : Stand p i w q) (hq : w.processes[p]? = some q)
    (hd : .dispose ∈ ds → q.disposed = true) : Handled p i q.exe.path ds w where
  one_console := fun {c c' k k'} ho ho' => by
    cases h with
    | due hcall hempty hno => exact absurd ho.2 (hno ho.1)
    | asking _ _ honly => exact (honly.unique ho.1 ho.2).trans (honly.unique ho'.1 ho'.2).symm
    | held _ _ honly => exact (honly.unique ho.1 ho.2).trans (honly.unique ho'.1 ho'.2).symm
    | unlaunched hcall hempty hdisposed hno => exact absurd ho.2 (hno ho.1)
    | turnedAway _ _ honly => exact (honly.unique ho.1 ho.2).trans (honly.unique ho'.1 ho'.2).symm
  kills_le_one ho := h.kills_le_one ho
  killed hds _ hover _ _ _ ho hanswer := h.killed (hd hds) hover ho hanswer
  exit_once ho hv := h.exit_once hq ho hv
  exit_lasts he _ _ hcourse := by
    obtain ⟨q', htransit⟩ := hcourse.transit hq h
    rw [exitOf_of_process hq] at he
    rw [exitOf_of_process htransit.process]
    exact htransit.exit he
  exit_of_disposed hds hun := by
    rw [exitOf_of_process hq]
    exact h.exit_of_unregistered (hd hds) hun
  exit_of_ended ho hwatched he := h.exit_of_ended hq ho hwatched he
  registers ho hanswer := h.registers hq ho hanswer
  early hun _ _ hcourse := by
    obtain ⟨q', -, hexe, hstand, hsettled⟩ := hcourse.settled hq h
    have hun' := hsettled.unregistered hun
    exact ⟨hun', fun hover => hexe ▸ hstand.endedEarly hun' hover⟩
  early_ends hds hun := h.early_ends hq (hd hds) hun
  quiet hcourse _ _ ho := by
    obtain ⟨_, -, -, -, hsettled⟩ := hcourse.settled hq h
    obtain ⟨_, -, -, -, hrequests⟩ := hsettled ho.1 ho.2
    exact hrequests

/-- In every order of one launch, of any number of disposals, of requests and of the end of the
console, with the launcher as slow as it likes, the process is launched and disposed of as it
should be. -/
theorem Sequel.handled (hstart : start.Unstarted p i q) (h : Sequel p i start ds w) :
    Handled p i q.exe.path ds w := by
  obtain ⟨q', htransit⟩ := h.transit hstart.process hstart.stand
  rw [← htransit.exe_eq]
  refine htransit.stand.upholds htransit.process fun hds => ?_
  obtain ⟨x, hx, hdisposed⟩ := h.disposed hstart.process hstart.stand hds
  obtain rfl := Option.some.inj (htransit.process.symm.trans hx)
  exact hdisposed

end World

/-- A process without a session that shows its console, and the call of its launch. -/
def Trial.alone : World :=
  { Trial.start with
    processes := [{
      purpose := .lone
      exe := ⟨⟨"/pwsh"⟩, "pwsh", true⟩
      spec :=
        ⟨⟨"/"⟩, "", ⟨"/"⟩, ⟨"session.json"⟩, [], false, false, false, true, false, none, false⟩
      plan := ⟨.ofSeconds 1, .ofSeconds 9⟩
      reportsSlowness := true }]
    calls := [.active (.fresh (.launch 0))] }

/-- The process is disposed of while its launcher is at work, and again when the console, which has
ended by then, has come too late. -/
def Trial.tooLate : List Deed :=
  [.move Trial.goOn, .press, .dispose, .reveal true,
    .move (.endConsole 0 (.reported ⟨some 3, false⟩)),
    .move (.answerLaunch 0 (.ok (some 7))), .move Trial.goOn, .dispose, .press]

/-- The call has been called off. -/
def Call.isCalledOff : Call → Bool
  | .over (.launch (.ok none)) => true
  | _ => false

theorem Call.eq_of_isCalledOff {x : Call} (h : x.isCalledOff = true) :
    x = .over (.launch (.ok none)) := by
  unfold isCalledOff at h
  split at h
  · rfl
  · cases h

/-- The launcher has handed the console out. -/
def Console.isHandedOut (k : Console) : Bool :=
  match k.answer with
  | some (.ok _) => true
  | _ => false

theorem Console.answer_of_isHandedOut {k : Console} (h : k.isHandedOut = true) :
    ∃ n, k.answer = some (.ok n) := by
  unfold isHandedOut at h
  split at h
  · rename_i n hn
    exact ⟨n, hn⟩
  · cases h

theorem Trial.unstarted_alone : ∃ q, Trial.alone.Unstarted 0 0 q :=
  ⟨_, rfl, rfl, rfl, rfl, rfl, fun _ _ hk => by cases hk⟩

/-- The console is killed once and asked for nothing, and the exit is that of the disposal. -/
theorem World.Sequel.handled_trial :
    ∃ q w k, Trial.alone.Unstarted 0 0 q ∧ Sequel 0 0 Trial.alone Trial.tooLate w ∧
      w.calls[0]? = some (.over (.launch (.ok none))) ∧ w.Owns 0 0 k ∧ k.kills = 1 ∧
      w.requests 0 = [] ∧ w.exitOf 0 = some .silent := by
  have hrun : ((Trial.alone.deeds? 0 Trial.tooLate).any fun w =>
      w.calls[0]?.any Call.isCalledOff && w.requests 0 == [] &&
      w.consoles[0]?.any fun k => k.owner == 0 && !k.watched && k.isHandedOut) = true := by
    decide +kernel
  obtain ⟨w, hw, hrun⟩ := (Option.any_eq_true _ _).1 hrun
  simp only [Bool.and_eq_true, Option.any_eq_true, beq_iff_eq, Bool.not_eq_true'] at hrun
  obtain ⟨⟨⟨x, hcall, hover⟩, hrequests⟩, k, hk, ⟨howner, hwatched⟩, hanswer⟩ := hrun
  obtain rfl := Call.eq_of_isCalledOff hover
  obtain ⟨n, hanswer⟩ := Console.answer_of_isHandedOut hanswer
  obtain ⟨q, hstart⟩ := Trial.unstarted_alone
  have hcourse : Sequel 0 0 Trial.alone Trial.tooLate w :=
    Sequel.refl.append_deeds? (List.all_eq_true.1 (by decide)) hw
  have hhandled := hcourse.handled hstart
  have hds : Deed.dispose ∈ Trial.tooLate := by simp [Trial.tooLate]
  have hunregistered : w.Unregistered 0 := by
    intro c k' hk' ho'
    obtain rfl := hhandled.one_console ⟨hk', ho'⟩ ⟨hk, howner⟩
    obtain rfl : k' = k := Option.some.inj (hk'.symm.trans hk)
    exact hwatched
  exact ⟨q, w, k, hstart, hcourse, hcall, ⟨hk, howner⟩,
    hhandled.killed hds hcall ⟨hk, howner⟩ hanswer, hrequests,
    hhandled.exit_of_disposed hds hunregistered⟩

end SessionHost
