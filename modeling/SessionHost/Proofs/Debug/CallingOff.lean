import SessionHost.Proofs.Debug.Console
import SessionHost.Proofs.Lifecycle.Storage

/-!
# Debug sessions that are called off

A debug session can be called off while its start is still under way: its process is taken out of
the session and disposed of by a stop, or by a newer start.  The start does not always say so.  It
looks at what was called off between two looks at the session file, and when it is granted a
console; whatever it learns at the other places it takes for its result.  Behind its last look it
waits for the end of an interval and for being called off alike, and goes by what it notices first.

Main definitions:

- `Verdict`: what a start that was called off will return.
- `World.verdict?`: the verdict that a place settles.
- `World.Wavers`: the last wait of a launch, which settles nothing.
- `World.CalledOff`: the process of a debug session was called off and disposed of.

Main results:

- Theorem `World.debug_verdict`: a settled verdict is returned.
- Theorem `World.Life.called_off_result`: which places settle what a start returns.
-/

namespace SessionHost

/-- What a start that was called off will return. -/
inductive Verdict where
  /-- That it was called off. -/
  | calledOff
  /-- The session of a server that has come up. -/
  | started (details : StartedSession)
  | failed
deriving DecidableEq

/-- The verdict is what was returned. -/
def Verdict.Returned : Verdict → World.DebugOutcome → Prop
  | .calledOff, outcome => outcome = .ok none
  | .started d, outcome => outcome = .ok (some d)
  | .failed, outcome => ∃ notice, outcome = .error notice

/-- One outcome has one verdict. -/
theorem Verdict.eq_of_returned {x y : Verdict} {outcome : World.DebugOutcome}
    (hx : x.Returned outcome) (hy : y.Returned outcome) : x = y := by
  cases x with
  | calledOff =>
    obtain rfl := hx
    cases y with
    | calledOff => rfl
    | started d => cases hy
    | failed => cases hy.choose_spec
  | started d =>
    obtain rfl := hx
    cases y with
    | calledOff => cases hy
    | started d' =>
      cases hy
      rfl
    | failed => cases hy.choose_spec
  | failed =>
    obtain ⟨notice, rfl⟩ := hx
    cases y with
    | failed => rfl
    | _ => cases hy

/-- The verdict is what a launch gave. -/
def Verdict.Given : Verdict → LaunchOutcome → Prop
  | .calledOff, outcome => outcome = .ok none
  | .started d, outcome => outcome = .ok (some (.started d))
  | .failed, outcome =>
    (∃ failure, outcome = .error failure) ∨ ∃ refusal, outcome = .ok (some (.refused refusal))

/-- Where a start of a debug session waits. -/
def Call.debugging? : Call → Option Debugging
  | .active (.debugging place) => some place
  | _ => none

/-- A call at a place of a debug session is under way. -/
theorem Call.eq_of_debugging? {o : Option Call} {place : Debugging}
    (h : o.bind Call.debugging? = some place) : o = some (.active (.debugging place)) := by
  obtain ⟨c, rfl, hc⟩ := Option.bind_eq_some_iff.1 h
  unfold Call.debugging? at hc
  split at hc <;> cases hc
  rfl

/-- What the text of a session file settles. -/
def handshakeVerdict (bytes : List UInt8) : Verdict :=
  match World.handshakeOutcome bytes with
  | .ok (.ok (some (.started d))) => .started d
  | _ => .failed

/-- The text of a session file has the verdict that it is given. -/
theorem handshakeVerdict_given {bytes : List UInt8} {outcome : LaunchOutcome}
    (h : World.handshakeOutcome bytes = .ok outcome) :
    (handshakeVerdict bytes).Given outcome := by
  have hread := h
  unfold World.handshakeOutcome at h
  split at h
  · cases h
  · split at h
    · rename_i handshake _
      cases h
      cases handshake with
      | started d =>
        simp only [handshakeVerdict, hread]
        rfl
      | refused refusal =>
        simp only [handshakeVerdict, hread]
        exact .inr ⟨refusal, rfl⟩
    · cases h
      simp only [handshakeVerdict, hread]
      exact .inl ⟨_, rfl⟩

namespace World

/-- The launch of a process may look once more behind one of its looks. -/
def looksLeft (w : World) (p n : Nat) : Bool :=
  (w.processes[p]?.map ServerProcess.plan).any fun plan => n < plan.attempts

/-- What the place of a launch settles, when the launch was called off and its process disposed
of. -/
def launchVerdict? (w : World) (p : Nat) : Launching → Option Verdict
  | .answer c =>
    match w.consoles[c]?.bind Console.answer with
    | none => none
    | some (.ok _) => some .calledOff
    | some (.error _) => some .failed
  | .file _ => none
  | .turn _ (.ok bytes) => some (handshakeVerdict bytes)
  | .turn _ (.error .notFound) =>
    -- The end of the console may be its disposal's; the launch does not ask.
    if (w.processes[p]?.bind ServerProcess.exit).isSome then some .failed else none
  | .turn _ (.error _) => some .failed
  -- The end of the last interval may be noticed before the calling off.
  | .interval n _ => if w.looksLeft p n then some .calledOff else none
  | .woken n => some (if w.looksLeft p n then .calledOff else .failed)

/-- What the place of a start settles. -/
def verdict? (w : World) : Debugging → Option Verdict
  | .launching _ p l => w.launchVerdict? p l
  | .diagnosing _ _ => some .failed
  | .withdrawing _ _ => some .failed
  | _ => none

/-- The process of a debug session was called off and disposed of. -/
structure CalledOff (w : World) (p : Nat) : Prop where
  cancelled : .debug p ∈ w.cancelled
  disposed : w.IsDisposed p
  known : w.ForDebug p

/-- The start goes on after it has put its process into the session. -/
def Installed (w : World) (i p : Nat) : Prop :=
  ∃ place, w.calls[i]? = some (.active (.debugging place)) ∧ place.process? = some p ∧
    place.installs = false

/-- The start has come to a place that settles what it returns. -/
def Settles (w : World) (i p : Nat) (x : Verdict) : Prop :=
  ∃ place, w.calls[i]? = some (.active (.debugging place)) ∧ place.process? = some p ∧
    w.verdict? place = some x

/-- The start waits behind its last look: it is open whether it notices first that it was called off
or that the interval is over. -/
def Wavers (w : World) (i p : Nat) : Prop :=
  ∃ exe n wake, w.calls[i]? = some (.active (.debugging (.launching exe p (.interval n wake)))) ∧
    w.looksLeft p n = false

variable {w v : World} {i p : Nat} {x : Verdict}

/-- Looks are left as long as the plan has more. -/
theorem looksLeft_eq {q : ServerProcess} (hq : w.processes[p]? = some q) (n : Nat) :
    w.looksLeft p n = decide (n < q.plan.attempts) := by
  rw [looksLeft, hq]
  rfl

/-! ## One piece of a start -/

/-- The process of a debug session that was called off. -/
theorem CalledOff.exists_process (hoff : w.CalledOff p) :
    ∃ q, w.processes[p]? = some q ∧ q.disposed = true ∧
      w.isCancelled (q.purpose.token p) = true := by
  obtain ⟨q, hq, hpurpose⟩ := hoff.known
  refine ⟨q, hq, ?_, ?_⟩
  · obtain ⟨q', hq', hd⟩ := hoff.disposed
    rwa [Option.some.inj (hq.symm.trans hq')]
  · rw [hpurpose]
    exact decide_eq_true hoff.cancelled

/-- A launch that waits when it was called off ends with its own next piece. -/
theorem launch_interval_calledOff (hoff : w.CalledOff p) (n wake : Nat) :
    w.launch p (.interval n wake) = .finished w (.ok none) := by
  obtain ⟨q, hq, -, hcancelled⟩ := hoff.exists_process
  simp only [launch, hq, hcancelled, if_true]

/-- A check gives what it has settled, whether or not the launch was called off. -/
theorem afterLook_verdict {q : ServerProcess} (hq : w.processes[p]? = some q) {n : Nat}
    {content : Except ErrorKind (List UInt8)}
    (h : w.launchVerdict? p (.turn n content) = some x) :
    (w.afterLook p q n content).Gives (fun _ _ => False) fun _ outcome => x.Given outcome := by
  cases content with
  | ok bytes =>
    cases h
    have hgiven := @handshakeVerdict_given bytes
    simp only [afterLook]
    cases hread : handshakeOutcome bytes with
    | error kind =>
      simp only [handshakeVerdict, hread]
      exact .inl ⟨_, rfl⟩
    | ok outcome => exact hgiven hread
  | error kind =>
    by_cases hmissing : kind = .notFound
    · subst hmissing
      simp only [launchVerdict?, hq, Option.bind_some] at h
      split at h
      · rename_i hexit
        cases h
        obtain ⟨e, he⟩ := Option.isSome_iff_exists.1 hexit
        simp only [afterLook, withoutFile, he]
        exact .inl ⟨_, rfl⟩
      · cases h
    · have hfailed : x = .failed := by
        cases kind <;> first | exact absurd rfl hmissing | exact (Option.some.inj h).symm
      subst hfailed
      cases kind <;> first | exact absurd rfl hmissing | exact .inl ⟨_, rfl⟩

/-- A launch gives what its place has settled. -/
theorem launch_verdict (hoff : w.CalledOff p) {l : Launching} (h : w.launchVerdict? p l = some x) :
    (w.launch p l).Gives (fun _ _ => False) fun _ outcome => x.Given outcome := by
  obtain ⟨q, hq, hdisposed, -⟩ := hoff.exists_process
  cases l with
  | answer c =>
    simp only [launch, hq]
    simp only [launchVerdict?] at h
    cases hanswer : w.consoles[c]?.bind Console.answer with
    | none => trivial
    | some answer =>
      rw [hanswer] at h
      cases answer with
      | error e =>
        cases h
        exact .inl ⟨_, rfl⟩
      | ok number =>
        cases h
        simp only [adoptConsole, hdisposed, if_true]
        rfl
  | file attempt => cases h
  | turn attempt content =>
    simp only [launch, hq]
    exact afterLook_verdict hq h
  | interval n wake =>
    simp only [launchVerdict?] at h
    split at h <;> cases h
    rw [launch_interval_calledOff hoff]
    rfl
  | woken n =>
    simp only [launch, hq]
    simp only [launchVerdict?, looksLeft_eq hq, decide_eq_true_eq] at h
    have hended : w.launchEnded p q = true := by simp [launchEnded, hdisposed]
    by_cases hleft : n < q.plan.attempts
    · rw [if_pos hleft] at h
      cases h
      simp only [lookAgain, if_neg (Nat.not_lt.2 hleft), if_pos hended]
      rfl
    · rw [if_neg hleft] at h
      cases h
      simp only [lookAgain, if_pos (Nat.lt_succ_of_le (Nat.le_of_not_lt hleft))]
      exact .inl ⟨_, rfl⟩

/-- A launch whose place settles nothing goes on, unless it waits. -/
theorem launch_open {l : Launching} (h : w.launchVerdict? p l = none)
    (hl : ∀ n wake, l ≠ .interval n wake) :
    (w.launch p l).Gives (fun _ _ => True) fun _ _ => False := by
  unfold launch
  cases hq : w.processes[p]? with
  | none => trivial
  | some q =>
    cases l with
    | answer c =>
      simp only [launchVerdict?] at h ⊢
      cases hanswer : w.consoles[c]?.bind Console.answer with
      | none => trivial
      | some answer =>
        rw [hanswer] at h
        cases answer <;> cases h
    | file attempt => trivial
    | turn attempt content =>
      cases content with
      | ok bytes => cases h
      | error kind =>
        cases kind with
        | notFound =>
          simp only [launchVerdict?, hq, Option.bind_some] at h
          cases hexit : q.exit with
          | some e => simp [hexit] at h
          | none =>
            simp only [afterLook, withoutFile, hexit]
            trivial
        | _ => cases h
    | interval n wake => exact absurd rfl (hl n wake)
    | woken n => cases h

/-- The start of a debug session returns what its place has settled. -/
theorem debug_verdict {place : Debugging} (hp : place.process? = some p) (hoff : w.CalledOff p)
    (h : w.verdict? place = some x) :
    (w.debug place).Gives (fun v place' => place'.process? = some p ∧ v.verdict? place' = some x)
      fun _ outcome => x.Returned outcome := by
  have hfails : ∀ (u : World) (failure : SessionFailure),
      (u.failDebug p failure).Gives
        (fun v place' => place'.process? = some p ∧ v.verdict? place' = some Verdict.failed)
        fun _ outcome => Verdict.failed.Returned outcome := fun _ _ => ⟨rfl, rfl⟩
  cases place with
  | choosing s => cases hp
  | preparing s exe step => cases hp
  | installing exe q => cases h
  | launching exe q l =>
    obtain rfl : q = p := Option.some.inj hp
    refine (launch_verdict hoff h).andThen (fun _ _ => False.elim) fun u outcome hgiven => ?_
    cases x with
    | calledOff =>
      obtain rfl := hgiven
      rfl
    | started d =>
      obtain rfl := hgiven
      rfl
    | failed =>
      rcases hgiven with ⟨failure, rfl⟩ | ⟨refusal, rfl⟩
      · simp only [afterDebugLaunch]
        split
        · exact ⟨rfl, rfl⟩
        · exact hfails u _
      · exact hfails u _
  | diagnosing q inquiry =>
    obtain rfl : q = p := Option.some.inj hp
    cases h
    simp only [debug]
    split
    · trivial
    · exact hfails _ _
  | withdrawing q failure =>
    cases h
    exact ⟨_, rfl⟩

/-- A start whose place settles nothing goes on with its process, unless it waits. -/
theorem debug_open {place : Debugging} (hp : place.process? = some p)
    (hinstalls : place.installs = false) (h : w.verdict? place = none)
    (hwaits : ∀ exe n wake, place ≠ .launching exe p (.interval n wake)) :
    (w.debug place).Gives (fun _ place' => place'.process? = some p ∧ place'.installs = false)
      fun _ _ => False := by
  cases place with
  | choosing s => cases hp
  | preparing s exe step => cases hp
  | installing exe q => cases hinstalls
  | launching exe q l =>
    obtain rfl : q = p := Option.some.inj hp
    have hl (n wake : Nat) : l ≠ .interval n wake := fun heq => hwaits exe n wake (by rw [heq])
    exact (launch_open h hl).andThen (fun _ _ _ => ⟨rfl, rfl⟩) fun _ _ => False.elim
  | diagnosing q inquiry => cases h
  | withdrawing q failure => cases h

end World

/-! ## What is settled stays so -/

/-- What the launcher has answered. -/
def Outline.answer? (o : Outline) (c : Nat) : Option LaunchAnswer :=
  o.consoles[c]?.bind Console.answer

namespace Outline

variable {o : Outline} {c : Nat}

/-- An answer does not change when something else about a console does. -/
theorem answer?_modify {f : Console → Console} (hf : ∀ k, (f k).answer = k.answer)
    (l : List Console) (j c : Nat) :
    ((l.modify j f)[c]?).bind Console.answer = (l[c]?).bind Console.answer := by
  rw [List.getElem?_modify]
  cases l[c]? with
  | none => rfl
  | some k =>
    by_cases hj : j = c
    · simp [hj, hf]
    · simp [hj]

/-- Telling a console something changes no answer. -/
theorem answer?_tell (j : Nat) (command : ConsoleCommand) :
    (o.tell j command).answer? c = o.answer? c :=
  answer?_modify (fun k => by cases command <;> rfl) o.consoles j c

/-- A disposal changes no answer. -/
theorem answer?_dispose (p : Nat) : (o.dispose p).answer? c = o.answer? c := by
  rcases o.dispose_cases p with h | ⟨q, -, -, h⟩
  · rw [h]
  · rw [h]
    change (o.tellAny q.console .kill).answer? c = o.answer? c
    cases q.console with
    | none => rfl
    | some j => exact answer?_tell j .kill

/-- Taking a console over changes no answer. -/
theorem answer?_hold (p : Nat) (q : ServerProcess) (j : Nat) (n : Option Nat) :
    (o.hold p q j n).answer? c = o.answer? c := by
  have hwatch : ∀ l : List Console,
      (l.modify j fun k => { k with watched := true })[c]?.bind Console.answer =
        l[c]?.bind Console.answer := by
    intro l
    apply answer?_modify
    exact fun _ => rfl
  unfold hold
  cases q.console with
  | none => exact hwatch _
  | some previous =>
    refine (hwatch _).trans ?_
    apply answer?_modify
    exact fun _ => rfl

/-- A console is changed in something else than the launcher's answer, or has none so far. -/
theorem answer?_set {k k' : Console} {j : Nat} {x : LaunchAnswer} {o' : Outline}
    (hk : o.consoles[j]? = some k) (hset : o'.consoles = o.consoles.set j k')
    (h : k'.answer = k.answer ∨ k.answer = none) (hx : o.answer? c = some x) :
    o'.answer? c = some x := by
  obtain ⟨y, hy, hanswer⟩ := Option.bind_eq_some_iff.1 hx
  rw [answer?, hset]
  rcases getElem?_set_or hk hy k' with ⟨rfl, rfl⟩ | hother
  · rw [getElem?_set_at hk]
    rcases h with h | h
    · exact h.trans hanswer
    · rw [h] at hanswer
      cases hanswer
  · rw [hother]
    exact hanswer

end Outline

/-- What the launcher has answered stays so. -/
theorem Rule.answer?_stays {a : Actor} {o o' : Outline} (h : Rule a o o') {c : Nat}
    {x : LaunchAnswer} (hx : o.answer? c = some x) : o'.answer? c = some x := by
  cases h with
  | drop | endDebug | dropWatch => exact (Outline.answer?_dispose _).trans hx
  | @hold _ i p j u q k n hr hq h hk ha => exact (Outline.answer?_hold p q j n).trans hx
  | dismiss | write => exact (Outline.answer?_tell _ _).trans hx
  | launch hr hq h =>
    obtain ⟨k, hk, hanswer⟩ := Option.bind_eq_some_iff.1 hx
    exact Option.bind_eq_some_iff.2 ⟨k, getElem?_append_of_some hk _, hanswer⟩
  | answer hk h => exact Outline.answer?_set hk rfl (.inr h) hx
  | ending hk h => exact Outline.answer?_set hk rfl (.inl rfl) hx
  | passOn hk hq he hw hp => exact Outline.answer?_set hk rfl (.inl rfl) hx
  | adopt hr hq h =>
    rw [Outline.watchExit]
    split <;> exact hx
  | endStop | endFailed | conclude =>
    rw [Outline.transition]
    split <;> exact hx
  | withdraw hr => split <;> exact hx
  | _ => exact hx

namespace World

variable {w v : World} {i p : Nat} {x : Verdict}

/-- The plan of a launch stays, and so does what is left of it. -/
theorem looksLeft_stays (hlasts : w.outline.Lasts v.outline) {q : ServerProcess}
    (hq : w.processes[p]? = some q) (n : Nat) : v.looksLeft p n = w.looksLeft p n := by
  obtain ⟨q', hq', ⟨-, hplan⟩, -⟩ := hlasts p q hq
  rw [looksLeft_eq hq, looksLeft_eq (w := v) hq', hplan]

/-- A verdict that is settled stays so. -/
theorem verdict?_stays (hlasts : w.outline.Lasts v.outline)
    (hanswers : ∀ c y, w.outline.answer? c = some y → v.outline.answer? c = some y)
    {place : Debugging} (hp : place.process? = some p) (hknown : w.ForDebug p)
    (h : w.verdict? place = some x) : v.verdict? place = some x := by
  obtain ⟨q, hq, -⟩ := hknown
  cases place with
  | launching exe p' l =>
    obtain rfl : p' = p := Option.some.inj hp
    cases l with
    | answer c =>
      simp only [verdict?, launchVerdict?] at h ⊢
      cases hanswer : w.consoles[c]?.bind Console.answer with
      | none => simp [hanswer] at h
      | some y =>
        rw [hanswer] at h
        rw [show v.consoles[c]?.bind Console.answer = some y from hanswers c y hanswer]
        exact h
    | file attempt => cases h
    | turn attempt content =>
      cases content with
      | ok bytes => exact h
      | error kind =>
        cases kind with
        | notFound =>
          simp only [verdict?, launchVerdict?] at h ⊢
          split at h
          · rename_i hexit
            obtain ⟨e, he⟩ := Option.isSome_iff_exists.1 hexit
            obtain ⟨q, hq, he⟩ := Option.bind_eq_some_iff.1 he
            obtain ⟨q', hq', -, he'⟩ := hlasts p' q hq
            have hexit' : v.processes[p']?.bind ServerProcess.exit = some e :=
              Option.bind_eq_some_iff.2 ⟨q', hq', he' e he⟩
            rwa [hexit']
          · cases h
        | _ => exact h
    | interval n wake | woken n =>
      simp only [verdict?, launchVerdict?] at h ⊢
      rwa [looksLeft_stays hlasts hq]
  | _ => exact h

/-! ## Moves -/

/-- What has been called off stays so over a step. -/
theorem CalledOff.stays (h : w.CalledOff p) (s : Sound w.outline) {a : Actor}
    (hleads : Leads a w.outline v.outline) : v.CalledOff p where
  cancelled := hleads.keeps_of_sound (P := fun o => .debug p ∈ o.cancelled) s
    (fun _ hp hrule => hrule.cancelled_subset hp) h.cancelled
  disposed := gone_iff.1 (hleads.gone_stays (gone_iff.2 h.disposed))
  known := forDebug_iff.1 (hleads.purpose s (forDebug_iff.2 h.known))

/-- Another activity leaves a call and what it has settled as they are. -/
theorem Settles.stays (h : w.Settles i p x) (hknown : w.ForDebug p) (s : Sound w.outline)
    {a : Actor} (hleads : Leads a w.outline v.outline) {c : Call} (hc : w.calls[i]? = some c)
    (hcalls : v.calls[i]? = some c) : v.Settles i p x := by
  obtain ⟨place, hplace, hp, hx⟩ := h
  obtain ⟨hlasts, hanswers⟩ : w.outline.Lasts v.outline ∧
      ∀ c y, w.outline.answer? c = some y → v.outline.answer? c = some y := by
    refine hleads.keeps_of_sound (P := fun o => w.outline.Lasts o ∧
      ∀ c y, w.outline.answer? c = some y → o.answer? c = some y) s (fun hs ho hrule => ?_)
      ⟨.of_eq rfl, fun _ _ => id⟩
    exact ⟨ho.1.trans (hrule.lasts hs.exits), fun c y hy => hrule.answer?_stays (ho.2 c y hy)⟩
  cases hc.symm.trans hplace
  exact ⟨place, hcalls, hp, verdict?_stays hlasts hanswers hp hknown hx⟩

/-- What comes from outside to a start that has its process is a look at the session file, or the
end of an interval; neither changes what is settled. -/
theorem performJob_debugging {place : Debugging} {job : Job} (hp : place.process? = some p)
    (h : w.performJob (.debugging place) = some (v, job)) :
    v = w ∧ ∃ place', job = .debugging place' ∧ place'.process? = some p ∧
      place'.installs = false ∧ ∀ x, w.verdict? place = some x → w.verdict? place' = some x := by
  cases performJob_prepares h with
  | debugFolder => cases hp
  | @debugLaunch exe q l l' hlook =>
    refine ⟨rfl, _, rfl, hp, rfl, fun x hx => ?_⟩
    unfold arrival? at hlook
    split at hlook
    · cases hx
    · split at hlook <;> cases hlook
      simp only [verdict?, launchVerdict?] at hx ⊢
      split at hx <;> cases hx
      rename_i hleft
      rw [if_pos hleft]
    · cases hlook

/-- What a start of a debug session comes to by one move. -/
theorem debugging_of_move? {m : Move} (hmove : w.move? m = some v) (hof : m.ofSession = true)
    {place : Debugging} (hplace : w.calls[i]? = some (.active (.debugging place)))
    (hp : place.process? = some p) :
    v.calls[i]? = some (.active (.debugging place)) ∨
      (m = .run (.call i) ∧ ∃ u place', w.debug place = .going u place' ∧
        v = u.setCall i (.active (.debugging place')) ∧
        v.calls[i]? = some (.active (.debugging place'))) ∨
      (m = .run (.call i) ∧ ∃ u outcome, w.debug place = .finished u outcome ∧
        v.calls[i]? = some (.over (.debug outcome))) ∨
      (∃ place', v.calls[i]? = some (.active (.debugging place')) ∧ place'.process? = some p ∧
        place'.installs = false ∧ ∀ x, w.verdict? place = some x → v.verdict? place' = some x) := by
  have hlt : i < w.calls.length := (List.getElem?_eq_some_iff.1 hplace).1
  rcases calls_of_move? hmove hof hplace with hsame | rfl | rfl
  · exact .inl hsame
  · have hcall : w.call (.debugging place) = (w.debug place).andThen Job.debugging fun v outcome =>
        .finished v (.debug outcome) := rfl
    rcases piece_of_call? hmove hplace with
      ⟨u, job', hpiece, rfl, hnow⟩ | ⟨u, r, hpiece, rfl, hnow⟩ <;> rw [hcall] at hpiece
    · cases hdebug : w.debug place <;> rw [hdebug] at hpiece <;> cases hpiece
      exact .inr (.inl ⟨rfl, _, _, rfl, rfl, hnow⟩)
    · cases hdebug : w.debug place <;> rw [hdebug] at hpiece <;> cases hpiece
      exact .inr (.inr (.inl ⟨rfl, _, _, rfl, hnow⟩))
  · obtain ⟨job, u, job', hjob, hperform, rfl⟩ := perform?_cases hmove
    cases hplace.symm.trans hjob
    obtain ⟨rfl, place', rfl, hp', hinstalls, hkeeps⟩ := performJob_debugging hp hperform
    exact .inr (.inr (.inr ⟨place', List.getElem?_set_self hlt, hp', hinstalls, hkeeps⟩))

/-- A verdict that is settled stays so, or is returned. -/
theorem Settles.move (h : w.Settles i p x) (hoff : w.CalledOff p) (s : Sound w.outline)
    {m : Move} (hmove : w.move? m = some v) (hof : m.ofSession = true) :
    v.Settles i p x ∨
      ∃ outcome, v.calls[i]? = some (.over (.debug outcome)) ∧ x.Returned outcome := by
  obtain ⟨place, hplace, hp, hx⟩ := id h
  have hgives := debug_verdict hp hoff hx
  rcases debugging_of_move? hmove hof hplace hp with
    hsame | ⟨-, u, place', hpiece, rfl, hcall⟩ | ⟨-, u, outcome, hpiece, hcall⟩ |
      ⟨place', hcall, hp', -, hkeeps⟩
  · have hleads := move?_leads hmove hof s.tenure.inside s.present
    exact .inl (h.stays hoff.known s hleads hplace hsame)
  · rw [hpiece] at hgives
    exact .inl ⟨place', hcall, hgives⟩
  · rw [hpiece] at hgives
    exact .inr ⟨outcome, hcall, hgives⟩
  · exact .inl ⟨place', hcall, hp', hkeeps x hx⟩

/-- As long as nothing is settled the start goes on, and its last wait ends with the interval. -/
theorem Installed.move (h : w.Installed i p) (hopen : ∀ x, ¬w.Settles i p x) {m : Move}
    (hwaits : w.Wavers i p → m ≠ .run (.call i)) (hmove : w.move? m = some v)
    (hof : m.ofSession = true) : v.Installed i p := by
  obtain ⟨place, hplace, hp, hinstalls⟩ := h
  have hnone : w.verdict? place = none := by
    cases hx : w.verdict? place with
    | none => rfl
    | some x => exact absurd ⟨place, hplace, hp, hx⟩ (hopen x)
  have hgives (hm : m = .run (.call i)) := debug_open hp hinstalls hnone fun exe n wake heq => by
    subst heq
    simp only [verdict?, launchVerdict?] at hnone
    split at hnone
    · cases hnone
    · rename_i hleft
      exact hwaits ⟨exe, n, wake, hplace, by simpa using hleft⟩ hm
  rcases debugging_of_move? hmove hof hplace hp with
    hsame | ⟨hm, u, place', hpiece, -, hcall⟩ | ⟨hm, u, outcome, hpiece, -⟩ |
      ⟨place', hcall, hp', hinstalls', -⟩
  · exact ⟨place, hsame, hp, hinstalls⟩
  · have hgoes := hgives hm
    rw [hpiece] at hgoes
    exact ⟨place', hcall, hgoes⟩
  · have hends := hgives hm
    rw [hpiece] at hends
    exact hends.elim
  · exact ⟨place', hcall, hp', hinstalls'⟩

/-- A start that was called off and takes its next piece while it waits says so. -/
theorem Wavers.returns (h : w.Wavers i p) (hoff : w.CalledOff p)
    (hmove : w.move? (.run (.call i)) = some v) :
    v.calls[i]? = some (.over (.debug (.ok none))) := by
  obtain ⟨exe, n, wake, hcall, -⟩ := h
  have hpiece : w.call (.debugging (.launching exe p (.interval n wake))) =
      .finished w (.debug (.ok none)) := by
    simp only [call, debug, launch_interval_calledOff hoff, Progress.andThen_finished,
      afterDebugLaunch]
  rcases piece_of_call? hmove hcall with ⟨u, job', hgoes, -⟩ | ⟨u, r, hends, -, hnow⟩
  · rw [hpiece] at hgoes
    cases hgoes
  · rw [hpiece] at hends
    cases hends
    exact hnow

/-! ## From the calling off to the return -/

variable {start u : World} {ms : List Move} {n k : Nat}

namespace Life

/-- What has been called off stays so over a stretch of a life. -/
theorem calledOff_stays (h : Life start ms w) (hn : start.Moment ms n v)
    (hk : start.Moment ms k u) (hle : n ≤ k) (hv : v.CalledOff p) : u.CalledOff p :=
  h.induction (P := fun y => y.CalledOff p) (fun hof hmove s hoff =>
    hoff.stays s (move?_leads hmove hof s.tenure.inside s.present)) hn hk hle hv

/-- A call that is over stays so, with its result. -/
theorem over_stays (h : Life start ms w) (hn : start.Moment ms n v) (hk : start.Moment ms k u)
    (hle : n ≤ k) {r : CallResult} (hv : v.calls[i]? = some (.over r)) :
    u.calls[i]? = some (.over r) :=
  h.induction (P := fun y => y.calls[i]? = some (.over r))
    (fun hof hmove _ hy => over_of_move? hmove hof hy) hn hk hle hv

/-- A verdict that is settled stays so until it is returned. -/
theorem settles_stays (h : Life start ms w) (hn : start.Moment ms n v) (hk : start.Moment ms k u)
    (hle : n ≤ k) (hoff : v.CalledOff p) (hv : v.Settles i p x) :
    u.Settles i p x ∨
      ∃ outcome, u.calls[i]? = some (.over (.debug outcome)) ∧ x.Returned outcome := by
  have hkept : u.CalledOff p ∧ (u.Settles i p x ∨
      ∃ outcome, u.calls[i]? = some (.over (.debug outcome)) ∧ x.Returned outcome) := by
    refine h.induction (P := fun y => y.CalledOff p ∧ (y.Settles i p x ∨
      ∃ outcome, y.calls[i]? = some (.over (.debug outcome)) ∧ x.Returned outcome))
      (fun hof hmove s hy => ⟨?_, ?_⟩) hn hk hle ⟨hoff, .inl hv⟩
    · exact hy.1.stays s (move?_leads hmove hof s.tenure.inside s.present)
    · rcases hy.2 with hsettles | ⟨outcome, hcall, hreturned⟩
      · exact hsettles.move hy.1 s hmove hof
      · exact .inr ⟨outcome, over_of_move? hmove hof hcall, hreturned⟩
  exact hkept.2

/-- A start that goes on has come to what decides what it returns, or will: a place that settles
it, or the piece that it takes while it wavers. -/
theorem settled_or_installed (h : Life start ms w) (hn : start.Moment ms n v)
    (hk : start.Moment ms k u) (hle : n ≤ k) (hv : v.Installed i p) :
    u.Installed i p ∨ (∃ x k' u', n ≤ k' ∧ start.Moment ms k' u' ∧ u'.Settles i p x) ∨
      ∃ k' u', n ≤ k' ∧ start.Moment ms k' u' ∧ u'.Wavers i p ∧
        ms[k']? = some (.run (.call i)) := by
  induction hle generalizing u with
  | refl => exact .inl (hn.unique hk ▸ hv)
  | @step k hle ih =>
    obtain ⟨a, ha⟩ := hk.pred
    obtain ⟨m, hm, hmove⟩ := ha.step hk
    by_cases hsettled : ∃ x, a.Settles i p x
    · obtain ⟨x, hx⟩ := hsettled
      exact .inr (.inl ⟨x, k, a, hle, ha, hx⟩)
    by_cases hwavers : a.Wavers i p ∧ m = .run (.call i)
    · exact .inr (.inr ⟨k, a, hle, ha, hwavers.1, hwavers.2 ▸ hm⟩)
    rcases ih ha with hinstalled | hdecided
    · exact .inl (hinstalled.move (not_exists.1 hsettled) (fun hw heq => hwavers ⟨hw, heq⟩) hmove
        (h.ofSession m (List.mem_of_getElem? hm)))
    · exact .inr hdecided

/-- A start of a debug session whose process was called off and disposed of after it was put into
the session returns what the first place that it comes to settles.  It says that it was called off
when it is granted its console after that, or waits between two looks at the session file; behind
its last look it says so if it goes on before its interval is over.  It reports a session if it has
read a session file that tells of one.  Otherwise it fails with a notice: when the launcher refuses,
when it has seen the end of its console or anything else in the session file, when its last interval
is over, and when it has failed already. -/
theorem called_off_result (h : Life start ms w) (hn : start.Moment ms n v)
    (hi : v.Installed i p) (hcancelled : .debug p ∈ v.cancelled) (hdisposed : v.IsDisposed p)
    {result : CallResult} (hr : w.calls[i]? = some (.over result)) :
    ∃ outcome, result = .debug outcome ∧
      (outcome = .ok none ↔ ∃ k u, n ≤ k ∧ start.Moment ms k u ∧
        (u.Settles i p .calledOff ∨ u.Wavers i p ∧ ms[k]? = some (.run (.call i)))) ∧
      (∀ d, outcome = .ok (some d) ↔
        ∃ k u, n ≤ k ∧ start.Moment ms k u ∧ u.Settles i p (.started d)) ∧
      ((∃ notice, outcome = .error notice) ↔
        ∃ k u, n ≤ k ∧ start.Moment ms k u ∧ u.Settles i p .failed) := by
  have hoff : v.CalledOff p := by
    refine ⟨hcancelled, hdisposed, forDebug_iff.1 ?_⟩
    obtain ⟨place, hplace, hp, -⟩ := hi
    exact (h.moment hn).tended.known (StartsDebug.tends ⟨place, hplace, hp⟩)
  -- Whatever is settled is returned, so one thing at most is.
  have hreturned : ∀ {x k u}, n ≤ k → start.Moment ms k u → u.Settles i p x →
      ∃ outcome, result = .debug outcome ∧ x.Returned outcome := by
    intro x k u hle hu hx
    rcases h.settles_stays hu h.last hu.1 (h.calledOff_stays hn hu hle hoff) hx with
      ⟨place, hplace, -⟩ | ⟨outcome, hcall, hout⟩
    · cases hr.symm.trans hplace
    · cases hr.symm.trans hcall
      exact ⟨outcome, rfl, hout⟩
  -- So is what a start notices that wavers.
  have hnoticed : ∀ {k u}, n ≤ k → start.Moment ms k u → u.Wavers i p →
      ms[k]? = some (.run (.call i)) → result = .debug (.ok none) := by
    intro k u hle hu hwavers hm
    have hlt : k < ms.length := (List.getElem?_eq_some_iff.1 hm).1
    obtain ⟨a, ha⟩ := h.exists_moment hlt
    obtain ⟨m, hm', hmove⟩ := hu.step ha
    obtain rfl := Option.some.inj (hm.symm.trans hm')
    have hover := h.over_stays ha h.last ha.1
      (hwavers.returns (h.calledOff_stays hn hu hle hoff) hmove)
    cases hr.symm.trans hover
    rfl
  have hiff {outcome : DebugOutcome} (hresult : result = .debug outcome) (y : Verdict)
      (hdecided : y.Returned outcome → ∃ k u, n ≤ k ∧ start.Moment ms k u ∧ u.Settles i p y) :
      y.Returned outcome ↔ ∃ k u, n ≤ k ∧ start.Moment ms k u ∧ u.Settles i p y := by
    refine ⟨hdecided, ?_⟩
    rintro ⟨k', u', hle', hu', hy⟩
    obtain ⟨outcome', heq, hout'⟩ := hreturned hle' hu' hy
    cases hresult.symm.trans heq
    exact hout'
  rcases h.settled_or_installed hn h.last hn.1 hi with
    ⟨place, hplace, -⟩ | ⟨x, k, u, hle, hu, hx⟩ | ⟨k, u, hle, hu, hwavers, hm⟩
  · cases hr.symm.trans hplace
  · obtain ⟨outcome, rfl, hout⟩ := hreturned hle hu hx
    have hdecided (y : Verdict) (hy : y.Returned outcome) :
        ∃ k u, n ≤ k ∧ start.Moment ms k u ∧ u.Settles i p y :=
      ⟨k, u, hle, hu, Verdict.eq_of_returned hout hy ▸ hx⟩
    refine ⟨outcome, rfl, ⟨fun hy => ?_, ?_⟩, fun d => hiff rfl (.started d) (hdecided _),
      hiff rfl .failed (hdecided _)⟩
    · obtain ⟨k, u, hle, hu, hsettles⟩ := hdecided .calledOff hy
      exact ⟨k, u, hle, hu, .inl hsettles⟩
    · rintro ⟨k', u', hle', hu', hsettles | ⟨hwavers, hm⟩⟩
      · exact (hiff rfl .calledOff (hdecided _)).2 ⟨k', u', hle', hu', hsettles⟩
      · cases hnoticed hle' hu' hwavers hm
        rfl
  · obtain rfl := hnoticed hle hu hwavers hm
    refine ⟨.ok none, rfl, ⟨fun _ => ⟨k, u, hle, hu, .inr ⟨hwavers, hm⟩⟩, fun _ => rfl⟩,
      fun d => hiff rfl (.started d) nofun, hiff rfl .failed fun hnotice => ?_⟩
    cases hnotice.choose_spec

end Life

/-- A debug session is stopped while its start waits for the launcher, which refuses after that. -/
def Trial.recalling : List Move :=
  [.ask (.startDebug none), Trial.goOn, Trial.goOn, .perform 0, Trial.goOn, Trial.goOn,
    .ask .stopDebug, .run (.call 1), .run (.call 1),
    .answerLaunch 0 (.error (.ofKind .notFound)), Trial.goOn, Trial.goOn]

/-- The start fails with a notice, although nobody wants its session any more. -/
theorem called_off_result_trial :
    ∃ v w outcome, Trial.start.Life Trial.recalling w ∧ Trial.start.Moment Trial.recalling 9 v ∧
      v.Installed 0 0 ∧ .debug 0 ∈ v.cancelled ∧ v.IsDisposed 0 ∧
      w.calls[0]? = some (.over (.debug outcome)) ∧ outcome ≠ .ok none ∧
      ∃ notice, outcome = .error notice := by
  have hrun : (Trial.start.play? Trial.recalling).any (fun w =>
      w.calls[0]?.any fun c => c.result?.isSome) = true := by decide +kernel
  obtain ⟨w, hplay, hw⟩ := (Option.any_eq_true _ _).1 hrun
  have hlife := Trial.life hplay (by decide)
  obtain ⟨v, hv⟩ := hlife.exists_moment (n := 9) (by decide)
  obtain ⟨u, hu⟩ := hlife.exists_moment (n := 10) (by decide)
  have hstopped : (Trial.start.play? (Trial.recalling.take 9)).any (fun v =>
      ((v.calls[0]?.bind Call.debugging?).any fun place =>
        place.process? == some 0 && !place.installs) &&
      decide (.debug 0 ∈ v.cancelled) && v.processes[0]?.any ServerProcess.disposed) = true := by
    decide +kernel
  rw [hv.2, Option.any_some] at hstopped
  simp only [Bool.and_eq_true, Option.any_eq_true, beq_iff_eq, Bool.not_eq_true',
    decide_eq_true_eq] at hstopped
  obtain ⟨⟨⟨place, hplace, hp, hinstalls⟩, hcancelled⟩, q, hq, hd⟩ := hstopped
  have hinstalled : v.Installed 0 0 := ⟨place, Call.eq_of_debugging? hplace, hp, hinstalls⟩
  have hrefused : (Trial.start.play? (Trial.recalling.take 10)).any (fun u =>
      (u.calls[0]?.bind Call.debugging?).any fun place =>
        place.process? == some 0 && u.verdict? place == some .failed) = true := by decide +kernel
  rw [hu.2, Option.any_some] at hrefused
  simp only [Bool.and_eq_true, Option.any_eq_true, beq_iff_eq] at hrefused
  obtain ⟨place', hplace', hp', hx⟩ := hrefused
  obtain ⟨c, hc, hover⟩ := (Option.any_eq_true _ _).1 hw
  obtain ⟨result, rfl⟩ : ∃ result, c = .over result := by
    cases c with
    | active job => cases hover
    | «over» result => exact ⟨result, rfl⟩
  obtain ⟨outcome, rfl, -, -, hfailed⟩ :=
    hlife.called_off_result hv hinstalled hcancelled ⟨q, hq, hd⟩ hc
  obtain ⟨notice, rfl⟩ :=
    hfailed.2 ⟨10, u, by decide, hu, place', Call.eq_of_debugging? hplace', hp', hx⟩
  exact ⟨v, w, _, hlife, hv, hinstalled, hcancelled, ⟨q, hq, hd⟩, hc, nofun, notice, rfl⟩

end World

end SessionHost
