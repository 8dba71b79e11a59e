import SessionHost.Proofs.Lifecycle.Conduct
import SessionHost.Session.Launching

/-!
# Launches obey the rules

A launch belongs to a call that has a process in hand.  It ends with the process up, or its call
lets go of a process that was disposed of or called off.

Main definitions:

- `launchEnd`: the role of a call after a launch.

Main results:

- Theorem `World.beginLaunch_obeys`: the first piece of a launch obeys the rules.
- Theorem `World.launch_obeys`: so does every other one.
-/

namespace SessionHost

/-- The role of a call after a launch. -/
def launchEnd (purpose : Purpose) (process : Nat) (outcome : LaunchOutcome) : Role :=
  match outcome with
  | .ok none => .bystander
  | _ => .bringing purpose process .up

namespace World

variable (w : World) (i : Nat) {u : Purpose} {p : Nat} {q : ServerProcess}

/-! ## Consoles -/

/-- Letting go of a console is a change of that console alone. -/
@[simp]
theorem outline_releaseConsole (c : Nat) :
    (w.releaseConsole c).outline =
      { w.outline with
        consoles := w.outline.consoles.modify c fun k => { k with released := true } } := by
  unfold releaseConsole
  split
  · rename_i k hk
    have hset : w.outline.consoles.modify c (fun k => { k with released := true }) =
        w.outline.consoles.set c { k with released := true } :=
      modify_eq_set_of_some (l := w.outline.consoles) hk _
    split <;> simp [hset]
  · rename_i hc
    have hnone : w.outline.consoles[c]? = none := hc
    rw [List.modify_eq_self (List.getElem?_eq_none_iff.1 hnone)]

/-- A console is watched from now on. -/
theorem outline_watchConsole (c : Nat) :
    (match w.consoles[c]? with
      | some k => w.setConsole c { k with watched := true }
      | none => w).outline =
      { w.outline with
        consoles := w.outline.consoles.modify c fun k => { k with watched := true } } := by
  split
  · rename_i k hk
    rw [modify_eq_set_of_some (l := w.outline.consoles) hk, outline_setConsole]
  · rename_i hc
    have hnone : w.outline.consoles[c]? = none := hc
    rw [List.modify_eq_self (List.getElem?_eq_none_iff.1 hnone)]

/-- What a call writes to a console changes no role. -/
theorem conduct_tell {c : Nat} {command : ConsoleCommand} (h : command ≠ .kill) (o : Outline)
    (r : Role) : Conduct i o r (o.tell c command) r :=
  .of_rule_at rfl rfl (.write c h)

/-! ## Looking for the session file -/

/-- A launch that was called off lets go of its process. -/
theorem conduct_giveUp (hq : w.processes[p]? = some q)
    (h : q.disposed = true ∨ q.purpose.token p ∈ w.cancelled) :
    Conduct i w.outline (.bringing u p .up) w.outline .bystander :=
  .turn (.giveUp (.inr rfl) hq h)

theorem lookAgain_obeys (hq : w.processes[p]? = some q) (attempt : Nat) :
    (w.lookAgain p q attempt).Obeys i w.outline (.bringing u p .up)
      (fun l => .bringing u p l.stage) (launchEnd u p) := by
  unfold lookAgain
  split
  · exact .refl
  · split
    · rename_i hended
      refine w.conduct_giveUp i hq ?_
      simpa [launchEnded, isCancelled, or_comm] using hended
    · exact .refl

/-- A session file makes no launch one that was called off. -/
theorem handshakeOutcome_ne_none {bytes : List UInt8} {outcome : LaunchOutcome}
    (h : handshakeOutcome bytes = .ok outcome) : outcome ≠ .ok none := by
  unfold handshakeOutcome at h
  split at h
  · cases h
  · split at h
    · cases h
      nofun
    · cases h
      nofun

theorem withoutFile_obeys (attempt : Nat) :
    (w.withoutFile p q attempt).Obeys i w.outline (.bringing u p .up)
      (fun l => .bringing u p l.stage) (launchEnd u p) := by
  unfold withoutFile
  split
  · exact .refl
  · have hwarn : (if attempt = q.plan.warnAt then w.warnSlow p q attempt else w).outline =
        w.outline := by
      unfold warnSlow
      split
      · simp only []
        split <;> rfl
      · rfl
    exact Conduct.of_eq hwarn

theorem afterLook_obeys (attempt : Nat) (content : Except ErrorKind (List UInt8)) :
    (w.afterLook p q attempt content).Obeys i w.outline (.bringing u p .up)
      (fun l => .bringing u p l.stage) (launchEnd u p) := by
  unfold afterLook
  simp only []
  split
  · exact w.withoutFile_obeys i attempt
  · exact .refl
  · split
    · exact .refl
    · rename_i outcome houtcome
      have hend : launchEnd u p outcome = .bringing u p .up := by
        unfold launchEnd
        split
        · exact absurd rfl (handshakeOutcome_ne_none houtcome)
        · rfl
      rw [Progress.Obeys, outline_deleteSessionFile, hend]
      exact .refl

/-! ## The pieces of a launch -/

theorem askForConsole_obeys (hq : w.processes[p]? = some q) (hd : q.disposed = false) :
    (w.askForConsole p q).Obeys i w.outline (.bringing u p .installed)
      (fun l => .bringing u p l.stage) (launchEnd u p) := by
  have hfile : (w.deleteSessionFile q.spec.sessionFile).outline = w.outline :=
    w.outline_deleteSessionFile q.spec.sessionFile
  have hout : (w.askForConsole p q).Ends (·.outline =
      { w.outline with consoles := w.outline.consoles ++ [({ owner := p } : Console)] }) := by
    rw [← hfile]
    rfl
  refine Conduct.of_rule ?_ ?_ fun hr => .launch hr hq hd
  · exact (congrArg (·.setRole i (.bringing u p .installed)) hout).symm
  · exact congrArg (·.roles.length) hout

/-- The first piece of a launch obeys the rules. -/
theorem beginLaunch_obeys :
    (w.beginLaunch p).Obeys i w.outline (.bringing u p .installed)
      (fun l => .bringing u p l.stage) (launchEnd u p) := by
  unfold beginLaunch
  split
  · trivial
  · rename_i q hq
    split
    · rename_i hd
      exact .turn (.giveUp (.inl rfl) hq (.inl hd))
    · rename_i hd
      exact w.askForConsole_obeys i hq (by simpa using hd)

/-- A launch goes on with the console that its process has taken over. -/
theorem held_obeys {c : Nat} {n : Option Nat} {v : World}
    (hq : w.processes[p]? = some q) (hv : v.outline = w.outline.hold p q c n) (reveal : Bool) :
    ((if reveal then v.tell c (.reveal true) else v).lookAgain p (q.holding c n) 1).Obeys i
      (w.outline.hold p q c n) (.bringing u p .up) (fun l => .bringing u p l.stage)
      (launchEnd u p) := by
  have hprocess : (w.outline.hold p q c n).processes[p]? = some (q.holding c n) :=
    getElem?_set_at hq _
  cases reveal with
  | false =>
    rw [← hv] at hprocess ⊢
    exact v.lookAgain_obeys i hprocess 1
  | true =>
    have htell : (v.tell c (.reveal true)).outline =
        (w.outline.hold p q c n).tell c (.reveal true) := by rw [outline_tell, hv]
    have hreveal : ConsoleCommand.reveal true ≠ .kill := nofun
    refine Progress.Obeys.after (conduct_tell i (c := c) hreveal _ _) ?_
    rw [← htell]
    refine (v.tell c (.reveal true)).lookAgain_obeys i ?_ 1
    calc (v.tell c (.reveal true)).processes[p]?
        = (v.tell c (.reveal true)).outline.processes[p]? := rfl
      _ = some (q.holding c n) := by rw [htell]; exact hprocess

theorem adoptConsole_obeys {c : Nat} {k : Console} {n : Option Nat}
    (hq : w.processes[p]? = some q) (hk : w.consoles[c]? = some k)
    (ha : k.answer = some (.ok n)) :
    (w.adoptConsole p q c n).Obeys i w.outline (.bringing u p (.answering c))
      (fun l => .bringing u p l.stage) (launchEnd u p) := by
  unfold adoptConsole
  split
  · rename_i hd
    refine Conduct.of_rule ?_ ?_ fun hr => .dismiss hr hq hd
    · rw [outline_tell]
      rfl
    · simp [Outline.tell]
  · rename_i hd
    have hhold : Conduct i w.outline (.bringing u p (.answering c)) (w.outline.hold p q c n)
        (.bringing u p .up) :=
      .of_rule (Outline.hold_setRole ..) rfl fun hr => .hold hr hq (by simpa using hd) hk ha
    refine Progress.Obeys.after hhold (w.held_obeys i hq ?_ _)
    refine (outline_watchConsole _ c).trans ?_
    simp only [outline_setProcess, Outline.hold]
    cases q.console with
    | none => rfl
    | some previous =>
      simp only [outline_releaseConsole]

/-- Every piece of a launch obeys the rules. -/
theorem launch_obeys (place : Launching) :
    (w.launch p place).Obeys i w.outline (.bringing u p place.stage)
      (fun l => .bringing u p l.stage) (launchEnd u p) := by
  unfold launch
  split
  · trivial
  · rename_i q hq
    cases place with
    | answer c =>
      simp only []
      split
      · trivial
      · rename_i e he
        obtain ⟨k, hk, ha⟩ := Option.bind_eq_some_iff.1 he
        exact .turn (.refused hk ha)
      · rename_i n hn
        obtain ⟨k, hk, ha⟩ := Option.bind_eq_some_iff.1 hn
        exact w.adoptConsole_obeys i hq hk ha
    | file attempt => trivial
    | turn attempt content => exact w.afterLook_obeys i attempt content
    | interval attempt wake =>
      simp only []
      split
      · rename_i hc
        exact w.conduct_giveUp i hq (.inr (by simpa [isCancelled] using hc))
      · split
        · exact w.lookAgain_obeys i hq (attempt + 1)
        · trivial
    | woken attempt => exact w.lookAgain_obeys i hq (attempt + 1)

end World

end SessionHost
