import SessionHost.Proofs.Lifecycle.Moments
import SessionHost.Proofs.Ledger.Changes

/-!
# The pieces of a debug session's start

What one piece of the start of a debug session can do once it has a process: where it waits next,
what it returns, and which processes it disposes of.  A launch never disposes of a process; a start
that fails disposes of its own, and then takes it back.

Main definitions:

- `Debugging.process?`: the process of a start.
- `World.IsDisposed`: a process was disposed of.
- `World.Fails`: a start whose process was disposed of by itself.

Main results:

- Theorem `World.launch_disposals`: a launch disposes of nothing.
- Theorem `World.debug_session`: what a piece takes out of the session, apart from the one piece
  that puts its process there.
- Theorem `World.debug_fails`: a start that disposes of its own process has failed.
-/

namespace SessionHost

/-- The process of the start of a debug session. -/
def Debugging.process? : Debugging → Option Nat
  | .installing _ p => some p
  | .launching _ p _ => some p
  | .diagnosing p _ => some p
  | .withdrawing p _ => some p
  | _ => none

/-- The start of a debug session is about to put its process into the session. -/
def Debugging.installs : Debugging → Bool
  | .installing _ _ => true
  | _ => false

namespace World

/-! ## Disposals -/

/-- The process was disposed of. -/
def IsDisposed (w : World) (p : Nat) : Prop := ∃ q, w.processes[p]? = some q ∧ q.disposed = true

/-- Which processes were disposed of. -/
def disposals (w : World) : List Bool := w.processes.map ServerProcess.disposed

variable (w : World)

/-- A disposal is seen in the list of disposals. -/
theorem isDisposed_iff {p : Nat} : w.IsDisposed p ↔ w.disposals[p]? = some true := by
  simp [IsDisposed, disposals]

/-- What depends on the list of disposals only. -/
theorem IsDisposed.of_disposals {w v : World} {p : Nat} (h : v.IsDisposed p)
    (heq : v.disposals = w.disposals) : w.IsDisposed p := by
  rw [isDisposed_iff] at h ⊢
  rwa [heq] at h

/-- Deleting a file disposes of nothing. -/
@[simp]
theorem disposals_deleteSessionFile (p : Path) :
    (w.deleteSessionFile p).disposals = w.disposals := by
  unfold deleteSessionFile
  split <;> rfl

/-- Telling a console something disposes of no process. -/
@[simp]
theorem disposals_tell (c : Nat) (command : ConsoleCommand) :
    (w.tell c command).disposals = w.disposals := by
  unfold tell
  split
  · rfl
  · simp only []
    split <;> rfl

theorem processes_tell (c : Nat) (command : ConsoleCommand) :
    (w.tell c command).processes = w.processes := by
  unfold tell
  split
  · rfl
  · simp only []
    split <;> rfl

theorem processes_releaseConsole (c : Nat) : (w.releaseConsole c).processes = w.processes := by
  unfold releaseConsole
  split
  · simp only []
    split <;> rfl
  · rfl

theorem processes_deleteSessionFile (p : Path) :
    (w.deleteSessionFile p).processes = w.processes := by
  unfold deleteSessionFile
  split <;> rfl

/-- A disposal is one of the process that it is for. -/
theorem IsDisposed.of_dispose {w : World} {p d : Nat} (h : (w.dispose d).IsDisposed p) :
    w.IsDisposed p ∨ p = d := by
  unfold dispose at h
  split at h
  · exact .inl h
  · rename_i q hq
    split at h
    · exact .inl h
    · obtain ⟨x, hx, hd⟩ := h
      rcases getElem?_set_cases hx with ⟨rfl, -⟩ | ⟨-, hx⟩
      · exact .inr rfl
      · refine .inl ⟨x, ?_, hd⟩
        unfold tellProcess at hx
        split at hx
        · rwa [processes_tell, processes_deleteSessionFile] at hx
        · rwa [processes_deleteSessionFile] at hx

/-! ## Launches -/

/-- Looking again disposes of nothing. -/
theorem lookAgain_disposals (p : Nat) (q : ServerProcess) (attempt : Nat) :
    (w.lookAgain p q attempt).Ends (·.disposals = w.disposals) := by
  unfold lookAgain
  split
  · rfl
  · split <;> rfl

/-- Taking a console over disposes of nothing. -/
theorem adoptConsole_disposals {p : Nat} {q : ServerProcess} (hq : w.processes[p]? = some q)
    (c : Nat) (n : Option Nat) :
    (w.adoptConsole p q c n).Ends (·.disposals = w.disposals) := by
  unfold adoptConsole
  split
  · exact w.disposals_tell c .kill
  · simp only []
    -- Whatever is done with consoles, the processes are those with the console in its place.
    have hend : ∀ v : World, v.processes = w.processes.set p (q.holding c n) →
        (v.lookAgain p (q.holding c n) 1).Ends (·.disposals = w.disposals) := by
      intro v hv
      have hlook := v.lookAgain_disposals p (q.holding c n) 1
      have hset : v.disposals = w.disposals := by
        rw [disposals, hv]
        exact map_set_of_eq hq rfl
      rwa [hset] at hlook
    apply hend
    split <;> split <;> split <;>
      simp [processes_tell, processes_releaseConsole, setProcess, setConsole]

/-- A look at the session file disposes of nothing. -/
theorem afterLook_disposals (p : Nat) (q : ServerProcess) (attempt : Nat)
    (content : Except ErrorKind (List UInt8)) :
    (w.afterLook p q attempt content).Ends (·.disposals = w.disposals) := by
  unfold afterLook
  simp only []
  split
  · unfold withoutFile warnSlow
    split
    · rfl
    · simp only []
      split
      · split <;> rfl
      · rfl
  · rfl
  · split
    · rfl
    · exact w.disposals_deleteSessionFile _

/-- A launch begins without a disposal. -/
theorem beginLaunch_disposals (p : Nat) : (w.beginLaunch p).Ends (·.disposals = w.disposals) := by
  unfold beginLaunch askForConsole
  split
  · trivial
  · split
    · rfl
    · exact w.disposals_deleteSessionFile _

/-- A launch disposes of nothing. -/
theorem launch_disposals (p : Nat) (place : Launching) :
    (w.launch p place).Ends (·.disposals = w.disposals) := by
  unfold launch
  split
  · trivial
  · rename_i q hq
    cases place with
    | answer c =>
      simp only []
      split
      · trivial
      · rfl
      · exact w.adoptConsole_disposals hq c _
    | file attempt => trivial
    | turn attempt content => exact w.afterLook_disposals p q attempt content
    | interval attempt wake =>
      simp only []
      split
      · rfl
      · split
        · exact w.lookAgain_disposals p q (attempt + 1)
        · trivial
    | woken attempt => exact w.lookAgain_disposals p q (attempt + 1)

/-! ## The start of a debug session -/

/-- Apart from the piece that puts its process there, a start leaves the session alone, or takes
its own process back. -/
theorem debug_session (place : Debugging) (h : place.installs = false) :
    (w.debug place).Ends fun v => v.session = w.session ∨ ∃ p, place.process? = some p ∧
      w.session.debug = some p ∧ v.session = { w.session with debug := none } := by
  have hsame {σ α : Type} {x : Progress World σ α} (hx : x.Ends (·.ledger = w.ledger)) :
      x.Ends fun v => v.session = w.session ∨ ∃ p, place.process? = some p ∧
        w.session.debug = some p ∧ v.session = { w.session with debug := none } :=
    hx.imp fun v hv => .inl (congrArg Ledger.session hv)
  cases place with
  | choosing s =>
    simp only [debug]
    split
    · exact .inl rfl
    · exact hsame (w.chooseForDebug_ledger s none)
  | preparing s exe step =>
    cases step with
    | none => trivial
    | some result => cases result <;> exact .inl rfl
  | installing exe p => cases h
  | launching exe p l =>
    refine hsame ((w.launch_ledger p l).bind (fun _ => id) fun v outcome hv => ?_)
    exact (v.afterDebugLaunch_ledger exe p outcome).imp fun u hu => hu.trans hv
  | diagnosing p inquiry =>
    refine hsame ?_
    simp only [debug]
    split
    · trivial
    · exact (ledger_dispose _ p).trans (w.ledger_diagnosis _)
  | withdrawing p failure =>
    simp only [debug]
    split
    · rename_i hp
      exact .inr ⟨p, rfl, hp, rfl⟩
    · exact .inl rfl

/-- The first piece of a start leaves the session alone. -/
theorem beginDebug_session (name : Option String) :
    (w.beginDebug name).Ends (·.session = w.session) := by
  cases name with
  | some name =>
    exact (w.chooseForDebug_ledger w.settings (some name)).imp fun v hv =>
      congrArg Ledger.session hv
  | none => rfl

/-- Choosing a runtime disposes of nothing. -/
theorem chooseForDebug_disposals (s : Settings) (name : Option String) :
    (w.chooseForDebug s name).Ends (·.disposals = w.disposals) := by
  have hlearn (t : Discovery.Traced (Option Executable)) :
      (w.learn t).1.disposals = w.disposals :=
    congrArg (fun o : Outline => o.processes.map ServerProcess.disposed) (w.outline_learn t)
  simp only [chooseForDebug, debugWith]
  split
  · exact hlearn _
  · exact hlearn _

/-- The first piece of a start disposes of nothing. -/
theorem beginDebug_disposals (name : Option String) :
    (w.beginDebug name).Ends (·.disposals = w.disposals) := by
  cases name with
  | some name => exact w.chooseForDebug_disposals w.settings (some name)
  | none => rfl

/-- Apart from the piece that puts its process into the session, a start disposes of its own process
only. -/
theorem debug_spares (place : Debugging) (h : place.installs = false) :
    (w.debug place).Ends fun v => ∀ p, v.IsDisposed p →
      w.IsDisposed p ∨ place.process? = some p := by
  have hsame {σ α : Type} {x : Progress World σ α} (hx : x.Ends (·.disposals = w.disposals)) :
      x.Ends fun v => ∀ p, v.IsDisposed p → w.IsDisposed p ∨ place.process? = some p :=
    hx.imp fun v hv p hp => .inl (hp.of_disposals hv)
  cases place with
  | choosing s =>
    simp only [debug]
    split
    · exact hsame rfl
    · exact hsame (w.chooseForDebug_disposals s none)
  | preparing s exe step =>
    cases step with
    | none => trivial
    | some result =>
      cases result with
      | error kind => exact hsame rfl
      | ok _ =>
        intro p hp
        obtain ⟨q, hq, hd⟩ := hp
        rcases getElem?_append_cases hq with hq | ⟨-, rfl⟩
        · exact .inl ⟨q, hq, hd⟩
        · cases hd
  | installing exe p => cases h
  | launching exe p l =>
    refine (w.launch_disposals p l).bind (fun v hv q hq => .inl (hq.of_disposals hv))
      fun v outcome hv => ?_
    have hown : ∀ q, (v.dispose p).IsDisposed q → w.IsDisposed q ∨ some p = some q := by
      intro q hq
      rcases hq.of_dispose with hq | rfl
      · exact .inl (hq.of_disposals hv)
      · exact .inr rfl
    unfold afterDebugLaunch
    split
    · exact fun q hq => .inl (hq.of_disposals hv)
    · exact fun q hq => .inl (hq.of_disposals hv)
    · exact hown
    · split
      · exact fun q hq => .inl (IsDisposed.of_disposals (v := v) hq hv)
      · exact hown
  | diagnosing p inquiry =>
    simp only [debug]
    split
    · trivial
    · intro q hq
      rcases hq.of_dispose with hq | rfl
      · exact .inl hq
      · exact .inr rfl
  | withdrawing p failure =>
    simp only [debug]
    split <;> exact hsame rfl

/-- What became of a process that was not disposed of: if it is now, then its start has failed, and
is about to take it back. -/
def Fails (p : Nat) (v : World) (place : Debugging) : Prop :=
  v.IsDisposed p → ∃ failure, place = .withdrawing p failure

/-- A debug session that fails disposes of its own process. -/
theorem afterDebugLaunch_fails (exe : Executable) {p : Nat} (h : ¬w.IsDisposed p)
    (outcome : LaunchOutcome) :
    (w.afterDebugLaunch exe p outcome).Gives (Fails p) fun v _ => ¬v.IsDisposed p := by
  unfold afterDebugLaunch
  split
  · exact h
  · exact h
  · exact fun _ => ⟨_, rfl⟩
  · split
    · exact fun hd => absurd hd h
    · exact fun _ => ⟨_, rfl⟩

/-- A debug session whose launch fails disposes of its own process, however the launch ends. -/
theorem launching_fails (exe : Executable) {p : Nat} (h : ¬w.IsDisposed p)
    {x : Progress World Launching LaunchOutcome} (hx : x.Ends (·.disposals = w.disposals)) :
    (x.andThen (.launching exe p) fun v outcome => v.afterDebugLaunch exe p outcome).Gives
      (Fails p) fun v _ => ¬v.IsDisposed p := by
  have hspared : ∀ v : World, v.disposals = w.disposals → ¬v.IsDisposed p := fun v hv hd =>
    h (hd.of_disposals hv)
  exact hx.gives.andThen (fun v l hv hd => absurd hd (hspared v hv)) fun v outcome hv =>
    v.afterDebugLaunch_fails exe (hspared v hv) outcome

/-- A start that disposes of its own process has failed. -/
theorem debug_fails {place : Debugging} {p : Nat} (hp : place.process? = some p)
    (hd : w.session.debug ≠ some p ∨ place.installs = false) (h : ¬w.IsDisposed p) :
    (w.debug place).Gives (Fails p) fun v _ => ¬v.IsDisposed p := by
  cases place with
  | choosing s => cases hp
  | preparing s exe step => cases hp
  | installing exe q =>
    obtain rfl : q = p := Option.some.inj hp
    have hlaunch : ∀ u : World, ¬u.IsDisposed q →
        ((u.beginLaunch q).andThen (.launching exe q) fun u outcome =>
          u.afterDebugLaunch exe q outcome).Gives (Fails q) fun v _ => ¬v.IsDisposed q :=
      fun u hu => u.launching_fails exe hu (u.beginLaunch_disposals q)
    apply hlaunch
    cases hprevious : w.session.debug with
    | none => exact h
    | some previous =>
      intro hdisposed
      rcases IsDisposed.of_dispose hdisposed with hdisposed | rfl
      · exact h hdisposed
      · exact hd.resolve_right nofun hprevious
  | launching exe q l =>
    obtain rfl : q = p := Option.some.inj hp
    exact w.launching_fails exe h (w.launch_disposals q l)
  | diagnosing q inquiry =>
    obtain rfl : q = p := Option.some.inj hp
    simp only [debug]
    split
    · trivial
    · exact fun _ => ⟨_, rfl⟩
  | withdrawing q failure =>
    simp only [debug]
    split <;> exact h

end World

end SessionHost
