import SessionHost.Proofs.Discovery.Selection
import SessionHost.Proofs.Ledger.Suggestions
import SessionHost.Proofs.Lifecycle.Stops

/-!
# Runtimes that are started

The start of a session or of a debug session selects a runtime, makes a process for it and launches
that; a debug session may take the runtime of the session instead.  What a call has in hand at one
of its places says where it comes from, and no other runtime ever gets there.  So what a session
starts was selected.

Main definitions:

- `Hand`, `Job.hand?`: what a call has in hand on its way to a launch.
- `World.Obtains`: how one piece of a call comes to that.
- `World.Supplied`: the session and its calls have nothing but selected runtimes.

Main results:

- Theorem `World.call_hand`: every piece of a call comes to what it has in hand in such a way.
- Theorem `World.Supplied.step`: every move leaves the session and its calls with selected runtimes.
- Theorem `World.Life.launches`: what a session launches was selected.
- Theorem `World.selected_started`: which runtimes are selected, and that no other ones are started.
-/

namespace SessionHost

/-! ## What a call has in hand -/

/-- What a call has in hand on its way to a launch. -/
inductive Hand where
  /-- Settings to select a runtime for. -/
  | settings (s : Settings)
  | runtime (exe : Executable)
  /-- A runtime and the process that was made for it. -/
  | process (exe : Executable) (p : Nat)

def Starting.hand? : Starting → Option Hand
  | .clearing a _ _ => some (.settings a.settings)
  | .preparing a _ _ => some (.settings a.settings)
  | .recording _ exe => some (.runtime exe)
  | .adopting _ exe p => some (.process exe p)
  | .launching _ exe p _ => some (.process exe p)
  | _ => none

def Debugging.hand? : Debugging → Option Hand
  | .choosing s => some (.settings s)
  | .preparing _ exe _ => some (.runtime exe)
  | .installing exe p => some (.process exe p)
  | .launching exe p _ => some (.process exe p)
  | _ => none

/-- What a call has in hand. -/
def Job.hand? : Job → Option Hand
  | .phased (.starting place) _ => place.hand?
  | .debugging place => place.hand?
  | _ => none

/-- The runtime and the process that a call is about to launch. -/
def Job.due? : Job → Option (Executable × Nat)
  | .phased (.starting (.adopting _ exe p)) _ => some (exe, p)
  | .debugging (.installing exe p) => some (exe, p)
  | _ => none

/-- The runtime and the process that a call is launching. -/
def Job.launching? : Job → Option (Executable × Nat)
  | .phased (.starting (.launching _ exe p _)) _ => some (exe, p)
  | .debugging (.launching exe p _) => some (exe, p)
  | _ => none

/-- The program that the launcher is asked to run. -/
def Event.program? : Event → Option Path
  | .launched _ command _ => some command.program
  | _ => none

/-- A process is due where a start adopts it, or a debug session installs it. -/
theorem Job.due?_cases {job : Job} {exe : Executable} {p : Nat} (h : job.due? = some (exe, p)) :
    (∃ a next, job = .phased (.starting (.adopting a exe p)) next) ∨
      job = .debugging (.installing exe p) := by
  unfold due? at h
  split at h
  · cases h
    exact .inl ⟨_, _, rfl⟩
  · cases h
    exact .inr rfl
  · cases h

/-- A call has the process in hand that is due. -/
theorem Job.hand?_of_due? {job : Job} {exe : Executable} {p : Nat}
    (h : job.due? = some (exe, p)) : job.hand? = some (.process exe p) := by
  rcases due?_cases h with ⟨a, next, rfl⟩ | rfl <;> rfl

/-- A call has the process in hand that it launches. -/
theorem Job.hand?_of_launching? {job : Job} {exe : Executable} {p : Nat}
    (h : job.launching? = some (exe, p)) : job.hand? = some (.process exe p) := by
  unfold launching? at h
  split at h <;> cases h <;> rfl

/-! ## The programs of processes -/

namespace Outline

/-- The runtimes of the processes. -/
def exes (o : Outline) : List Executable := o.processes.map ServerProcess.exe

theorem dispose_exes (o : Outline) (p : Nat) : (o.dispose p).exes = o.exes := by
  rcases o.dispose_cases p with h | ⟨q, hq, -, h⟩
  · rw [h]
  · rw [h]
    exact map_set_of_eq hq rfl

end Outline

/-- A process has its runtime for good. -/
theorem Rule.exes_grow {a : Actor} {o o' : Outline} (h : Rule a o o') : o.exes <+: o'.exes := by
  have hsame {o' : Outline} (h : o'.exes = o.exes) : o.exes <+: o'.exes := h ▸ List.prefix_rfl
  cases h with
  | drop hr h => exact hsame (o.dispose_exes _)
  | endDebug h => exact hsame (o.dispose_exes _)
  | dropWatch hx hv => exact hsame (o.dispose_exes _)
  | createMain hr hq | createDebug hr hq =>
    rw [Outline.exes, Outline.exes, Outline.setRole, List.map_append]
    exact List.prefix_append _ _
  | adopt hr hq h =>
    rw [Outline.watchExit]
    split
    · exact hsame rfl
    · exact hsame (map_set_of_eq hq rfl)
  | hold hr hq h hk ha => exact hsame (map_set_of_eq hq rfl)
  | passOn hk hq he hw hp => exact hsame (map_set_of_eq hq rfl)
  | endStop hr | endFailed hr | conclude hr h v =>
    rw [Outline.transition]
    split <;> exact hsame rfl
  | withdraw hr => split <;> exact hsame rfl
  | _ => exact hsame rfl

/-- No process changes its runtime. -/
theorem Leads.exes_grow {a : Actor} {o o' : Outline} (h : Leads a o o') : o.exes <+: o'.exes :=
  h.keeps (P := fun u => o.exes <+: u.exes) (fun _ _ hu hrule => hu.trans hrule.exes_grow)
    List.prefix_rfl

/-! ## The runtime of the session -/

/-- Neither the configuration nor the runtime of the session has changed. -/
def Ledger.Steady (l l' : Ledger) : Prop :=
  l'.config = l.config ∧ l'.session.executable = l.session.executable

/-- Only a start at its own place writes the session's runtime. -/
theorem Writings.steady {own : Option Nat} {l l' : Ledger} (h : Writings own l l') :
    l.Steady l' := by
  refine h.keeps (P := l.Steady) (fun u v hu hposting => ?_) (fun u v hu hamendment => ?_)
    ⟨rfl, rfl⟩
  · cases hposting <;> exact hu
  · cases hamendment <;> exact hu

/-- Only a start that has selected a runtime changes that of the session. -/
theorem Job.Writes.executable {job : Job} {l l' : Ledger} (h : job.Writes l l') :
    l'.config = l.config ∧ (l'.session.executable = l.session.executable ∨
      ∃ exe, job.hand? = some (.runtime exe) ∧ l'.session.executable = some exe) := by
  obtain ⟨m, hm, hwritings⟩ := h
  rw [hwritings.steady.1, hwritings.steady.2]
  rcases hm with rfl | ⟨place, next, rfl, hstore⟩
  · exact ⟨rfl, .inl rfl⟩
  · cases hstore with
    | record => exact ⟨rfl, .inr ⟨_, rfl, rfl⟩⟩
    | _ => exact ⟨rfl, .inl rfl⟩

/-- The session's runtime is the one before, or one that a start had in hand. -/
theorem Change.executable {m : Move} {l l' : Ledger} (h : Change m l l') :
    l'.config = l.config ∧ (l'.session.executable = l.session.executable ∨
      ∃ (i : Nat) (job : Job) (exe : Executable), l.calls[i]? = some (.active job) ∧
        job.hand? = some (.runtime exe) ∧ l'.session.executable = some exe) := by
  cases h with
  | call hm hi hw c =>
    obtain ⟨hconfig, hsame | ⟨exe, hhand, hexe⟩⟩ := hw.executable
    · exact ⟨hconfig, .inl hsame⟩
    · exact ⟨hconfig, .inr ⟨_, _, exe, hi, hhand, hexe⟩⟩
  | release hm hx hp hl r' =>
    exact ⟨(Writings.of_postings hl).steady.1, .inl (Writings.of_postings hl).steady.2⟩
  | report hm hx hp hl notice =>
    exact ⟨(Writings.of_postings hl).steady.1, .inl (Writings.of_postings hl).steady.2⟩
  | _ => exact ⟨rfl, .inl rfl⟩

/-! ## How a call comes to a runtime -/

namespace World

variable {u v w : World} {hand : Hand}

/-- How a piece that leads from one world to another one comes to what it has in hand then. -/
inductive Obtains (w : World) (before : Option Hand) (v : World) : Hand → Prop where
  | kept {hand : Hand} (h : before = some hand) : Obtains w before v hand
  | settings : Obtains w before v (.settings v.settings)
  | selected {s : Settings} {name : Option String} {exe : Executable}
      (hs : before = some (.settings s) ∨ s = w.settings)
      (h : (w.choice s name).value = some exe) : Obtains w before v (.runtime exe)
  /-- The runtime is that of the session. -/
  | present {exe : Executable} (h : w.session.executable = some exe) :
      Obtains w before v (.runtime exe)
  | made {exe : Executable} {p : Nat} {q : ServerProcess} (h : before = some (.runtime exe))
      (hq : v.processes[p]? = some q) (hexe : q.exe = exe) : Obtains w before v (.process exe p)

section Starts

variable {a : Attempt} {place place' : Starting}

/-- A start that fails has nothing in hand. -/
theorem failStart_hand {failure : SessionFailure} (h : w.failStart a failure = .going v place) :
    place.hand? = none := by
  unfold failStart at h
  split at h <;> cases h
  rfl

/-- A start begins with the settings in hand. -/
theorem beginStart_hand {name : Option String} {before : Option Hand}
    (h : w.beginStart name = .going v place) (hhand : place.hand? = some hand) :
    u.Obtains before v hand := by
  unfold beginStart at h
  generalize w.beginWait? = wait? at h
  cases hs : w.status with
  | running | busy =>
    rw [hs] at h
    cases h
  | starting | stopping =>
    rw [hs] at h
    cases wait? with
    | none => cases h
    | some p =>
      cases h
      cases hhand
  | notStarted | failed =>
    rw [hs] at h
    cases h
    cases hhand
    exact .settings

/-- A start chooses by the settings that it has in hand. -/
theorem chooseRuntime_hand {name : Option String} (h : w.chooseRuntime a name = .going v place)
    (hhand : place.hand? = some hand) : w.Obtains (some (.settings a.settings)) v hand := by
  have hvalue : (w.learn (w.choice a.settings name)).2 = (w.choice a.settings name).value := rfl
  unfold chooseRuntime at h
  generalize w.learn (w.choice a.settings name) = t at h hvalue
  obtain ⟨u, exe⟩ := t
  cases exe with
  | none =>
    rw [failStart_hand h] at hhand
    cases hhand
  | some exe =>
    cases h
    cases hhand
    exact .selected (.inl rfl) hvalue.symm

/-- Behind its launch a start has no process in hand any longer. -/
theorem afterLaunch_hand {exe : Executable} {outcome : LaunchOutcome}
    (h : w.afterLaunch a exe outcome = .going v place) : place.hand? = none := by
  unfold afterLaunch at h
  split at h
  · cases h
  · cases h
    rfl
  · exact failStart_hand h
  · split at h
    · cases h
      rfl
    · exact failStart_hand h

/-- A start that waits for its connection has nothing in hand. -/
theorem awaitConnection_hand {d : StartedSession} {connection deadline : Nat}
    (h : w.awaitConnection a d connection deadline = .going v place) : place.hand? = none := by
  unfold awaitConnection at h
  simp only [] at h
  split at h
  · simp only [openClient] at h
    split at h <;> cases h
    rfl
  · exact failStart_hand h
  · split at h
    · exact failStart_hand h
    · cases h

/-- A start that knows the version has nothing in hand. -/
theorem afterVersion_hand {answer : Except RequestFailure RuntimeDetails}
    (h : w.afterVersion a answer = .going v place) : place.hand? = none := by
  unfold afterVersion at h
  split at h
  · cases h
    rfl
  · exact failStart_hand h
  · exact failStart_hand h

/-- How a start comes to a runtime. -/
theorem start_hand (h : w.start place = .going v place') (hhand : place'.hand? = some hand) :
    w.Obtains place.hand? v hand := by
  have hempty (hnone : place'.hand? = none) : w.Obtains place.hand? v hand := by
    rw [hnone] at hhand
    cases hhand
  cases place with
  | joining p =>
    obtain ⟨_, -, rfl⟩ | ⟨_, _, -, hnext⟩ := Progress.andThen_eq_going h
    · cases hhand
    · cases hnext
  | awaiting name p =>
    obtain ⟨_, -, rfl⟩ | ⟨_, _, -, hnext⟩ := Progress.andThen_eq_going h
    · cases hhand
    · exact beginStart_hand hnext hhand
  | clearing a name r =>
    obtain ⟨_, -, rfl⟩ | ⟨_, _, -, hnext⟩ := Progress.andThen_eq_going h
    · exact .kept hhand
    · cases hnext
      exact .kept hhand
  | preparing a name step =>
    cases step with
    | none => cases h
    | some result =>
      cases result with
      | error kind => exact hempty (failStart_hand h)
      | ok _ => exact chooseRuntime_hand h hhand
  | recording a exe =>
    cases h
    cases hhand
    exact .made rfl List.getElem?_concat_length rfl
  | adopting a exe p =>
    simp only [start, adoptProcess] at h
    split at h
    · cases h
    · obtain ⟨_, -, rfl⟩ | ⟨_, _, -, hnext⟩ := Progress.andThen_eq_going h
      · exact .kept hhand
      · exact hempty (afterLaunch_hand hnext)
  | launching a exe p l =>
    obtain ⟨_, -, rfl⟩ | ⟨_, _, -, hnext⟩ := Progress.andThen_eq_going h
    · exact .kept hhand
    · exact hempty (afterLaunch_hand hnext)
  | diagnosing a inquiry =>
    simp only [start] at h
    split at h
    · cases h
    · exact hempty (failStart_hand h)
  | noting a d =>
    simp only [start] at h
    split at h <;> cases h
    cases hhand
  | connecting a d connection deadline =>
    simp only [start] at h
    split at h
    · cases h
    · exact hempty (awaitConnection_hand h)
  | opening a c o =>
    simp only [start] at h
    split at h
    · cases h
    · obtain ⟨_, -, rfl⟩ | ⟨_, result, -, hnext⟩ := Progress.andThen_eq_going h
      · cases hhand
      · split at hnext
        · cases hnext
          cases hhand
        · exact hempty (failStart_hand hnext)
  | keeping a c =>
    simp only [start, keepClient] at h
    split at h
    · cases h
    · split at h <;> cases h
      cases hhand
  | asking a c request =>
    simp only [start] at h
    split at h
    · cases h
    · obtain ⟨_, -, rfl⟩ | ⟨_, _, -, hnext⟩ := Progress.andThen_eq_going h
      · cases hhand
      · exact hempty (afterVersion_hand hnext)
  | concluding a version =>
    simp only [start, conclude] at h
    split at h <;> cases h
  | failing a failure r =>
    obtain ⟨_, -, rfl⟩ | ⟨_, _, -, hnext⟩ := Progress.andThen_eq_going h
    · cases hhand
    · cases hnext

end Starts

section DebugStarts

variable {place place' : Debugging}

/-- A debug session chooses by the settings that it has in hand. -/
theorem chooseForDebug_hand {s : Settings} {name : Option String} {before : Option Hand}
    (h : w.chooseForDebug s name = .going v place)
    (hs : before = some (.settings s) ∨ s = w.settings) (hhand : place.hand? = some hand) :
    w.Obtains before v hand := by
  have hvalue : (w.learn (w.choice s name)).2 = (w.choice s name).value := rfl
  unfold chooseForDebug at h
  generalize w.learn (w.choice s name) = t at h hvalue
  obtain ⟨u, exe⟩ := t
  cases exe with
  | none => cases h
  | some exe =>
    cases h
    cases hhand
    exact .selected hs hvalue.symm

/-- Behind its launch a debug session has no process in hand any longer. -/
theorem afterDebugLaunch_hand {exe : Executable} {p : Nat} {outcome : LaunchOutcome}
    (h : w.afterDebugLaunch exe p outcome = .going v place) : place.hand? = none := by
  unfold afterDebugLaunch at h
  split at h
  · cases h
  · cases h
  · cases h
    rfl
  · split at h <;> cases h <;> rfl

/-- How the start of a debug session comes to a runtime. -/
theorem debug_hand (h : w.debug place = .going v place') (hhand : place'.hand? = some hand) :
    w.Obtains place.hand? v hand := by
  have hempty (hnone : place'.hand? = none) : w.Obtains place.hand? v hand := by
    rw [hnone] at hhand
    cases hhand
  cases place with
  | choosing s =>
    simp only [debug] at h
    split at h
    · next exe hexe =>
      cases h
      cases hhand
      exact .present hexe
    · exact chooseForDebug_hand h (.inl rfl) hhand
  | preparing s exe step =>
    cases step with
    | none => cases h
    | some result =>
      cases result with
      | error kind => cases h
      | ok _ =>
        cases h
        cases hhand
        exact .made rfl List.getElem?_concat_length rfl
  | installing exe p =>
    obtain ⟨_, -, rfl⟩ | ⟨_, _, -, hnext⟩ := Progress.andThen_eq_going h
    · exact .kept hhand
    · exact hempty (afterDebugLaunch_hand hnext)
  | launching exe p l =>
    obtain ⟨_, -, rfl⟩ | ⟨_, _, -, hnext⟩ := Progress.andThen_eq_going h
    · exact .kept hhand
    · exact hempty (afterDebugLaunch_hand hnext)
  | diagnosing p inquiry =>
    simp only [debug] at h
    split at h
    · cases h
    · cases h
      cases hhand
  | withdrawing p failure => cases h

end DebugStarts

/-! ## Calls -/

section Calls

variable {job job' : Job}

/-- The parts of a call come to what they have in hand by themselves. -/
theorem runPhases_hand {next : List Phase} {before : Option Hand}
    (h : w.runPhases next = .going v job) (hhand : job.hand? = some hand) :
    u.Obtains before v hand := by
  obtain ⟨p, rest, place, x, rfl, -, hbegin⟩ := runPhases_going h
  obtain ⟨-, q, rfl, -⟩ | ⟨name, q, -, rfl, hstart⟩ := beginPhase_going hbegin
  · cases hhand
  · exact beginStart_hand hstart hhand

/-- A call begins with what it takes from the world. -/
theorem beginCall_hand {command : Command} (h : w.beginCall command = .going v job)
    (hhand : job.hand? = some hand) : w.Obtains none v hand := by
  cases command with
  | start | stop | restart | changeDefault => exact runPhases_hand h hhand
  | startDebug name =>
    obtain ⟨place, hbegin, rfl⟩ | ⟨_, _, -, hnext⟩ := Progress.andThen_eq_going h
    · cases name with
      | none =>
        cases hbegin
        cases hhand
        exact .settings
      | some name => exact chooseForDebug_hand hbegin (.inr rfl) hhand
    · cases hnext
  | stopDebug =>
    cases h
    cases hhand
  | launch p =>
    obtain ⟨place, hbegin, rfl⟩ | ⟨_, _, -, hnext⟩ := Progress.andThen_eq_going h
    · cases hhand
    · cases hnext
  | openClient | askVersion | closeClient =>
    simp only [beginCall, beginExchange] at h
    split at h <;> cases h
    cases hhand
  | reveal | updateSettings | settings | available | executable => cases h

/-- How a call comes to a runtime. -/
theorem call_hand (h : w.call job = .going v job') (hhand : job'.hand? = some hand) :
    w.Obtains job.hand? v hand := by
  cases job with
  | fresh command => exact beginCall_hand h hhand
  | phased place next =>
    obtain ⟨place', hphase, rfl⟩ | ⟨u, -, hrun⟩ := call_phased_going h
    · cases place with
      | stopping p =>
        obtain ⟨_, -, rfl⟩ | ⟨_, _, -, hnext⟩ := Progress.andThen_eq_going hphase
        · cases hhand
        · cases hnext
      | starting p =>
        obtain ⟨_, hstart, rfl⟩ | ⟨_, _, -, hnext⟩ := Progress.andThen_eq_going hphase
        · exact start_hand hstart hhand
        · cases hnext
    · exact runPhases_hand hrun hhand
  | debugging place =>
    obtain ⟨_, hdebug, rfl⟩ | ⟨_, _, -, hnext⟩ := Progress.andThen_eq_going h
    · exact debug_hand hdebug hhand
    · cases hnext
  | endingDebug => cases h
  | launching p place =>
    obtain ⟨_, -, rfl⟩ | ⟨_, _, -, hnext⟩ := Progress.andThen_eq_going h
    · cases hhand
    · cases hnext
  | opening c place =>
    obtain ⟨_, -, rfl⟩ | ⟨_, r, -, hnext⟩ := Progress.andThen_eq_going h
    · cases hhand
    · unfold endOpening at hnext
      split at hnext <;> cases hnext
  | asking c request =>
    obtain ⟨_, -, rfl⟩ | ⟨_, _, -, hnext⟩ := Progress.andThen_eq_going h
    · cases hhand
    · cases hnext
  | closing c place =>
    obtain ⟨_, -, rfl⟩ | ⟨_, _, -, hnext⟩ := Progress.andThen_eq_going h
    · cases hhand
    · cases hnext

/-- The file system's work for a call gives it no runtime. -/
theorem performJob_hand (h : w.performJob job = some (v, job')) : job'.hand? = job.hand? := by
  cases performJob_prepares h <;> rfl

end Calls

/-! ## Sessions -/

section Lives

variable {start : World} {ms : List Move} {known : Settings → Prop} {m : Move}

/-- The runtime is selected for settings that are known. -/
def Selected (known : Settings → Prop) (w : World) (exe : Executable) : Prop :=
  ∃ s name, known s ∧ (w.choice s name).value = some exe

/-- What a call has in hand is known, was selected for known settings, or is a process for what
was. -/
def Backs (known : Settings → Prop) (w : World) : Hand → Prop
  | .settings s => known s
  | .runtime exe => w.Selected known exe
  | .process exe p => w.Selected known exe ∧ ∃ q, w.processes[p]? = some q ∧ q.exe = exe

/-- The session and its calls have nothing but selected runtimes. -/
structure Supplied (known : Settings → Prop) (w : World) : Prop where
  session : ∀ exe, w.session.executable = some exe → w.Selected known exe
  calls : ∀ (i : Nat) (job : Job) (hand : Hand), w.calls[i]? = some (.active job) →
    job.hand? = some hand → w.Backs known hand

/-- What is selected depends on the configuration only. -/
theorem Selected.of_config {exe : Executable} (hconfig : v.config = w.config)
    (h : w.Selected known exe) : v.Selected known exe := by
  obtain ⟨s, name, hs, hchoice⟩ := h
  refine ⟨s, name, hs, ?_⟩
  unfold choice finder at hchoice ⊢
  rw [hconfig]
  exact hchoice

/-- Processes keep their runtimes, so what a call has in hand stays backed. -/
theorem Backs.later (hconfig : v.config = w.config) (hgrow : w.outline.exes <+: v.outline.exes)
    (h : w.Backs known hand) : v.Backs known hand := by
  cases hand with
  | settings s => exact h
  | runtime exe => exact h.of_config hconfig
  | process exe p =>
    obtain ⟨hselected, q, hq, hexe⟩ := h
    have hw : w.outline.exes[p]? = some exe := by
      rw [Outline.exes, List.getElem?_map]
      exact Option.map_eq_some_iff.2 ⟨q, hq, hexe⟩
    obtain ⟨hlt, rfl⟩ := List.getElem?_eq_some_iff.1 hw
    have hv := List.prefix_iff_getElem?.1 hgrow p hlt
    rw [Outline.exes, List.getElem?_map] at hv
    exact ⟨hselected.of_config hconfig, Option.map_eq_some_iff.1 hv⟩

/-- What a piece of a call takes is backed if what the call and the session have is. -/
theorem Obtains.backs {before : Option Hand} (h : w.Obtains before v hand) (hv : known v.settings)
    (hw : known w.settings) (hconfig : v.config = w.config)
    (hgrow : w.outline.exes <+: v.outline.exes) (hsupplied : w.Supplied known)
    (hbefore : ∀ hand, before = some hand → w.Backs known hand) : v.Backs known hand := by
  cases h with
  | kept h => exact (hbefore _ h).later hconfig hgrow
  | settings => exact hv
  | @selected s name exe hs h =>
    have hknown : known s := by
      rcases hs with hs | rfl
      · exact hbefore _ hs
      · exact hw
    exact Selected.of_config hconfig ⟨s, name, hknown, h⟩
  | present h => exact (hsupplied.session _ h).of_config hconfig
  | made h hq hexe => exact ⟨Selected.of_config hconfig (hbefore _ h), _, hq, hexe⟩

/-- Every move leaves the session and its calls with selected runtimes. -/
theorem Supplied.step (hsupplied : w.Supplied known) (h : w.move? m = some v)
    (hm : m.ofSession = true) (hsound : Sound w.outline) (hw : known w.settings)
    (hv : known v.settings) : v.Supplied known := by
  obtain ⟨hconfig, hexecutable⟩ := (move?_change h hm).executable
  change v.config = w.config at hconfig
  have hgrow := (move?_leads h hm hsound.tenure.inside hsound.present).exes_grow
  refine ⟨fun exe hexe => ?_, fun i job hand hi hhand => ?_⟩
  · rcases hexecutable with hsame | ⟨i, job, chosen, hi, hhand, hchosen⟩
    · exact (hsupplied.session exe (hsame.symm.trans hexe)).of_config hconfig
    · obtain rfl : exe = chosen := Option.some.inj (hexe.symm.trans hchosen)
      exact Selected.of_config hconfig (hsupplied.calls i job _ hi hhand)
  · rcases job_of_move? h hm hi with hi | ⟨command, -, rfl, -⟩ | ⟨job₀, hi₀, hcase⟩
    · exact (hsupplied.calls i job hand hi hhand).later hconfig hgrow
    · cases hhand
    · have hbefore := fun hand => hsupplied.calls i job₀ hand hi₀
      rcases hcase with ⟨u, rfl, hcall⟩ | ⟨u, hperform⟩
      · -- The piece leads to the world itself, but for the call's entry.
        have hmoved : v = u.setCall i (.active job) := by
          change w.call? i = some v at h
          rw [call?, hi₀] at h
          simp only [hcall, Option.some.injEq] at h
          exact h.symm
        subst hmoved
        exact (call_hand hcall hhand).backs hv hw hconfig hgrow hsupplied hbefore
      · exact (hbefore hand ((performJob_hand hperform).symm.trans hhand)).later hconfig hgrow

/-- The session has had the settings. -/
def Knew (start : World) (ms : List Move) (s : Settings) : Prop :=
  ∃ n v, start.Moment ms n v ∧ v.settings = s

/-- **Runtimes of sessions.**  At every moment of its life a session has nothing but runtimes that
were selected for settings that it has had. -/
theorem Life.supplied (h : Life start ms w) : w.Supplied (start.Knew ms) := by
  have hmoment : ∀ n v, start.Moment ms n v → v.Supplied (start.Knew ms) := by
    intro n
    induction n with
    | zero =>
      rintro v ⟨-, hplay⟩
      cases hplay
      refine ⟨fun exe hexe => ?_, fun i job hand hi _ => ?_⟩
      · rw [h.fresh.session] at hexe
        cases hexe
      · rw [h.fresh.calls] at hi
        cases hi
    | succ n ih =>
      intro v hv
      obtain ⟨u, hu⟩ := hv.pred
      obtain ⟨m, hm, hmove⟩ := hu.step hv
      exact (ih u hu).step hmove (h.ofSession m (List.mem_of_getElem? hm)) (h.moment hu).sound
        ⟨n, u, hu, rfl⟩ ⟨n + 1, v, hv, rfl⟩
  exact hmoment _ _ h.last

end Lives

/-! ## Launches -/

section Launches

variable {p : Nat}

/-- The program that the launcher has just been asked to run. -/
def lastProgram? (w : World) : Option Path := w.log.getLast?.bind Event.program?

/-- A launch starts the program of its process. -/
theorem beginLaunch_program {place : Launching} (h : w.beginLaunch p = .going v place) :
    ∃ q, v.processes[p]? = some q ∧ v.lastProgram? = some q.exe.path := by
  unfold beginLaunch at h
  split at h
  · cases h
  · next q hq =>
    split at h
    · cases h
    · cases h
      refine ⟨q, ?_, ?_⟩
      · unfold deleteSessionFile
        split <;> exact hq
      · exact congrArg (Option.bind · Event.program?) List.getLast?_concat

end Launches

section LaunchCalls

variable {start : World} {job job' : Job} {exe : Executable} {p : Nat} {ms : List Move}

/-- A call that launches its process asks for the program of that. -/
theorem call_program (hjob : job.due? = some (exe, p)) (h : w.call job = .going v job')
    (hjob' : job'.launching? = some (exe, p)) :
    ∃ q, v.processes[p]? = some q ∧ v.lastProgram? = some q.exe.path := by
  rcases Job.due?_cases hjob with ⟨a, next, rfl⟩ | rfl
  · obtain ⟨place', hphase, rfl⟩ | ⟨u, -, hrun⟩ := call_phased_going h
    · obtain ⟨place', hstart, rfl⟩ | ⟨_, _, -, hnext⟩ := Progress.andThen_eq_going hphase
      · simp only [World.start, adoptProcess] at hstart
        split at hstart
        · cases hstart
        · obtain ⟨l, hlaunch, rfl⟩ | ⟨_, _, -, hnext⟩ := Progress.andThen_eq_going hstart
          · exact beginLaunch_program hlaunch
          · have hnone : (Job.phased (.starting place') next).hand? = none := afterLaunch_hand hnext
            rw [Job.hand?_of_launching? hjob'] at hnone
            cases hnone
      · cases hnext
    · have hobtains : w.Obtains none v (.process exe p) :=
        runPhases_hand hrun (Job.hand?_of_launching? hjob')
      cases hobtains with
      | kept h => cases h
      | made h => cases h
  · obtain ⟨place', hdebug, rfl⟩ | ⟨_, _, -, hnext⟩ := Progress.andThen_eq_going h
    · obtain ⟨l, hlaunch, rfl⟩ | ⟨_, _, -, hnext⟩ := Progress.andThen_eq_going hdebug
      · exact beginLaunch_program hlaunch
      · have hnone : (Job.debugging place').hand? = none := afterDebugLaunch_hand hnext
        rw [Job.hand?_of_launching? hjob'] at hnone
        cases hnone
    · cases hnext

/-- A call that is still under way after a piece goes on from where it was. -/
theorem call_of_call? {i : Nat} (h : w.call? i = some v)
    (hi : w.calls[i]? = some (.active job)) (hv : v.calls[i]? = some (.active job')) :
    ∃ u, w.call job = .going u job' := by
  obtain ⟨job₀, hi₀, hcase⟩ := call?_cases h
  obtain rfl : job = job₀ := by simpa [hi] using hi₀
  have hcalls := w.call_calls job
  obtain ⟨u, job₁, hcall, rfl⟩ | ⟨u, r, hcall, rfl⟩ := hcase
  · rw [hcall] at hcalls
    have hset : (u.calls.set i (.active job₁))[i]? = _ := getElem?_set_at (hcalls ▸ hi) _
    cases hset.symm.trans hv
    exact ⟨u, hcall⟩
  · rw [hcall] at hcalls
    have hset : (u.calls.set i (.over r))[i]? = _ := getElem?_set_at (hcalls ▸ hi) _
    cases hset.symm.trans hv

/-- **Launches of sessions.**  What a call is about to launch was selected for settings that the
session has had, and the program that the launcher is then asked for is the selected one. -/
theorem Life.launches (h : Life start ms w) {i : Nat} (hi : w.calls[i]? = some (.active job))
    (hjob : job.due? = some (exe, p)) :
    w.Selected (start.Knew ms) exe ∧
      ∀ v job', w.call job = .going v job' → job'.launching? = some (exe, p) →
        v.lastProgram? = some exe.path := by
  have hbacked : w.Backs (start.Knew ms) (.process exe p) :=
    h.supplied.calls i job _ hi (Job.hand?_of_due? hjob)
  refine ⟨hbacked.1, fun v job' hcall hjob' => ?_⟩
  have hmove : w.move? (.run (.call i)) = some (v.setCall i (.active job')) := by
    simp only [move?, step?, call?, hi, hcall]
  have hgrow := (move?_leads hmove rfl h.sound.tenure.inside h.sound.present).exes_grow
  have hconfig := (move?_change hmove rfl).executable.1
  obtain ⟨-, q, hq, rfl⟩ := hbacked.later hconfig hgrow
  obtain ⟨q', hq', hprogram⟩ := call_program hjob hcall hjob'
  obtain rfl : q' = q := Option.some.inj (hq'.symm.trans hq)
  exact hprogram

end LaunchCalls

/-! ## Selected and started runtimes -/

/-- **Selected and started runtimes.**  Nothing is selected exactly if there is no runtime, and what
is selected was found or takes the place of what was.  Whatever a call of a session is about to
launch was selected for settings that the session has had, and the program that the launcher is
then asked for is the selected one. -/
theorem selected_started (w : World) :
    (∀ s name, (w.choice s name).value = none ↔ w.runtimes s = []) ∧
      (∀ s name exe, (w.choice s name).value = some exe → ∃ found, w.Found s name exe found) ∧
        ∀ (start : World) (ms : List Move) (i : Nat) (job : Job) (exe : Executable) (p : Nat),
          Life start ms w → w.calls[i]? = some (.active job) → job.due? = some (exe, p) →
            (∃ s name, start.Knew ms s ∧ (w.choice s name).value = some exe) ∧
              ∀ v job', w.call job = .going v job' → job'.launching? = some (exe, p) →
                v.lastProgram? = some exe.path :=
  ⟨w.choice_eq_none_iff, fun s name _ => w.choice_found s name,
    fun _ _ _ _ _ _ h hi hjob => h.launches hi hjob⟩

end World

/-- A Windows host of 64 bits that has nothing but the narrow Windows PowerShell. -/
def Trial.narrow : World :=
  { Trial.start with
    config :=
      { Trial.configuration with
        platform := ⟨.windows, true, true⟩
        environment := { Discovery.Environment.none with windowsFolder := some ⟨"/w"⟩ }
        probe :=
          ⟨fun p => p.text = "/w/SysWOW64/WindowsPowerShell/v1.0/powershell.exe", fun _ => false,
            fun _ => none⟩ } }

/-- A start, up to its launch. -/
def Trial.choosing : List Move := Trial.launching.take 6

namespace World

/-- The wide Windows PowerShell is selected and started there, which is no file. -/
theorem selected_started_trial :
    ∃ w exe found v job job', Trial.narrow.Life Trial.choosing w ∧ w.runtimes {} = [found] ∧
      w.config.probe.isFile found.path = true ∧ (w.finder {}).Narrows found exe ∧
      exe.path.text = "/w/System32/WindowsPowerShell/v1.0/powershell.exe" ∧
      w.config.probe.isFile exe.path = false ∧ (w.choice {} none).value = some exe ∧
      w.calls[0]? = some (.active job) ∧ job.due? = some (exe, 0) ∧
      (∃ s name, Trial.narrow.Knew Trial.choosing s ∧ (w.choice s name).value = some exe) ∧
      w.call job = .going v job' ∧ job'.launching? = some (exe, 0) ∧
      v.lastProgram? = some exe.path := by
  have hrun : (Trial.narrow.play? Trial.choosing).any (fun w =>
      (w.choice {} none).value.any fun exe =>
        exe.path.text == "/w/System32/WindowsPowerShell/v1.0/powershell.exe" &&
        !w.config.probe.isFile exe.path && (w.runtimes {}).length == 1 &&
        (w.calls[0]?.any fun c => c.job?.any fun job => decide (job.due? = some (exe, 0))) &&
        (w.call? 0).any fun v => v.calls[0]?.any fun c => c.job?.any fun job =>
          decide (job.launching? = some (exe, 0))) = true := by
    decide +kernel
  obtain ⟨w, hplay, hw⟩ := (Option.any_eq_true _ _).1 hrun
  obtain ⟨exe, hexe, hexe'⟩ := (Option.any_eq_true _ _).1 hw
  simp only [Bool.and_eq_true, beq_iff_eq, Bool.not_eq_true', Option.any_eq_true,
    decide_eq_true_eq] at hexe'
  obtain ⟨⟨⟨⟨htext, hfile⟩, hlength⟩, c, hc, job, hjob, hdue⟩, v', hv, c', hc', job', hjob',
    hlaunching⟩ := hexe'
  obtain rfl := Call.eq_of_job? hjob
  obtain rfl := Call.eq_of_job? hjob'
  have hlife : Trial.narrow.Life Trial.choosing w :=
    ⟨by constructor <;> rfl, List.all_eq_true.1 (by decide), hplay⟩
  obtain ⟨v, hcall⟩ := call_of_call? hv hc hc'
  obtain ⟨-, hfound, hstarted⟩ := selected_started w
  obtain ⟨found, hmem, -, hfoundFile, -, hgiven, -⟩ := hfound {} none exe hexe
  obtain ⟨hselected, hprogram⟩ := hstarted _ _ 0 job exe 0 hlife hc hdue
  obtain ⟨only, honly⟩ := List.length_eq_one_iff.1 hlength
  obtain rfl : found = only := List.mem_singleton.1 (honly ▸ hmem)
  refine ⟨w, exe, found, v, job, job', hlife, honly, hfoundFile, hgiven.resolve_left ?_, htext,
    hfile, hexe, hc, hdue, hselected, hcall, hlaunching, hprogram v job' hcall hlaunching⟩
  rintro rfl
  rw [hfoundFile] at hfile
  cases hfile

end World

end SessionHost
