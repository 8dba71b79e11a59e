import SessionHost.Proofs.Lifecycle.Dialogue

/-!
# Chores

Most of the work of a session is done on processes, consoles and files, and on questions to
runtimes; what is told along with it is neither news about the status nor a suggestion to restart.
Such work leaves everything else in the world as it is, whatever it is that one looks at.

Main definitions:

- `Event.isAside`: events that are neither news nor suggestions.
- `World.Chore`: work of this kind leads from one world to the other.

Main results:

- Theorems `World.chore_tell`, `World.chore_dispose` and others: what is done to consoles,
  processes and files is a chore.
- Theorem `World.launch_chore`: so is every piece of a launch.
- Theorems `World.afterLaunch_chore`, `World.afterDebugLaunch_chore`: so is what a start and a
  debug session do with the outcome.
-/

namespace SessionHost

/-- The event neither tells how the status moves nor suggests a restart. -/
def Event.isAside : Event → Bool
  | .statusChanged _ _ => false
  | .started _ => false
  | .failed _ _ => false
  | .unexpectedExit _ _ => false
  | .restartSuggested _ => false
  | _ => true

namespace World

/-- Work on processes, consoles, files and questions, and what is told along with it. -/
def Chore (w v : World) : Prop :=
  ∃ processes consoles posts inquiries files events,
    (∀ e ∈ events, Event.isAside e = true) ∧
      v = { w with processes, consoles, posts, inquiries, files, log := w.log ++ events }

/-- Work that nobody is told about. -/
theorem Chore.silent (w : World) (processes : List ServerProcess) (consoles : List Console)
    (posts : List Post) (inquiries : List Inquiry) (files : FileTree) :
    w.Chore { w with processes, consoles, posts, inquiries, files } :=
  ⟨_, _, _, _, _, [], fun _ he => (List.not_mem_nil he).elim, by rw [List.append_nil]⟩

theorem Chore.refl (w : World) : w.Chore w :=
  .silent w _ _ _ _ _

/-- A chore after a chore is a chore. -/
theorem Chore.trans {w v u : World} (h : w.Chore v) (h' : v.Chore u) : w.Chore u := by
  obtain ⟨_, _, _, _, _, es, hes, rfl⟩ := h
  obtain ⟨_, _, _, _, _, fs, hfs, rfl⟩ := h'
  refine ⟨_, _, _, _, _, es ++ fs, fun e he => ?_, by rw [List.append_assoc]⟩
  rcases List.mem_append.1 he with he | he
  · exact hes e he
  · exact hfs e he

variable (w : World)

/-! ## What is told -/

/-- An event told aside is a chore. -/
theorem chore_record {e : Event} (h : e.isAside = true) : w.Chore (w.record e) :=
  ⟨_, _, _, _, _, [e], List.forall_mem_singleton.2 h, rfl⟩

/-- A warning is a chore. -/
theorem chore_warn (topic : Topic) (text : String) : w.Chore (w.warn topic text) :=
  w.chore_record rfl

/-- What a search warns of is told, one warning after the other. -/
theorem chore_learn {α : Type} (t : Discovery.Traced α) : w.Chore (w.learn t).1 := by
  have hfold : ∀ (texts : List String) (v : World),
      v.Chore (texts.foldl (fun v text => v.warn .discovery text) v) := by
    intro texts
    induction texts with
    | nil => exact .refl
    | cons text rest ih => exact fun v => (v.chore_warn .discovery text).trans (ih _)
  exact hfold t.warnings w

/-- A name is saved with an event for it, and a warning when that fails. -/
theorem chore_persistDefault (name : String) : w.Chore (w.persistDefault name) := by
  unfold persistDefault
  split
  · exact .refl w
  · exact w.chore_record rfl
  · exact (w.chore_record rfl).trans (chore_warn _ .session _)

/-! ## Processes, consoles, files and questions -/

theorem chore_setProcess (i : Nat) (p : ServerProcess) : w.Chore (w.setProcess i p) :=
  .silent w _ _ _ _ _

theorem chore_setConsole (i : Nat) (c : Console) : w.Chore (w.setConsole i c) :=
  .silent w _ _ _ _ _

/-- A command on its way to a console is nothing that the session keeps. -/
theorem chore_post (c : Nat) (command : Option ConsoleCommand) : w.Chore (w.post c command) :=
  .silent w _ _ _ _ _

/-- A console that takes what it is told is nobody else's business. -/
theorem chore_heed (posts : List Post) (post : Post) :
    w.Chore ({ w with posts }.record post.event) := by
  refine Chore.trans (.silent w _ _ posts _ _) (chore_record _ ?_)
  obtain ⟨c, command⟩ := post
  cases command <;> rfl

theorem chore_deleteSessionFile (p : Path) : w.Chore (w.deleteSessionFile p) := by
  unfold deleteSessionFile
  split
  · exact .silent w _ _ _ _ _
  · exact .refl w
  · exact w.chore_warn _ _

theorem chore_makeFolder : w.Chore w.makeFolder.1 := by
  unfold makeFolder
  split
  · exact .silent w _ _ _ _ _
  · exact .refl w

/-- Whether a console listens or not, telling it something is a chore. -/
theorem chore_tell (c : Nat) (command : ConsoleCommand) : w.Chore (w.tell c command) := by
  unfold tell
  split
  · exact .refl w
  · rename_i k _
    have hset := w.chore_setConsole c (k.told command)
    simp only []
    split
    · exact hset.trans (chore_post _ c _)
    · exact hset

theorem chore_tellProcess (p : Nat) (command : ConsoleCommand) :
    w.Chore (w.tellProcess p command) := by
  unfold tellProcess
  split
  · exact w.chore_tell _ command
  · exact .refl w

/-- A console that nobody holds any longer is told to end. -/
theorem chore_releaseConsole (c : Nat) : w.Chore (w.releaseConsole c) := by
  unfold releaseConsole
  split
  · rename_i k _
    have hset := w.chore_setConsole c { k with released := true }
    simp only []
    split
    · exact hset.trans (chore_post _ c none)
    · exact hset
  · exact .refl w

/-- Disposing of a process tells its console and deletes its session file. -/
theorem chore_dispose (p : Nat) : w.Chore (w.dispose p) := by
  unfold dispose
  split
  · exact .refl w
  · rename_i q _
    split
    · exact .refl w
    · exact ((w.chore_deleteSessionFile _).trans (chore_tellProcess _ p .kill)).trans
        (chore_setProcess _ p q.retired)

/-- Disposing of a process that may not be there is a chore. -/
theorem chore_disposeAny (p : Option Nat) : w.Chore (w.disposeAny p) := by
  cases p with
  | none => exact .refl w
  | some p => exact w.chore_dispose p

/-- A question to a runtime is a chore. -/
theorem chore_inquire (exe : Path) : w.Chore (w.inquire exe).1 :=
  Chore.trans (.silent w _ _ _ _ _) (chore_record _ rfl)

/-- A session file that was not written is warned of. -/
theorem chore_diagnosis (version : Option String) : w.Chore (w.diagnosis version).1 :=
  w.chore_warn .session _

/-! ## Launches -/

/-- A launch that looks again, or gives up, does nothing before that. -/
theorem lookAgain_chore (p : Nat) (q : ServerProcess) (attempt : Nat) :
    (w.lookAgain p q attempt).Ends w.Chore := by
  unfold lookAgain
  split
  · exact .refl w
  · split <;> exact .refl w

/-- A console that comes is taken over, or told to end if its process is disposed. -/
theorem adoptConsole_chore (p : Nat) (q : ServerProcess) (c : Nat) (n : Option Nat) :
    (w.adoptConsole p q c n).Ends w.Chore := by
  unfold adoptConsole
  split
  · exact w.chore_tell c .kill
  · simp only []
    -- Whatever is done with the console, the look that follows changes nothing more.
    have hend {v : World} (hv : w.Chore v) :
        (v.lookAgain p (q.holding c n) 1).Ends w.Chore :=
      (v.lookAgain_chore p (q.holding c n) 1).imp fun _ => hv.trans
    have hreveal {v : World} (hv : w.Chore v) :
        w.Chore (if (q.holding c n).spec.showOnStartup && !(q.holding c n).spec.startInBackground
          then v.tell c (.reveal true) else v) := by
      split
      · exact hv.trans (v.chore_tell c _)
      · exact hv
    have hhold {v : World} (hv : w.Chore v) : w.Chore (v.setProcess p (q.holding c n)) :=
      hv.trans (v.chore_setProcess p _)
    refine hend (hreveal ?_)
    split
    · refine Chore.trans (hhold ?_) (chore_setConsole _ c _)
      split
      · exact w.chore_releaseConsole _
      · exact .refl w
    · refine hhold ?_
      split
      · exact w.chore_releaseConsole _
      · exact .refl w

/-- A slow start is told about. -/
theorem chore_warnSlow (p : Nat) (q : ServerProcess) (attempt : Nat) :
    w.Chore (w.warnSlow p q attempt) := by
  unfold warnSlow
  simp only []
  split
  · exact (w.chore_warn .process _).trans (chore_record _ rfl)
  · exact w.chore_warn .process _

/-- A look tells of a slow start at most, and deletes a file that was read. -/
theorem afterLook_chore (p : Nat) (q : ServerProcess) (attempt : Nat)
    (content : Except ErrorKind (List UInt8)) :
    (w.afterLook p q attempt content).Ends w.Chore := by
  unfold afterLook
  simp only []
  split
  · unfold withoutFile
    split
    · exact .refl w
    · simp only [Progress.Ends]
      split
      · exact w.chore_warnSlow p q attempt
      · exact .refl w
  · exact .refl w
  · split
    · exact .refl w
    · exact w.chore_deleteSessionFile _

/-- A launch begins with chores. -/
theorem beginLaunch_chore (p : Nat) : (w.beginLaunch p).Ends w.Chore := by
  unfold beginLaunch askForConsole
  split
  · trivial
  · split
    · exact .refl w
    · exact ((w.chore_deleteSessionFile _).trans (.silent _ _ _ _ _ _)).trans
        (chore_record _ rfl)

/-- Every piece of a launch does chores only. -/
theorem launch_chore (p : Nat) (place : Launching) : (w.launch p place).Ends w.Chore := by
  unfold launch
  split
  · trivial
  · rename_i q _
    cases place with
    | answer c =>
      simp only []
      split
      · trivial
      · exact .refl w
      · exact w.adoptConsole_chore p q c _
    | file attempt => trivial
    | turn attempt content => exact w.afterLook_chore p q attempt content
    | interval attempt wake =>
      simp only []
      split
      · exact .refl w
      · split
        · exact w.lookAgain_chore p q (attempt + 1)
        · trivial
    | woken attempt => exact w.lookAgain_chore p q (attempt + 1)

/-! ## Around launches -/

/-- A wait for the status warns at most, when it is given up. -/
theorem wait_chore (place : Wait) : (w.wait place).Ends w.Chore := by
  unfold wait look
  split
  · split
    · exact w.chore_warn .session _
    · split <;> exact .refl w
  · trivial

/-- A start that fails changes nothing yet. -/
theorem failStart_chore (a : Attempt) (failure : SessionFailure) :
    (w.failStart a failure).Ends w.Chore := by
  unfold failStart
  split <;> exact .refl w

/-- What a search has found out is told before the choice. -/
theorem chooseRuntime_chore (a : Attempt) (name : Option String) :
    (w.chooseRuntime a name).Ends w.Chore := by
  have hlearn := w.chore_learn (w.choice a.settings name)
  unfold chooseRuntime
  generalize w.learn (w.choice a.settings name) = t at hlearn ⊢
  obtain ⟨v, exe⟩ := t
  cases exe with
  | none => exact (v.failStart_chore a _).imp fun _ => hlearn.trans
  | some exe => exact hlearn.trans (v.chore_record rfl)

/-- What a start does with an outcome is at most a question to the runtime. -/
theorem afterLaunch_chore (a : Attempt) (exe : Executable) (outcome : LaunchOutcome) :
    (w.afterLaunch a exe outcome).Ends w.Chore := by
  unfold afterLaunch
  split
  · exact .refl w
  · exact .refl w
  · exact w.failStart_chore a _
  · split
    · exact w.chore_inquire exe.path
    · exact w.failStart_chore a _

/-- A version may deserve a warning. -/
theorem afterVersion_chore (a : Attempt) (answer : Except RequestFailure RuntimeDetails) :
    (w.afterVersion a answer).Ends w.Chore := by
  unfold afterVersion
  split
  · simp only [Progress.Ends]
    split
    · exact w.chore_warn .session _
    · exact .refl w
  · exact w.failStart_chore a _
  · exact w.failStart_chore a _

/-- Debug sessions choose by chores, too. -/
theorem chooseForDebug_chore (s : Settings) (name : Option String) :
    (w.chooseForDebug s name).Ends w.Chore := by
  have hlearn := w.chore_learn (w.choice s name)
  unfold chooseForDebug
  generalize w.learn (w.choice s name) = t at hlearn ⊢
  obtain ⟨v, exe⟩ := t
  cases exe <;> exact hlearn

/-- What a debug session does with an outcome: a question, or a disposal. -/
theorem afterDebugLaunch_chore (exe : Executable) (p : Nat) (outcome : LaunchOutcome) :
    (w.afterDebugLaunch exe p outcome).Ends w.Chore := by
  unfold afterDebugLaunch
  split
  · exact .refl w
  · exact .refl w
  · exact w.chore_dispose p
  · split
    · exact w.chore_inquire exe.path
    · exact w.chore_dispose p

end World

end SessionHost
