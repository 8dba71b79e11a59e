import SessionHost.Proofs.Debug.Pieces
import SessionHost.Proofs.Disposal.Handling
import SessionHost.Proofs.Files.Contents

/-!
# What happens beside a launch

Between two pieces of a launch anything may happen: files are written and deleted, consoles answer
and end, the launch is called off, its process disposed of or launched once more, and time goes by.
Whatever it is, the process keeps what it was given, what was called off or disposed of stays so,
and neither new bytes in the session file nor an exit come from nowhere.

Main definitions:

- `ServerProcess.Later`: a process at a later time.
- `News`: what a launch waits for.
- `World.Meanwhile`: what happens beside a launch, with its news.

Main results:

- Theorems `World.launch_meanwhile`, `World.dispose_meanwhile`, `World.move?_meanwhile` and others:
  pieces of launches, disposals and the moves of the surroundings are of this kind.
-/

namespace SessionHost

open FileTree

/-- A process at a later time: what it was given stays, and so do its disposal and, up to it, its
console. -/
structure ServerProcess.Later (q q' : ServerProcess) : Prop where
  plan_eq : q'.plan = q.plan
  spec_eq : q'.spec = q.spec
  exe_eq : q'.exe = q.exe
  purpose_eq : q'.purpose = q.purpose
  reportsSlowness_eq : q'.reportsSlowness = q.reportsSlowness
  disposed : q.disposed = true → q'.disposed = true
  console : q.console.isSome = true → q'.console.isSome = true ∨ q'.disposed = true

namespace ServerProcess.Later

variable {q q' q'' : ServerProcess}

theorem refl (q : ServerProcess) : q.Later q := ⟨rfl, rfl, rfl, rfl, rfl, id, .inl⟩

/-- What is later than a later process is later. -/
theorem trans (h : q.Later q') (h' : q'.Later q'') : q.Later q'' where
  plan_eq := h'.plan_eq.trans h.plan_eq
  spec_eq := h'.spec_eq.trans h.spec_eq
  exe_eq := h'.exe_eq.trans h.exe_eq
  purpose_eq := h'.purpose_eq.trans h.purpose_eq
  reportsSlowness_eq := h'.reportsSlowness_eq.trans h.reportsSlowness_eq
  disposed hd := h'.disposed (h.disposed hd)
  console hc := by
    rcases h.console hc with hconsole | hdisposed
    · exact h'.console hconsole
    · exact .inr (h'.disposed hdisposed)

end ServerProcess.Later

/-- Something that a launch waits for. -/
inductive News where
  /-- The session file has new content. -/
  | wrote (bytes : List UInt8)
  /-- A console's exit has reached the process. -/
  | reported (exit : ConsoleExit)

/-- An exit of a process comes from a report, or from the disposal of one that has no console. -/
def ServerProcess.ExitFrom (n : Option News) (q q' : ServerProcess) : Prop :=
  ∀ e, q'.exit = some e →
    q.exit = some e ∨ n = some (.reported e) ∨
      (q.console = none ∧ q.disposed = false ∧ q'.disposed = true)

/-- The move is one of the surroundings: consoles that take what they are told, servers, runtimes,
files, time, or the holder. -/
def Move.ofSurroundings : Move → Bool
  | .heed _ => true
  | .answerConnection _ _ => true
  | .answerInquiry _ _ => true
  | .take _ _ => true
  | .send _ _ => true
  | .silence _ => true
  | .sever _ => true
  | .writeFile _ _ => true
  | .elapse _ => true
  | .changeStore _ => true
  | .letGo => true
  | _ => false

namespace World

variable {p p' c : Nat} {n : Option News} {w v u : World} {q q' : ServerProcess} {k : Console}

/-- What happens beside the pieces of a launch, with the news that it brings. -/
structure Meanwhile (p : Nat) (n : Option News) (w v : World) : Prop where
  process : ∀ {q}, w.processes[p]? = some q →
    ∃ q', v.processes[p]? = some q' ∧ q.Later q' ∧ q.ExitFrom n q'
  read : ∀ {q bytes}, w.processes[p]? = some q →
    v.files.read q.spec.sessionFile = .ok bytes →
      w.files.read q.spec.sessionFile = .ok bytes ∨ n = some (.wrote bytes)
  cancelled : ∀ {t}, w.isCancelled t = true → v.isCancelled t = true
  now_le : w.now ≤ v.now

namespace Meanwhile

/-- A change that leaves processes, files and time alone. -/
theorem of_eq (hp : v.processes = w.processes) (hf : v.files = w.files)
    (hc : v.cancelled = w.cancelled) (hn : w.now ≤ v.now) : Meanwhile p n w v where
  process hq := ⟨_, hp ▸ hq, .refl _, fun _ => .inl⟩
  read _ hr := .inl (hf ▸ hr)
  cancelled ht := by rwa [isCancelled, hc]
  now_le := hn

theorem refl (w : World) : Meanwhile p n w w := .of_eq rfl rfl rfl (Nat.le_refl _)

/-- Others may tell something. -/
theorem record (w : World) (e : Event) : Meanwhile p n w (w.record e) :=
  .of_eq rfl rfl rfl (Nat.le_refl _)

/-- What happens without news may stand in front of anything. -/
theorem trans (h : Meanwhile p none w v) (h' : Meanwhile p n v u) : Meanwhile p n w u where
  process hq := by
    obtain ⟨q', hq', hlater, hexit⟩ := h.process hq
    obtain ⟨q'', hq'', hlater', hexit'⟩ := h'.process hq'
    refine ⟨q'', hq'', hlater.trans hlater', fun e he => ?_⟩
    rcases hexit' e he with hold | hnews | ⟨hconsole, hstands, hdisposed⟩
    · rcases hexit e hold with holder | hnews | ⟨hconsole, hstands, hdisposed⟩
      · exact .inl holder
      · cases hnews
      · exact .inr (.inr ⟨hconsole, hstands, hlater'.disposed hdisposed⟩)
    · exact .inr (.inl hnews)
    · have hstood : ¬_ = true := fun hd =>
        Bool.false_ne_true (hstands.symm.trans (hlater.disposed hd))
      refine .inr (.inr ⟨?_, by simpa using hstood, hdisposed⟩)
      by_contra hsome
      rcases hlater.console (Option.isSome_iff_ne_none.2 hsome) with hkept | hgone
      · rw [hconsole] at hkept
        cases hkept
      · rw [hstands] at hgone
        cases hgone
  read hq hr := by
    obtain ⟨q', hq', hlater, -⟩ := h.process hq
    rcases h'.read hq' (by rwa [hlater.spec_eq]) with hread | hnews
    · rw [hlater.spec_eq] at hread
      rcases h.read hq hread with hread | hnews
      · exact .inl hread
      · cases hnews
    · exact .inr hnews
  cancelled ht := h'.cancelled (h.cancelled ht)
  now_le := Nat.le_trans h.now_le h'.now_le

/-- A process in a process's place. -/
theorem setProcess (hq : w.processes[p']? = some q) (hlater : q.Later q')
    (hexit : q.ExitFrom none q') : Meanwhile p n w (w.setProcess p' q') where
  process {x} hx := by
    by_cases hp : p = p'
    · subst hp
      obtain rfl : x = q := Option.some.inj (hx.symm.trans hq)
      refine ⟨q', getElem?_set_at hx q', hlater, fun e he => ?_⟩
      rcases hexit e he with hold | hnews | hdisposal
      · exact .inl hold
      · cases hnews
      · exact .inr (.inr hdisposal)
    · exact ⟨x, (List.getElem?_set_ne (Ne.symm hp)).trans hx, .refl _, fun _ => .inl⟩
  read _ hr := .inl hr
  cancelled := id
  now_le := Nat.le_refl _

end Meanwhile

/-! ## Session files -/

/-- What is read after a session file is deleted was there before. -/
theorem read_of_deleteSessionFile {path file : Path} {bytes : List UInt8}
    (h : (w.deleteSessionFile path).files.read file = .ok bytes) :
    w.files.read file = .ok bytes := by
  unfold deleteSessionFile at h
  split at h
  · next hdelete => exact read_of_delete hdelete h
  · exact h
  · exact h

/-- A deleted session file is not read. -/
theorem read_deleteSessionFile {path : Path} {bytes : List UInt8} :
    (w.deleteSessionFile path).files.read path ≠ .ok bytes := by
  intro h
  obtain ⟨t, ht⟩ := delete_of_read (read_of_deleteSessionFile h)
  unfold deleteSessionFile at h
  simp only [ht] at h
  rw [read_deleted ht] at h
  cases h

/-- Others may delete a session file, also the one that is waited for. -/
theorem deleteSessionFile_meanwhile (w : World) (path : Path) :
    Meanwhile p n w (w.deleteSessionFile path) where
  process hq := ⟨_, w.processes_deleteSessionFile path ▸ hq, .refl _, fun _ => .inl⟩
  read _ hr := .inl (read_of_deleteSessionFile hr)
  cancelled ht := by
    unfold deleteSessionFile
    split <;> exact ht
  now_le := by
    unfold deleteSessionFile
    split <;> exact Nat.le_refl _

/-! ## Consoles and disposals -/

/-- Others may tell a console something. -/
theorem tell_meanwhile (w : World) (c : Nat) (command : ConsoleCommand) :
    Meanwhile p n w (w.tell c command) := by
  unfold tell
  split
  · exact .refl w
  · simp only []
    split
    · exact .of_eq rfl rfl rfl (Nat.le_refl _)
    · exact .of_eq rfl rfl rfl (Nat.le_refl _)

/-- Others may tell a process something. -/
theorem tellProcess_meanwhile (w : World) (p' : Nat) (command : ConsoleCommand) :
    Meanwhile p n w (w.tellProcess p' command) := by
  unfold tellProcess
  split
  · exact w.tell_meanwhile _ command
  · exact .refl w

/-- Only the console learns of what a process is told. -/
theorem processes_tellProcess (w : World) (p' : Nat) (command : ConsoleCommand) :
    (w.tellProcess p' command).processes = w.processes := by
  unfold tellProcess
  split
  · exact w.processes_tell _ command
  · rfl

/-- Others may let go of a console. -/
theorem releaseConsole_meanwhile (w : World) (c : Nat) :
    Meanwhile p n w (w.releaseConsole c) := by
  unfold releaseConsole
  split
  · simp only []
    split
    · exact .of_eq rfl rfl rfl (Nat.le_refl _)
    · exact .of_eq rfl rfl rfl (Nat.le_refl _)
  · exact .refl w

/-- Others may call something off, also the launch itself. -/
theorem cancel_meanwhile (w : World) (t : Token) : Meanwhile p n w (w.cancel t) where
  process hq := ⟨_, hq, .refl _, fun _ => .inl⟩
  read _ hr := .inl hr
  cancelled ht := by
    simp only [isCancelled, cancel, decide_eq_true_eq, List.mem_append] at ht ⊢
    exact .inl ht
  now_le := Nat.le_refl _

/-- A disposal keeps what the process was given, and makes up an exit only if there is no console
that could report one. -/
theorem retired_later (hd : q.disposed = false) :
    q.Later q.retired ∧ q.ExitFrom none q.retired := by
  refine ⟨⟨rfl, rfl, rfl, rfl, rfl, fun _ => rfl, fun _ => .inr rfl⟩, fun e he => ?_⟩
  by_cases hconsole : q.console.isSome = true
  · simp only [ServerProcess.retired, hconsole, if_true] at he
    exact .inl he
  · exact .inr (.inr ⟨by simpa using hconsole, hd, rfl⟩)

/-- Others may dispose of a process, also of the one that is launched. -/
theorem dispose_meanwhile (w : World) (p' : Nat) : Meanwhile p n w (w.dispose p') := by
  unfold dispose
  split
  · exact .refl w
  · next q hq =>
    split
    · exact .refl w
    · next hstands =>
      obtain ⟨hlater, hexit⟩ := retired_later (by simpa using hstands)
      have hprocesses : ((w.deleteSessionFile q.spec.sessionFile).tellProcess p' .kill).processes =
          w.processes := by
        rw [processes_tellProcess, processes_deleteSessionFile]
      exact ((w.deleteSessionFile_meanwhile _).trans (tellProcess_meanwhile _ p' .kill)).trans
        (.setProcess (hprocesses ▸ hq) hlater hexit)

/-! ## Launches -/

/-- Another launch may ask for a console. -/
theorem askForConsole_meanwhile (w : World) (p' : Nat) (q : ServerProcess) :
    (w.askForConsole p' q).Ends (Meanwhile p n w) :=
  (w.deleteSessionFile_meanwhile q.spec.sessionFile).trans (.of_eq rfl rfl rfl (Nat.le_refl _))

/-- Another launch may begin, also of the same process. -/
theorem beginLaunch_meanwhile (w : World) (p' : Nat) :
    (w.beginLaunch p').Ends (Meanwhile p n w) := by
  unfold beginLaunch
  split
  · trivial
  · split
    · exact .refl w
    · exact w.askForConsole_meanwhile p' _

/-- Another launch may look again. -/
theorem lookAgain_meanwhile (w : World) (p' : Nat) (q : ServerProcess) (attempt : Nat) :
    (w.lookAgain p' q attempt).Ends (Meanwhile p n w) := by
  unfold lookAgain
  split
  · exact .refl w
  · split
    · exact .refl w
    · exact .refl w

/-- The console that a process has held before is let go of. -/
def withoutHeld (w : World) (q : ServerProcess) : World :=
  match q.console with
  | some previous => w.releaseConsole previous
  | none => w

theorem processes_withoutHeld (w : World) (q : ServerProcess) :
    (w.withoutHeld q).processes = w.processes := by
  unfold withoutHeld
  split
  · exact w.processes_releaseConsole _
  · rfl

/-- Letting go of the console held before brings no news. -/
theorem withoutHeld_meanwhile (w : World) (q : ServerProcess) :
    Meanwhile p none w (w.withoutHeld q) := by
  unfold withoutHeld
  split
  · exact w.releaseConsole_meanwhile _
  · exact .refl w

/-- A console of which the exit is awaited. -/
def withWatched (w : World) (c : Nat) : World :=
  match w.consoles[c]? with
  | some k => w.setConsole c { k with watched := true }
  | none => w

theorem processes_withWatched (w : World) (c : Nat) :
    (w.withWatched c).processes = w.processes := by
  unfold withWatched
  split <;> rfl

/-- Awaiting an exit brings no news. -/
theorem withWatched_meanwhile (w : World) (c : Nat) : Meanwhile p none w (w.withWatched c) := by
  unfold withWatched
  split
  · exact .of_eq rfl rfl rfl (Nat.le_refl _)
  · exact .refl w

/-- A console that is shown, if the process is to be seen from its start. -/
def withShown (w : World) (q : ServerProcess) (c : Nat) : World :=
  if q.spec.showOnStartup && !q.spec.startInBackground then w.tell c (.reveal true) else w

theorem processes_withShown (w : World) (q : ServerProcess) (c : Nat) :
    (w.withShown q c).processes = w.processes := by
  unfold withShown
  split
  · exact w.processes_tell c _
  · rfl

/-- Showing a console brings no news. -/
theorem withShown_meanwhile (w : World) (q : ServerProcess) (c : Nat) :
    Meanwhile p n w (w.withShown q c) := by
  unfold withShown
  split
  · exact w.tell_meanwhile c _
  · exact .refl w

/-- A console that is taken over: the process holds it, and the look for its session file begins. -/
theorem adoptConsole_looks (hq : w.processes[p]? = some q) (hd : q.disposed = false) (c : Nat)
    (number : Option Nat) :
    ∃ v, w.adoptConsole p q c number = v.lookAgain p (q.holding c number) 1 ∧
      v.processes[p]? = some (q.holding c number) ∧ ∀ p' n, Meanwhile p' n w v := by
  have hholds : q.Later (q.holding c number) ∧ q.ExitFrom none (q.holding c number) :=
    ⟨⟨rfl, rfl, rfl, rfl, rfl, id, fun _ => .inl rfl⟩, fun _ => .inl⟩
  have hq₁ : (w.withoutHeld q).processes[p]? = some q := by rw [processes_withoutHeld, hq]
  let w₂ := (w.withoutHeld q).setProcess p (q.holding c number)
  have hq₂ : w₂.processes[p]? = some (q.holding c number) := getElem?_set_at hq₁ _
  refine ⟨(w₂.withWatched c).withShown q c, ?_, ?_, fun p' n => ?_⟩
  · rw [adoptConsole, if_neg (by simp [hd])]
    rfl
  · rw [processes_withShown, processes_withWatched, hq₂]
  · have hset : Meanwhile p' none (w.withoutHeld q) w₂ := .setProcess hq₁ hholds.1 hholds.2
    exact (((w.withoutHeld_meanwhile q).trans hset).trans (w₂.withWatched_meanwhile c)).trans
      ((w₂.withWatched c).withShown_meanwhile q c)

/-- Another launch may take its console over, also for the same process. -/
theorem adoptConsole_meanwhile (hq : w.processes[p']? = some q) (c : Nat) (number : Option Nat) :
    (w.adoptConsole p' q c number).Ends (Meanwhile p n w) := by
  cases hd : q.disposed with
  | true =>
    rw [adoptConsole, if_pos hd]
    exact w.tell_meanwhile c .kill
  | false =>
    obtain ⟨v, heq, -, hv⟩ := adoptConsole_looks hq hd c number
    rw [heq]
    have hlook := v.lookAgain_meanwhile (p := p) (n := n) p' (q.holding c number) 1
    cases hpiece : v.lookAgain p' (q.holding c number) 1 with
    | blocked => trivial
    | going x l =>
      rw [hpiece] at hlook
      exact (hv p none).trans hlook
    | finished x o =>
      rw [hpiece] at hlook
      exact (hv p none).trans hlook

/-- Another launch may tell of its slow start. -/
theorem warnSlow_meanwhile (w : World) (p' : Nat) (q : ServerProcess) (attempt : Nat) :
    Meanwhile p n w (w.warnSlow p' q attempt) := by
  unfold warnSlow
  simp only []
  split
  · exact (Meanwhile.record w _).trans (.record _ _)
  · exact .record w _

/-- Another launch may go on without a file. -/
theorem withoutFile_meanwhile (w : World) (p' : Nat) (q : ServerProcess) (attempt : Nat) :
    (w.withoutFile p' q attempt).Ends (Meanwhile p n w) := by
  unfold withoutFile
  split
  · exact .refl w
  · simp only []
    split
    · exact w.warnSlow_meanwhile p' q attempt
    · exact .refl w

/-- Another launch may go on after its look. -/
theorem afterLook_meanwhile (w : World) (p' : Nat) (q : ServerProcess) (attempt : Nat)
    (content : Except ErrorKind (List UInt8)) :
    (w.afterLook p' q attempt content).Ends (Meanwhile p n w) := by
  unfold afterLook
  simp only []
  split
  · exact w.withoutFile_meanwhile p' q attempt
  · exact .refl w
  · split
    · exact .refl w
    · exact w.deleteSessionFile_meanwhile _

/-- A piece of any launch brings no news to a launch of the same process or of another one. -/
theorem launch_meanwhile (w : World) (p' : Nat) (l : Launching) :
    (w.launch p' l).Ends (Meanwhile p n w) := by
  unfold launch
  split
  · trivial
  · next q hq =>
    cases l with
    | answer c =>
      simp only []
      split
      · trivial
      · exact .refl w
      · exact adoptConsole_meanwhile hq c _
    | file attempt => trivial
    | turn attempt content => exact w.afterLook_meanwhile p' q attempt content
    | interval attempt wake =>
      simp only []
      split
      · exact .refl w
      · split
        · exact w.lookAgain_meanwhile p' q (attempt + 1)
        · trivial
    | woken attempt => exact w.lookAgain_meanwhile p' q (attempt + 1)

/-! ## News -/

/-- An exit reaches the process of the console that has ended. -/
theorem passOn?_meanwhile (h : w.passOn? c = some v) :
    ∃ k e, w.consoles[c]? = some k ∧ k.ending = some e ∧
      Meanwhile p (if k.owner = p then some (.reported e.exit) else none) w v := by
  obtain ⟨k, q, e, hk, hq, he, -, -, rfl⟩ := passOn?_cases h
  refine ⟨k, e, hk, he, fun {x} hx => ?_, fun _ hr => .inl hr, id, Nat.le_refl _⟩
  by_cases hp : k.owner = p
  · rw [if_pos hp]
    subst hp
    obtain rfl : x = q := Option.some.inj (hx.symm.trans hq)
    refine ⟨_, getElem?_set_at hx _, ⟨rfl, rfl, rfl, rfl, rfl, id, .inl⟩, fun exit hexit => ?_⟩
    cases hexit
    exact .inr (.inl rfl)
  · exact ⟨x, (List.getElem?_set_ne hp).trans hx, .refl _, fun _ => .inl⟩

/-- The launcher may answer, also for this launch. -/
theorem answerLaunch?_meanwhile {answer : LaunchAnswer} (h : w.answerLaunch? c answer = some v) :
    Meanwhile p n w v := by
  cases moves_of_move? (m := .answerLaunch c answer) h
  exact .of_eq rfl rfl rfl (Nat.le_refl _)

/-- A console may end; nobody is told of it yet. -/
theorem endConsole?_meanwhile {ending : Ending} (h : w.endConsole? c ending = some v) :
    Meanwhile p n w v := by
  cases moves_of_move? (m := .endConsole c ending) h
  exact .of_eq rfl rfl rfl (Nat.le_refl _)

/-- A file that somebody writes. -/
theorem writeFile_meanwhile {path : Path} {bytes : List UInt8}
    (h : w.move? (.writeFile path bytes) = some v) : Meanwhile p (some (.wrote bytes)) w v := by
  cases moves_of_move? h with
  | writeFile hwrite =>
    exact {
      process := fun hq => ⟨_, hq, .refl _, fun _ => .inl⟩
      read := fun _ hr => (read_of_write hwrite hr).imp id fun heq => by rw [heq]
      cancelled := id
      now_le := Nat.le_refl _ }

/-- The surroundings bring no news, files apart. -/
theorem move?_meanwhile {m : Move} (hm : m.ofSurroundings = true)
    (hfile : ∀ path bytes, m ≠ .writeFile path bytes) (h : w.move? m = some v) :
    Meanwhile p n w v := by
  cases moves_of_move? h with
  | heed | answerConnection | answerInquiry | take | send | silence | sever | changeStore
  | letGo =>
    exact .of_eq rfl rfl rfl (Nat.le_refl _)
  | elapse nanos => exact .of_eq rfl rfl rfl (Nat.le_add_right _ _)
  | writeFile => exact absurd rfl (hfile _ _)
  | run | perform | ask | answerLaunch | endConsole | dissolve => cases hm

end World

end SessionHost
