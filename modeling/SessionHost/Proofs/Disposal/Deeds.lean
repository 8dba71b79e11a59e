import SessionHost.Proofs.Ledger.Postings
import SessionHost.Proofs.Lifecycle.Moves

/-!
# Deeds around a process

A process is launched by one call.  While the launch waits, runs or is over, anybody may dispose
of the process, press a key or ask for its console to be shown, as often as they like; its console
ends when it pleases, and everything else goes on beside it.

Main definitions:

- `World.requests`: what was sent to a console, kills apart.
- `World.Beside`: a change that leaves a process alone.
- `Deed`, `World.deed?`: one thing that happens to a process, and what it leads to.
- `World.Sequel`: deeds one after the other, and other things beside them.

Main results:

- Theorem `World.heed_beside`: a console that takes what it is told leaves every process alone.
- Theorem `World.launch_beside`: so does a launch that looks for its session file.
-/

namespace SessionHost

/-! ## Requests -/

/-- The request that an event carries to a console: anything but a kill. -/
def Event.request? (c : Nat) : Event → Option ConsoleCommand
  | .commanded c' command => if c' = c ∧ command ≠ .kill then some command else none
  | _ => none

/-- A command for another console asks nothing of this one. -/
theorem Post.request?_of_ne {c : Nat} {post : Post} (h : post.console ≠ c) :
    post.event.request? c = none := by
  obtain ⟨c', command⟩ := post
  cases command with
  | none => rfl
  | some command => exact if_neg fun hc => h hc.1

namespace World

variable {p i : Nat} {w v u : World}

/-- The requests that were sent to a console: those that it has taken, and those that are on their
way. -/
def requests (w : World) (c : Nat) : List ConsoleCommand :=
  w.log.filterMap (Event.request? c) ++ w.posts.filterMap fun post => post.event.request? c

/-- What is asked of a console is read off the log and the posts. -/
theorem requests_congr (hl : v.log = w.log) (hp : v.posts = w.posts) (c : Nat) :
    v.requests c = w.requests c := by
  rw [requests, requests, hl, hp]

/-- Other events ask nothing of a console. -/
theorem requests_record {e : Event} {c : Nat} (h : e.request? c = none) :
    (w.record e).requests c = w.requests c := by
  simp [requests, record, h]

/-- Other commands ask nothing of a console. -/
theorem requests_post {c : Nat} (post : Post) (h : post.event.request? c = none) :
    (w.post post.console post.command).requests c = w.requests c := by
  simp [requests, World.post, h]

/-- A request is the same before and after its console takes it. -/
theorem requests_heed {c : Nat} {post : Post}
    (h : w.posts.find? (·.console = c) = some post) (d : Nat) :
    ({ w with posts := w.posts.eraseP (·.console = c) }.record post.event).requests d =
      w.requests d := by
  obtain ⟨hpost, before, after, hposts, hbefore⟩ := List.find?_eq_some_iff_append.1 h
  have herase : w.posts.eraseP (·.console = c) = before ++ after := by
    rw [hposts, List.eraseP_append_right _ (by simpa using hbefore)]
    exact congrArg (before ++ ·) (List.eraseP_cons_of_pos hpost)
  simp only [requests, record, herase]
  rw [hposts]
  by_cases hd : d = c
  · -- What was sent before it went to other consoles.
    have hothers : before.filterMap (fun b => b.event.request? d) = [] := by
      refine List.filterMap_eq_nil_iff.2 fun b hb => Post.request?_of_ne ?_
      simpa [hd] using hbefore b hb
    cases hrequest : post.event.request? d <;> simp [hothers, hrequest]
  · have hnone : post.event.request? d = none :=
      Post.request?_of_ne (by simpa using (of_decide_eq_true hpost).trans_ne (Ne.symm hd))
    simp [hnone]

/-! ## What leaves a process alone -/

/-- A change that leaves a process alone: the process, the call of its launch, its consoles and
the requests to them are what they were. -/
structure Beside (p i : Nat) (w v : World) : Prop where
  process_eq : v.processes[p]? = w.processes[p]?
  call_eq : v.calls[i]? = w.calls[i]?
  console_iff : ∀ {c : Nat} {k : Console}, k.owner = p →
    (v.consoles[c]? = some k ↔ w.consoles[c]? = some k)
  requests_eq : ∀ {c : Nat} {k : Console}, v.consoles[c]? = some k → k.owner = p →
    v.requests c = w.requests c

namespace Beside

theorem refl (w : World) : Beside p i w w := ⟨rfl, rfl, fun _ => Iff.rfl, fun _ _ => rfl⟩

/-- What others do twice is what others do. -/
theorem trans (h : Beside p i w v) (h' : Beside p i v u) : Beside p i w u where
  process_eq := h'.process_eq.trans h.process_eq
  call_eq := h'.call_eq.trans h.call_eq
  console_iff ho := (h'.console_iff ho).trans (h.console_iff ho)
  requests_eq hk ho := (h'.requests_eq hk ho).trans (h.requests_eq ((h'.console_iff ho).1 hk) ho)

/-- A change of other parts of the world. -/
theorem of_eq (hp : v.processes = w.processes) (hi : v.calls = w.calls)
    (hc : v.consoles = w.consoles) (hr : ∀ c, v.requests c = w.requests c) : Beside p i w v where
  process_eq := by rw [hp]
  call_eq := by rw [hi]
  console_iff _ := by rw [hc]
  requests_eq _ _ := hr _

/-- An event that is no request. -/
theorem record (w : World) {e : Event} (h : ∀ c, e.request? c = none) :
    Beside p i w (w.record e) :=
  .of_eq rfl rfl rfl fun c => requests_record (h c)

/-- Others may warn. -/
theorem warn (w : World) (topic : Topic) (text : String) : Beside p i w (w.warn topic text) :=
  .record w fun _ => rfl

/-- Others may delete a session file. -/
theorem deleteSessionFile (w : World) (path : Path) :
    Beside p i w (w.deleteSessionFile path) := by
  unfold World.deleteSessionFile
  split
  · exact .of_eq rfl rfl rfl fun _ => rfl
  · exact .refl w
  · exact .warn w _ _

/-- A change of a console that belongs to somebody else. -/
theorem setConsole {c : Nat} {k k' : Console} (hk : w.consoles[c]? = some k)
    (ho : k.owner ≠ p) (ho' : k'.owner = k.owner) : Beside p i w (w.setConsole c k') where
  process_eq := rfl
  call_eq := rfl
  console_iff {c' x} hx := by
    by_cases hc : c' = c
    · subst hc
      rw [show (w.setConsole c' k').consoles[c']? = some k' from getElem?_set_at hk k', hk]
      refine iff_of_false (fun h => ?_) (fun h => ?_)
      · cases h
        exact ho (ho' ▸ hx)
      · cases h
        exact ho hx
    · exact (List.getElem?_set_ne (Ne.symm hc)).symm ▸ Iff.rfl
  requests_eq _ _ := rfl

/-- A change of another process. -/
theorem setProcess {p' : Nat} (h : p' ≠ p) (q : ServerProcess) :
    Beside p i w (w.setProcess p' q) where
  process_eq := List.getElem?_set_ne h
  call_eq := rfl
  console_iff _ := Iff.rfl
  requests_eq _ _ := rfl

end Beside

/-! ## Deeds -/

end World

/-- The move is one of a launch: a piece of its call, or something that its launcher or its console
does. -/
def Move.ofLaunch (i : Nat) : Move → Bool
  | .run (.call j) => j = i
  | .run (.exit _) => true
  | .perform j => j = i
  | .answerLaunch _ _ => true
  | .heed _ => true
  | .endConsole _ _ => true
  | _ => false

/-- One thing that happens to a process. -/
inductive Deed where
  | move (m : Move)
  /-- A call of dispose, or the end of the last reference to the process. -/
  | dispose
  | press
  | reveal (preserveFocus : Bool)
  /-- Somebody takes the one notifier of the exit. -/
  | takeNotice

/-- The deed concerns the launch by a call. -/
def Deed.suits (i : Nat) : Deed → Bool
  | .move m => m.ofLaunch i
  | _ => true

namespace World

variable {p i : Nat} {w v u start : World} {ds es : List Deed}

/-- What a deed leads to, if it can be done. -/
def deed? (w : World) (p : Nat) : Deed → Option World
  | .move m => w.move? m
  | .dispose => some (w.dispose p)
  | .press => some (w.tellProcess p keyPress)
  | .reveal preserveFocus => some (w.tellProcess p (.reveal preserveFocus))
  | .takeNotice => (w.processes[p]?).map fun q => w.setProcess p { q with noticeTaken := true }

/-- Deeds one after the other, in any order, and other things beside them. -/
inductive Sequel (p i : Nat) (start : World) : List Deed → World → Prop where
  | refl : Sequel p i start [] start
  | step {ds : List Deed} {w v : World} {d : Deed} : Sequel p i start ds w →
      d.suits i = true → w.deed? p d = some v → Sequel p i start (ds ++ [d]) v
  | beside {ds : List Deed} {w v : World} : Sequel p i start ds w → Beside p i w v →
      Sequel p i start ds v

/-- Deeds without anything beside them. -/
def deeds? (w : World) (p : Nat) : List Deed → Option World
  | [] => some w
  | d :: ds => (w.deed? p d).bind fun v => v.deeds? p ds

/-- A sequel goes on with further deeds. -/
theorem Sequel.append_deeds? (h : Sequel p i start ds w)
    (hes : ∀ d ∈ es, Deed.suits i d = true) (hv : w.deeds? p es = some v) :
    Sequel p i start (ds ++ es) v := by
  induction es generalizing ds w with
  | nil =>
    cases hv
    rwa [List.append_nil]
  | cons d rest ih =>
    obtain ⟨u, hu, hrest⟩ := Option.bind_eq_some_iff.1 hv
    have hstep := h.step (hes d List.mem_cons_self) hu
    simpa using ih hstep (fun d hd => hes d (List.mem_cons_of_mem _ hd)) hrest

/-- A console that takes what it is told leaves every process alone. -/
theorem heed_beside {c : Nat} (h : w.heed? c = some v) : Beside p i w v := by
  cases moves_of_move? (m := .heed c) h with
  | heed hk hpost hup => exact .of_eq rfl rfl rfl (requests_heed hpost)

/-! ## Looking for the session file -/

end World

/-- The launch looks for its session file: its launcher has answered. -/
def Launching.Looks : Launching → Prop
  | .answer _ => False
  | _ => True

namespace World

variable {p i : Nat} {w : World}

/-- A piece of a launch leaves the process alone, and the launch goes on looking. -/
def LeavesAlone (p i : Nat) (w : World) (piece : LaunchProgress) : Prop :=
  piece.Gives (fun v l => Beside p i w v ∧ l.Looks) fun v _ => Beside p i w v

/-- Looking again leaves consoles and processes alone. -/
theorem lookAgain_beside (q : ServerProcess) (attempt : Nat) :
    LeavesAlone p i w (w.lookAgain p q attempt) := by
  unfold lookAgain
  split
  · exact .refl w
  · split
    · exact .refl w
    · exact ⟨.refl w, trivial⟩

/-- Telling of a slow start leaves consoles and processes alone. -/
theorem warnSlow_beside (q : ServerProcess) (attempt : Nat) :
    Beside p i w (w.warnSlow p q attempt) := by
  unfold warnSlow
  simp only []
  split
  · exact (Beside.warn w _ _).trans (.record _ fun _ => rfl)
  · exact .warn w _ _

/-- Going on without a session file leaves consoles and processes alone. -/
theorem withoutFile_beside (q : ServerProcess) (attempt : Nat) :
    LeavesAlone p i w (w.withoutFile p q attempt) := by
  unfold withoutFile
  split
  · exact .refl w
  · simp only []
    split
    · exact ⟨warnSlow_beside q attempt, trivial⟩
    · exact ⟨.refl w, trivial⟩

/-- What follows a look leaves consoles and processes alone. -/
theorem afterLook_beside (q : ServerProcess) (attempt : Nat)
    (content : Except ErrorKind (List UInt8)) :
    LeavesAlone p i w (w.afterLook p q attempt content) := by
  unfold afterLook
  simp only []
  split
  · exact withoutFile_beside q attempt
  · exact .refl w
  · split
    · exact .refl w
    · exact .deleteSessionFile w _

/-- A launch that looks for its session file leaves its process alone. -/
theorem launch_beside {l : Launching} (h : l.Looks) : LeavesAlone p i w (w.launch p l) := by
  unfold launch
  split
  · trivial
  · rename_i q _
    cases l with
    | answer c => exact h.elim
    | file attempt => trivial
    | turn attempt content => exact afterLook_beside q attempt content
    | interval attempt wake =>
      simp only []
      split
      · exact .refl w
      · split
        · exact lookAgain_beside q (attempt + 1)
        · trivial
    | woken attempt => exact lookAgain_beside q (attempt + 1)

end World

end SessionHost
