import SessionHost.Proofs.Lifecycle.Calls
import SessionHost.Session.Move

/-!
# Moves obey the rules

Every move of a session, up to the moment at which nothing refers to it any longer, takes its
outline along by rules.  What the rules keep holds in every world that moves lead to.

Main definitions:

- `Move.ofSession`: the moves of a session in use.
- `Move.actor`: who takes the rules of a move.
- `World.fall`: a live session has just lost its console.
- `World.Pressed`: a key may have been pressed.
- `World.Moves`: what each move does, and what has to hold for it.

Main results:

- Theorems `World.call?_cases`, `World.watch?_cases`, `World.seeExit_cases`,
  `World.pump?_cases` and others: what the pieces of the activities do.
- Theorem `World.moves_of_move?`: a move that happens does what `World.Moves` has for it.
- Theorem `World.move?_leads`: a move leads from one outline to the other by rules.
-/

namespace SessionHost

/-- The move belongs to a session that is in use: the calls of its own interface, everything
that its activities do, and everything around it. -/
def Move.ofSession : Move → Bool
  | .ask command => command.ofSession
  | .dissolve => false
  | _ => true

/-- Who takes the rules of a move. -/
def Move.actor : Move → Actor
  | .run (.call i) => .call i
  | .run (.watch j) => .watch j
  | _ => .outside

/-- A session is live in the statuses that an unexpected exit may end. -/
theorem Status.isLive_iff_mem (s : Status) : s.isLive = true ↔ s ∈ [.running, .busy] := by
  cases s <;> decide

/-- A watch takes rules only when it runs itself. -/
theorem Move.actor_ne_watch {m : Move} {j : Nat} (h : m ≠ .run (.watch j)) :
    m.actor ≠ .watch j := by
  unfold actor
  split
  · nofun
  · intro heq
    cases heq
    exact h rfl
  · nofun

namespace World

variable {w v : World}

/-! ## Calls -/

/-- The role of a call that is under way is read off its place. -/
theorem roles_of_active {i : Nat} {job : Job} (h : w.calls[i]? = some (.active job)) :
    w.outline.roles[i]? = some job.role := by
  simp [outline, h, Call.role]

/-- A call that plays its role already changes nothing by playing it. -/
theorem setRole_of_active {i : Nat} {job : Job} (h : w.calls[i]? = some (.active job)) :
    w.outline.setRole i job.role = w.outline := by
  have hroles := roles_of_active h
  obtain ⟨hi, hget⟩ := List.getElem?_eq_some_iff.1 hroles
  simp only [Outline.setRole, ← hget, List.set_getElem_self hi]

/-- A call that can run leads to the next suspension point or to a result. -/
theorem call?_cases {i : Nat} (h : w.call? i = some v) :
    ∃ job, w.calls[i]? = some (.active job) ∧
      ((∃ u job', w.call job = .going u job' ∧ v = u.setCall i (.active job')) ∨
        ∃ u r, w.call job = .finished u r ∧ v = u.setCall i (.over r)) := by
  unfold call? at h
  split at h
  · rename_i job hjob
    refine ⟨job, hjob, ?_⟩
    split at h
    · cases h
    · rename_i u job' hcall
      cases h
      exact .inl ⟨u, job', hcall, rfl⟩
    · rename_i u r hcall
      cases h
      exact .inr ⟨u, r, hcall, rfl⟩
  · cases h

/-- What a call waits for outside, inverted once. -/
theorem perform?_cases {i : Nat} (h : w.perform? i = some v) :
    ∃ job u job', w.calls[i]? = some (.active job) ∧ w.performJob job = some (u, job') ∧
      v = u.setCall i (.active job') := by
  unfold perform? at h
  split at h
  · rename_i job hjob
    obtain ⟨⟨u, job'⟩, hperform, rfl⟩ := Option.map_eq_some_iff.1 h
    exact ⟨job, u, job', hjob, hperform, rfl⟩
  · cases h

/-- A piece of a call leads the outline on. -/
theorem call?_leads {i : Nat} (h : w.call? i = some v)
    (hin : ∀ {i : Nat} {r : Role}, w.outline.roles[i]? = some r → r ≠ .outsider) :
    Leads (.call i) w.outline v.outline := by
  obtain ⟨job, hjob, hcase⟩ := call?_cases h
  have hroles := roles_of_active hjob
  have hi : i < w.outline.roles.length := (List.getElem?_eq_some_iff.1 hroles).1
  have hobeys := w.call_obeys i job (hin hroles)
  obtain ⟨u, job', heq, rfl⟩ | ⟨u, result, heq, rfl⟩ := hcase
  · rw [heq] at hobeys
    obtain ⟨-, hleads⟩ := hobeys hi
    rw [setRole_of_active hjob] at hleads
    rw [outline_setCall]
    exact hleads
  · rw [heq] at hobeys
    obtain ⟨-, hleads⟩ := hobeys hi
    rw [setRole_of_active hjob] at hleads
    rw [outline_setCall]
    exact hleads

/-- What a call waits for outside is not in the outline. -/
theorem perform?_outline {i : Nat} (h : w.perform? i = some v) : v.outline = w.outline := by
  obtain ⟨job, u, job', hjob, hperform, rfl⟩ := perform?_cases h
  obtain ⟨hout, hrole⟩ := performJob_outline hperform
  rw [outline_setCall]
  calc u.outline.setRole i job'.role = w.outline.setRole i job.role := by rw [hout, hrole]
    _ = w.outline := setRole_of_active hjob

/-! ## Watches -/

/-- A watch leads from one outline to another one, and from one grip to another one. -/
def Errand (j : Nat) (x : Lookout) (o : Outline) (g : Grip) (o' : Outline) (g' : Grip) : Prop :=
  j < o.lookouts.length →
    j < o'.lookouts.length ∧
      Leads (.watch j) (o.setVigil j x (.releasing g)) (o'.setVigil j x (.releasing g'))

/-- A watch that goes on taking its session apart. -/
theorem errand_of_rule {j : Nat} {x : Lookout} {o o' u : Outline} {g g' : Grip}
    (hu : u = o'.setVigil j x (.releasing g')) (hlen : o'.lookouts.length = o.lookouts.length)
    (h : (o.setVigil j x (.releasing g)).lookouts[j]? = some { x with vigil := .releasing g } →
      Rule (.watch j) (o.setVigil j x (.releasing g)) u) : Errand j x o g o' g' := by
  intro hj
  have hx : (o.setVigil j x (.releasing g)).lookouts[j]? = some { x with vigil := .releasing g } :=
    List.getElem?_set_self hj
  exact ⟨hlen ▸ hj, .rule (hu ▸ h hx)⟩

/-- A watch releases what its generation has left. -/
theorem releases_watch (j : Nat) (x : Lookout) : Releases x.generation (Errand j x) where
  refl o g := fun hj => ⟨hj, .refl _ _⟩
  trans h h' := by
    intro hj
    obtain ⟨hj', hleads⟩ := h hj
    obtain ⟨hj'', hleads'⟩ := h' hj'
    exact ⟨hj'', hleads.trans hleads'⟩
  pass o h := errand_of_rule (o.setVigil_setVigil j x _ _) rfl fun hx => .passWatch hx rfl h
  take o h :=
    errand_of_rule (o.takeLive.setVigil_setVigil j x _ _) rfl fun hx => .seize hx rfl h
  drop o p := by
    refine errand_of_rule ?_ ?_ fun hx => .dropWatch hx rfl
    · rw [Outline.dispose_setVigil, Outline.setVigil_setVigil]
    · rw [Outline.dispose_lookouts]

/-- A watch at its place changes nothing by being there. -/
theorem setVigil_of_lookout {o : Outline} {j : Nat} {x : Lookout} (h : o.lookouts[j]? = some x) :
    o.setVigil j x x.vigil = o := by
  obtain ⟨hj, hget⟩ := List.getElem?_eq_some_iff.1 h
  have hset : o.lookouts.set j x = o.lookouts := hget ▸ List.set_getElem_self hj
  calc o.setVigil j x x.vigil = { o with lookouts := o.lookouts.set j x } := rfl
    _ = o := by rw [hset]

/-- A watch is seen in the outline by its generation, its process and its place. -/
theorem lookout_of_watch {j : Nat} {x : Watch} (h : w.watches[j]? = some x) :
    w.outline.lookouts[j]? = some x.lookout := by
  simp [outline, h]

/-- The world of a session that has just lost its console: the watch goes on to release what the
session owns. -/
def fall (w : World) (j : Nat) (x : Watch) (e : ConsoleExit) : World :=
  ((w.setStatus .failed).warn .session ("'" ++ x.name ++ "' exited unexpectedly")).moveWatch j x
    (.releasing e .taking)

/-- A live session falls when its own watch sees an exit that nobody asked for. -/
theorem seeExit_of_live {j : Nat} {x : Watch} {e : ConsoleExit} (hr : e.requested = false)
    (hd : w.dissolved = false) (hg : w.generation = x.generation) (hs : w.status.isLive = true) :
    w.seeExit j x e = w.fall j x e := by
  unfold seeExit transition
  rw [if_neg (by simp [hr, hd]), if_pos ⟨hg, w.status.isLive_iff_mem.1 hs⟩]
  rfl

/-- Any other exit is none of the watch's business. -/
theorem seeExit_of_not {j : Nat} {x : Watch} {e : ConsoleExit}
    (h : e.requested = true ∨ w.dissolved = true ∨
      ¬(w.generation = x.generation ∧ w.status.isLive = true)) :
    w.seeExit j x e = w.moveWatch j x .over := by
  unfold seeExit transition
  split
  · rfl
  · rename_i hnone
    simp only [Bool.or_eq_true, not_or] at hnone
    have hnot := (h.resolve_left hnone.1).resolve_left hnone.2
    rw [if_neg fun hmem => hnot ⟨hmem.1, w.status.isLive_iff_mem.2 hmem.2⟩]
    rfl

/-- What a watch makes of an exit. -/
theorem seeExit_cases (w : World) (j : Nat) (x : Watch) (e : ConsoleExit) :
    w.seeExit j x e = w.moveWatch j x .over ∨
      (w.generation = x.generation ∧ w.status.isLive = true ∧ w.seeExit j x e = w.fall j x e) := by
  by_cases h : e.requested = true ∨ w.dissolved = true ∨
      ¬(w.generation = x.generation ∧ w.status.isLive = true)
  · exact .inl (seeExit_of_not h)
  · obtain ⟨hr, hd, hlive⟩ := not_or.1 h |>.imp id not_or.1
    obtain ⟨hg, hs⟩ := not_not.1 hlive
    exact .inr ⟨hg, hs, seeExit_of_live (by simpa using hr) (by simpa using hd) hg hs⟩

/-- An exit that nobody asked for makes a live session fall. -/
theorem outline_seeExit_of_live {j : Nat} {x : Watch} {e : ConsoleExit}
    (hr : e.requested = false) (hd : w.dissolved = false) (hg : w.generation = x.generation)
    (hs : w.status.isLive = true) :
    (w.seeExit j x e).outline =
      { w.outline with status := .failed }.setVigil j x.lookout (.releasing .reaching) := by
  rw [seeExit_of_live hr hd hg hs, fall, outline_moveWatch, outline_warn, outline_setStatus]
  rfl

/-- An exit that is seen leads the outline on. -/
theorem seeExit_leads {j : Nat} {x : Watch} {q : ServerProcess} {e : ConsoleExit}
    (hx : w.watches[j]? = some x) (hplace : x.place = .waiting)
    (hq : w.processes[x.process]? = some q) (he : q.exit = some e) (hd : w.dissolved = false) :
    Leads (.watch j) w.outline (w.seeExit j x e).outline := by
  have hlookout := lookout_of_watch hx
  have hvigil : x.lookout.vigil = .waiting := congrArg WatchPlace.vigil hplace
  by_cases hfall : e.requested = false ∧ w.generation = x.generation ∧ w.status.isLive = true
  · obtain ⟨hr, hg, hs⟩ := hfall
    rw [outline_seeExit_of_live hr hd hg hs]
    exact .rule (.fall hlookout hvigil hq he hr hg hs)
  · have hignore : e.requested = true ∨
        ¬(w.generation = x.generation ∧ w.status.isLive = true) := by
      by_cases hr : e.requested = true
      · exact .inl hr
      · exact .inr fun hlive => hfall ⟨by simpa using hr, hlive⟩
    rw [seeExit_of_not (hignore.imp_right .inr), outline_moveWatch]
    exact .rule (.ignore hlookout hvigil hq he hignore)

/-- A watch that can run sees an exit, or goes on with a release or ends it. -/
theorem watch?_cases {j : Nat} (h : w.watch? j = some v) :
    ∃ x, w.watches[j]? = some x ∧
      ((x.place = .waiting ∧ ∃ q e, w.processes[x.process]? = some q ∧ q.exit = some e ∧
          v = w.seeExit j x e) ∨
        ∃ e r, x.place = .releasing e r ∧
          ((∃ u r', w.release x.generation r = .going u r' ∧
              v = u.moveWatch j x (.releasing e r')) ∨
            ∃ u, w.release x.generation r = .finished u () ∧ v = u.reportExit j x e)) := by
  simp only [watch?, Option.bind_eq_bind, Option.bind_eq_some_iff] at h
  obtain ⟨x, hx, h⟩ := h
  refine ⟨x, hx, ?_⟩
  cases hplace : x.place with
  | waiting =>
    simp only [hplace, Option.bind_eq_some_iff, Option.some.injEq] at h
    obtain ⟨q, hq, e, he, rfl⟩ := h
    exact .inl ⟨rfl, q, e, hq, he, rfl⟩
  | releasing e r =>
    simp only [hplace] at h
    refine .inr ⟨e, r, rfl, ?_⟩
    split at h
    · cases h
    · rename_i u r' heq
      cases h
      exact .inl ⟨u, r', heq, rfl⟩
    · rename_i u _ heq
      cases h
      exact .inr ⟨u, heq, rfl⟩
  | «over» =>
    simp only [hplace] at h
    cases h

/-- A watch that waits goes on when its process knows of an exit. -/
theorem watch?_of_waiting {j : Nat} {x : Watch} (h : w.watch? j = some v)
    (hx : w.watches[j]? = some x) (hplace : x.place = .waiting) :
    ∃ (q : ServerProcess) (e : ConsoleExit), w.processes[x.process]? = some q ∧
      q.exit = some e ∧ v = w.seeExit j x e := by
  obtain ⟨y, hy, ⟨-, hexit⟩ | ⟨e, r, hreleasing, -⟩⟩ := watch?_cases h
  · cases hx.symm.trans hy
    exact hexit
  · cases hx.symm.trans hy
    cases hplace.symm.trans hreleasing

/-- A piece of a watch leads the outline on. -/
theorem watch?_leads {j : Nat} (h : w.watch? j = some v) (hd : w.dissolved = false) :
    Leads (.watch j) w.outline v.outline := by
  obtain ⟨x, hx, ⟨hplace, q, e, hq, he, rfl⟩ | ⟨e, r, hplace, hcase⟩⟩ := watch?_cases h
  · exact seeExit_leads hx hplace hq he hd
  · have hlookout := lookout_of_watch hx
    have hrelease := release_leads (g := x.generation) (releases_watch j x.lookout) w r
    have hj : j < w.outline.lookouts.length := (List.getElem?_eq_some_iff.1 hlookout).1
    have hstart : w.outline.setVigil j x.lookout (.releasing r.grip) = w.outline := by
      have hself := setVigil_of_lookout hlookout
      rwa [show x.lookout.vigil = .releasing r.grip from congrArg WatchPlace.vigil hplace] at hself
    obtain ⟨u, r', heq, rfl⟩ | ⟨u, heq, rfl⟩ := hcase
    · rw [heq] at hrelease
      obtain ⟨-, hleads⟩ := hrelease hj
      rw [hstart] at hleads
      rw [outline_moveWatch]
      exact hleads
    · rw [heq] at hrelease
      obtain ⟨hj', hleads⟩ := hrelease hj
      rw [hstart] at hleads
      have hend : Rule (.watch j) (u.outline.setVigil j x.lookout (.releasing (.holding none)))
          (u.outline.setVigil j x.lookout .over) := by
        have hrule := Rule.endWatch
          (o := u.outline.setVigil j x.lookout (.releasing (.holding none)))
          (List.getElem?_set_self hj') rfl
        rwa [Outline.setVigil_setVigil] at hrule
      rw [reportExit, outline_moveWatch]
      exact hleads.andRule hend

/-! ## Exits and signals -/

/-- The exit of a console that is watched reaches its process once. -/
theorem passOn?_cases {c : Nat} (h : w.passOn? c = some v) :
    ∃ k q e, w.consoles[c]? = some k ∧ w.processes[k.owner]? = some q ∧ k.ending = some e ∧
      k.watched = true ∧ k.passedOn = false ∧
      v = (w.setConsole c { k with passedOn := true }).setProcess k.owner
        { q with exit := some e.exit } := by
  simp only [passOn?, Option.bind_eq_bind, Option.bind_eq_some_iff] at h
  obtain ⟨k, hk, q, hq, e, he, h⟩ := h
  split at h
  · rename_i hwatched
    cases h
    simp only [Bool.and_eq_true, Bool.not_eq_true'] at hwatched
    exact ⟨k, q, e, hk, hq, he, hwatched.1, hwatched.2, rfl⟩
  · cases h

/-- An exit that is passed on leads the outline on from outside. -/
theorem passOn?_leads {c : Nat} (h : w.passOn? c = some v) :
    Leads .outside w.outline v.outline := by
  obtain ⟨k, q, e, hk, hq, he, hwatched, hpassed, rfl⟩ := passOn?_cases h
  exact .rule (.passOn hk hq he hwatched hpassed)

/-- A signal leads the outline on from outside. -/
theorem handle_leads (w : World) (i : Nat) (x : Pump) (signal : ClientSignal) :
    Leads .outside w.outline (w.handle i x signal).outline := by
  have hend : (w.endPump i x).outline = w.outline := by
    unfold endPump
    simp only []
    split
    · rename_i c hc
      exact w.outline_setClient hc rfl
    · rfl
  unfold handle
  split
  · rw [hend]
    exact .refl _ _
  · split
    · rw [outline_transition, Outline.transition]
      split
      · rename_i h
        exact .rule (.busy (by simpa using h.2))
      · exact .refl _ _
    · rw [outline_transition, Outline.transition]
      split
      · rename_i h
        exact .rule (.idle (by simpa using h.2))
      · exact .refl _ _
    · split
      · exact .refl _ _
      · exact .refl _ _
    · rw [hend]
      exact .refl _ _

/-- A key may have been pressed in the console of the session's process. -/
def Pressed (w u : World) : Prop :=
  u = w ∨ ∃ p, u = w.tellProcess p keyPress

/-- What a pump does: it presses the key that it was asked for, it leaves after the last word, or it
handles a signal. -/
theorem pump?_cases {i : Nat} (h : w.pump? i = some v) :
    ∃ x, w.pumps[i]? = some x ∧
      ((x.place = .pressing ∧ ∃ u, w.Pressed u ∧ v = u.movePump i x .receiving) ∨
        ∃ a, x.place = .receiving ∧ w.clients[x.client]? = some a ∧
          ((a.mailbox = [] ∧ a.reading.isOver = true ∧ v = w.endPump i x) ∨
            ∃ signal rest, a.mailbox = signal :: rest ∧
              v = (w.setClient x.client { a with mailbox := rest }).handle i x signal)) := by
  simp only [pump?, Option.bind_eq_bind, Option.bind_eq_some_iff] at h
  obtain ⟨x, hx, h⟩ := h
  refine ⟨x, hx, ?_⟩
  cases hplace : x.place with
  | receiving =>
    simp only [hplace, Option.bind_eq_some_iff] at h
    obtain ⟨a, ha, h⟩ := h
    refine .inr ⟨a, rfl, ha, ?_⟩
    split at h
    · rename_i hbox
      split at h
      · rename_i hover
        cases h
        exact .inl ⟨hbox, hover, rfl⟩
      · cases h
    · rename_i signal rest hbox
      cases h
      exact .inr ⟨signal, rest, hbox, rfl⟩
  | pressing =>
    simp only [hplace, Option.some.injEq] at h
    subst h
    refine .inl ⟨rfl, ?_⟩
    cases w.session.process with
    | none => exact ⟨w, .inl rfl, rfl⟩
    | some p => exact ⟨_, .inr ⟨p.value, rfl⟩, rfl⟩
  | «over» =>
    simp only [hplace] at h
    cases h

/-- A piece of a pump leads the outline on from outside. -/
theorem pump?_leads {i : Nat} (h : w.pump? i = some v) : Leads .outside w.outline v.outline := by
  obtain ⟨x, hx, ⟨-, u, rfl | ⟨p, rfl⟩, rfl⟩ | ⟨a, -, ha, hcase⟩⟩ := pump?_cases h
  · exact .refl _ _
  · change Leads .outside w.outline (w.tellProcess p keyPress).outline
    rw [outline_tellProcess]
    cases w.processes[p]?.bind ServerProcess.console with
    | none => exact .refl _ _
    | some c => exact .rule (.write c nofun)
  · have hmail (b : Client) (hb : b.stops = a.stops) :
        (w.setClient x.client b).outline = w.outline := w.outline_setClient ha hb
    obtain ⟨-, -, rfl⟩ | ⟨signal, rest, -, rfl⟩ := hcase
    · simp only [endPump, ha]
      exact .of_eq (hmail _ rfl)
    · have hhandle := (w.setClient x.client { a with mailbox := rest }).handle_leads i x signal
      rwa [hmail { a with mailbox := rest } rfl] at hhandle

/-! ## Moves -/

/-- What each move does, with all that has to hold for it. -/
inductive Moves (w : World) : Move → World → Prop where
  | run {r : Runner} {v : World} (h : w.step? r = some v) : Moves w (.run r) v
  | perform {i : Nat} {v : World} (h : w.perform? i = some v) : Moves w (.perform i) v
  | ask {command : Command} (h : w.held = true) :
      Moves w (.ask command) { w with calls := w.calls ++ [.active (.fresh command)] }
  | answerLaunch {c : Nat} {k : Console} {answer : LaunchAnswer}
      (hk : w.consoles[c]? = some k) (h : k.answer = none) :
      Moves w (.answerLaunch c answer) (w.setConsole c { k with answer := some answer })
  | heed {c : Nat} {k : Console} {post : Post} (hk : w.consoles[c]? = some k)
      (hpost : w.posts.find? (·.console = c) = some post) (h : k.isUp = true) :
      Moves w (.heed c)
        ({ w with posts := w.posts.eraseP (·.console = c) }.record post.event)
  | endConsole {c : Nat} {k : Console} {ending : Ending}
      (hk : w.consoles[c]? = some k) (h : k.ending = none) :
      Moves w (.endConsole c ending) (w.setConsole c { k with ending := some ending })
  | answerConnection {j : Nat} {k : Connection} {answer : Except SystemError Unit}
      (hk : w.connections[j]? = some k) (h : k.answer = none) :
      Moves w (.answerConnection j answer) (w.setConnection j { k with answer := some answer })
  | answerInquiry {i : Nat} {q : Inquiry} {answer : Option String}
      (hq : w.inquiries[i]? = some q) (h : q.answer = none) :
      Moves w (.answerInquiry i answer)
        { w with inquiries := w.inquiries.set i { q with answer := some answer } }
  | take {j count : Nat} {k : Connection} (hk : w.connections[j]? = some k) :
      Moves w (.take j count)
        (w.setConnection j { k with toServer := k.toServer.drop count })
  | send {j : Nat} {bytes : List UInt8} {k : Connection} (hk : w.connections[j]? = some k) :
      Moves w (.send j bytes) (w.setConnection j (k.deliver bytes))
  | silence {j : Nat} {k : Connection} (hk : w.connections[j]? = some k) :
      Moves w (.silence j) (w.setConnection j k.silence)
  | sever {j : Nat} {k : Connection} (hk : w.connections[j]? = some k) :
      Moves w (.sever j) (w.setConnection j k.sever)
  | writeFile {path : Path} {bytes : List UInt8} {files : FileTree}
      (h : w.files.write path bytes 0o644 = .ok files) :
      Moves w (.writeFile path bytes) { w with files }
  | elapse (nanos : Nat) : Moves w (.elapse nanos) { w with now := w.now + nanos }
  | changeStore (store : DefaultStore) : Moves w (.changeStore store) { w with store }
  | letGo : Moves w .letGo { w with held := false }
  | dissolve (h : (w.inUse || w.dissolved) = false) : Moves w .dissolve w.dissolve

/-- What is done once is done where it has not been done. -/
theorem eq_none_of_once {α β : Type} {done : Option β} {x y : α}
    (h : (if done.isSome then none else some x) = some y) : done = none ∧ y = x := by
  cases done with
  | none => exact ⟨rfl, (Option.some.inj h).symm⟩
  | some b => cases h

/-- What a move does, inverted once for all. -/
theorem moves_of_move? {m : Move} (h : w.move? m = some v) : w.Moves m v := by
  cases m with
  | run r => exact .run h
  | perform i => exact .perform h
  | ask command =>
    simp only [move?] at h
    split at h
    · next hheld =>
      cases h
      exact .ask hheld
    · cases h
  | answerLaunch c answer =>
    obtain ⟨k, hk, h⟩ := Option.bind_eq_some_iff.1 h
    obtain ⟨hnone, rfl⟩ := eq_none_of_once h
    exact .answerLaunch hk hnone
  | heed c =>
    obtain ⟨k, hk, h⟩ := Option.bind_eq_some_iff.1 h
    obtain ⟨post, hpost, h⟩ := Option.bind_eq_some_iff.1 h
    split at h
    · next hup =>
      cases h
      exact .heed hk hpost hup
    · cases h
  | endConsole c ending =>
    obtain ⟨k, hk, h⟩ := Option.bind_eq_some_iff.1 h
    obtain ⟨hnone, rfl⟩ := eq_none_of_once h
    exact .endConsole hk hnone
  | answerConnection j answer =>
    obtain ⟨k, hk, h⟩ := Option.bind_eq_some_iff.1 h
    obtain ⟨hnone, rfl⟩ := eq_none_of_once h
    exact .answerConnection hk hnone
  | answerInquiry i answer =>
    obtain ⟨q, hq, h⟩ := Option.bind_eq_some_iff.1 h
    obtain ⟨hnone, rfl⟩ := eq_none_of_once h
    exact .answerInquiry hq hnone
  | take j count =>
    obtain ⟨k, hk, rfl⟩ := Option.map_eq_some_iff.1 h
    exact .take hk
  | send j bytes =>
    obtain ⟨k, hk, rfl⟩ := Option.map_eq_some_iff.1 h
    exact .send hk
  | silence j =>
    obtain ⟨k, hk, rfl⟩ := Option.map_eq_some_iff.1 h
    exact .silence hk
  | sever j =>
    obtain ⟨k, hk, rfl⟩ := Option.map_eq_some_iff.1 h
    exact .sever hk
  | writeFile path bytes =>
    simp only [move?] at h
    split at h
    · next files hfiles =>
      cases h
      exact .writeFile hfiles
    · cases h
  | elapse nanos =>
    cases h
    exact .elapse nanos
  | changeStore store =>
    cases h
    exact .changeStore store
  | letGo =>
    cases h
    exact .letGo
  | dissolve =>
    simp only [move?] at h
    split at h
    · cases h
    · next hnot =>
      cases h
      exact .dissolve (Bool.eq_false_iff.2 hnot)

/-- Every step of an activity leads the outline on. -/
theorem step?_leads {r : Runner} (h : w.step? r = some v)
    (hin : ∀ {i : Nat} {r : Role}, w.outline.roles[i]? = some r → r ≠ .outsider)
    (hd : w.dissolved = false) : Leads (Move.run r).actor w.outline v.outline := by
  cases r with
  | call i => exact call?_leads h hin
  | exit c => exact passOn?_leads h
  | watch j => exact watch?_leads h hd
  | reading c => exact .of_eq (onWire_outline Client.read?_stops h)
  | writing c => exact .of_eq (onWire_outline Client.write?_stops h)
  | pump i => exact pump?_leads h

/-- A move of a session in use leads from one outline to the other by rules. -/
theorem move?_leads {m : Move} (h : w.move? m = some v) (hm : m.ofSession = true)
    (hin : ∀ {i : Nat} {r : Role}, w.outline.roles[i]? = some r → r ≠ .outsider)
    (hd : w.dissolved = false) : Leads m.actor w.outline v.outline := by
  cases moves_of_move? h with
  | run hstep => exact step?_leads hstep hin hd
  | perform hperform => exact .of_eq (perform?_outline hperform)
  | @ask command =>
    have hrole : (Call.active (.fresh command)).role = .bystander := if_pos hm
    have hout : { w with calls := w.calls ++ [Call.active (.fresh command)] }.outline =
        { w.outline with roles := w.outline.roles ++ [.bystander] } := by
      simp [outline, hrole]
    exact .rule (hout ▸ .ask)
  | answerLaunch hk hnone => exact .rule (.answer hk hnone)
  | endConsole hk hnone => exact .rule (.ending hk hnone)
  | heed | answerConnection | answerInquiry | take | send | silence | sever | writeFile | elapse
  | changeStore | letGo => exact .refl _ _
  | dissolve => cases hm

end World

end SessionHost
