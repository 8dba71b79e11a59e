import SessionHost.Proofs.Disposal.Phases
import SessionHost.Proofs.Ledger.Turns
import SessionHost.Proofs.Signals.Busy

/-!
# Key presses

A server may ask for a key to be pressed in its console.  Whether it is the server of the present
generation is looked at before the session's lock is waited for, and whose console it is turns out
behind it.  In between the session may be stopped, and another one started.  A process of that
other one is put into the session behind the same lock, though, and its start begins to wait for
it only when the key press does so already.

Main definitions:

- `Outline.Vacated`: earlier generations have no process in the session.
- `World.Untold`: a console is told nothing.
- `World.OwnConsole`: the console of a generation's process, while it is in the session.

Main results:

- Theorem `World.stored_of_move?`: who puts a process into the session.
- Theorem `World.Life.queues_of_pressing`: a key press begins to wait while its generation is the
  present one.
- Theorem `World.Life.process_of_pressing`: it finds no process of another generation.
- Theorem `World.Life.presses`: key presses stay in their session.
-/

namespace SessionHost

/-! ## Processes of earlier generations -/

/-- The generation has begun, and no earlier one has a process in the session. -/
def Outline.Vacated (o : Outline) (g : Nat) : Prop :=
  g ≤ o.generation ∧ ∀ g', o.session.origin? .process = some g' → g ≤ g'

/-- A process is put into the session for the present generation only. -/
theorem Rule.vacated {a : Actor} {o o' : Outline} (h : Rule a o o') (t : Tenure o) (l : Slots o)
    {g : Nat} (ho : o.Vacated g) : o'.Vacated g := by
  refine ⟨Nat.le_trans ho.1 h.generation_le, fun g' hg' => ?_⟩
  rcases h.origin_of_some t l hg' with hg' | hstores
  · exact ho.2 g' hg'
  · obtain ⟨i, r, hr, hclaim, -⟩ := hstores.first
    obtain ⟨rfl, -⟩ := (t.admits hr hclaim).2 hstores.allowed
    exact ho.1

namespace World

variable {start w v u : World} {ms : List Move} {n k i c g : Nat} {x : Pump}

/-- A start that keeps its client has its own process in the session. -/
theorem vacated_of_keeping (s : Sound w.outline) {a : Attempt} {next : List Phase}
    (hi : w.calls[i]? = some (.active (.phased (.starting (.keeping a c)) next)))
    (hc : .start a.generation ∉ w.cancelled) : w.outline.Vacated a.generation := by
  have hr := roles_of_active hi
  obtain ⟨hg, hs⟩ := (s.tenure.admits hr rfl).2 hc
  have hfits : (Milestone.opening c).Fits a.generation w.session :=
    s.slots.fits hr rfl (hg ▸ Outline.claim?_of_starting hs)
  obtain ⟨⟨p, d, hp, -⟩, -⟩ := hfits
  refine ⟨Nat.le_of_eq hg, fun g' hg' => ?_⟩
  obtain rfl : a.generation = g' := by simpa [outline, Session.origin?, hp] using hg'
  exact Nat.le_refl _

/-- While the signals of a generation are handled, no earlier one has a process in the session. -/
theorem Life.vacated (h : Life start ms w) (hn : start.Moment ms n v) (hx : x ∈ v.pumps) :
    v.outline.Vacated x.generation := by
  suffices hcrew : ∀ y ∈ v.ledger.crew, v.outline.Vacated y.2 from
    hcrew _ (List.mem_map.2 ⟨x, hx, rfl⟩)
  obtain ⟨a, ha⟩ := hn.exists_le (Nat.zero_le n)
  obtain rfl : start = a := Option.some.inj ha.2
  refine h.induction (P := fun u => ∀ y ∈ u.ledger.crew, u.outline.Vacated y.2)
    (fun {a b m} hof hmove s hcrew => ?_) ha hn (Nat.zero_le n) fun y hy => ?_
  · have hleads := move?_leads hmove hof s.tenure.inside s.present
    have hkeeps {g : Nat} (hg : a.outline.Vacated g) : b.outline.Vacated g :=
      hleads.keeps_of_sound s (P := fun o => o.Vacated g)
        (fun ho hg hrule => hrule.vacated ho.tenure ho.slots hg) hg
    rcases (move?_change hmove hof).crew with ⟨hsame, -⟩ | ⟨j, attempt, d, next, -, hj, hc, hnew⟩
    · rw [hsame]
      exact fun y hy => hkeeps (hcrew y hy)
    · rw [hnew]
      intro y hy
      rcases List.mem_append.1 hy with hy | hy
      · exact hkeeps (hcrew y hy)
      · obtain rfl := List.mem_singleton.1 hy
        exact hkeeps (vacated_of_keeping s hj hc)
  · rw [Ledger.crew, show start.ledger.pumps = [] from h.fresh.pumps] at hy
    cases hy

/-! ## Who puts a process into the session -/

/-- A process that is in the session was there before, or a start has just put it there. -/
theorem stored_of_move? {m : Move} (h : w.move? m = some v) (hm : m.ofSession = true)
    {p : Stored Nat} (hp : v.session.process = some p) :
    w.session.process = some p ∨ ∃ j a exe next, m = .run (.call j) ∧
      w.calls[j]? = some (.active (.phased (.starting (.adopting a exe p.value)) next)) ∧
      p.generation = a.generation := by
  have hchange := move?_change h hm
  change v.ledger.session.part? .process = some p at hp
  generalize v.ledger = l at hchange hp
  -- What is in the session after a chain of postings was there before.
  have hkept {own : Option Nat} {l₁ l₂ : Ledger} (hl : Writings own l₁ l₂)
      (hp : l₂.session.part? .process = some p) : l₁.session.part? .process = some p := by
    rcases hl.part?_cases .process with hlast | hlast
    · exact hlast ▸ hp
    · rw [hlast] at hp
      cases hp
  cases hchange with
  | @call j job l' hm hj hw c =>
    obtain ⟨l₀, hl₀, hwritings⟩ := hw
    have hp₀ := hkept hwritings hp
    rcases hl₀ with rfl | ⟨place, next, rfl, hstore⟩
    · exact .inl hp₀
    · cases hstore with
      | @adopt a exe q hc watches hwatches =>
        obtain rfl : (⟨a.generation, q⟩ : Stored Nat) = p := Option.some.inj hp₀
        exact .inr ⟨j, a, exe, next, hm, hj, rfl⟩
      | _ => exact .inl hp₀
  | release hm hx hplace hl | report hm hx hplace hl =>
    exact .inl (hkept (.of_postings hl) hp)
  | _ => exact .inl hp

/-- While a key press waits that was asked for in the present generation, no later generation puts
a process into the session. -/
theorem Life.process_le (h : Life start ms w) (hturn : start.InTurn ms)
    (hqueues : start.Queues ms (.pump i) k n) (hk : start.Moment ms k u) (hn : start.Moment ms n v)
    (hle : k ≤ n) {p : Stored Nat} (hp : v.session.process = some p) :
    p.generation ≤ u.generation := by
  induction hle generalizing v with
  | refl =>
    obtain rfl := hn.unique hk
    have horigin : v.outline.session.origin? .process = some p.generation := by
      simp [outline, Session.origin?, hp]
    exact (h.once hn _ _ horigin).1
  | @step n hle ih =>
    obtain ⟨a, ha⟩ := hn.pred
    obtain ⟨m, hm, hmove⟩ := ha.step hn
    have hof : m.ofSession = true := h.ofSession m (List.mem_of_getElem? hm)
    rcases stored_of_move? hmove hof hp with hbefore | ⟨j, attempt, exe, next, rfl, hj, hg⟩
    · exact ih (hqueues.of_le (Nat.le_succ n)) ha hbefore
    · -- The start is let in, so it has waited as long as the key press: its claim is no younger.
      have hcall : start.Queues ms (.call j) k n := by
        refine hturn ha hm ?_ hle (hqueues.of_le (Nat.le_succ n))
        simp [awaitsLock, hj, Call.awaitsLock, Job.awaitsLock, Starting.awaitsLock]
      have hj' := (hcall.calls_eq h hk ha hle).symm.trans hj
      rw [hg]
      exact ((h.moment hk).sound.tenure.admits (roles_of_active hj') rfl).1

/-! ## What a pump does with a signal -/

/-- A console is told nothing, and nothing is asked of it. -/
def Untold (d : Nat) (w v : World) : Prop :=
  v.consoles[d]? = w.consoles[d]? ∧ v.requests d = w.requests d

namespace Untold

variable {d : Nat}

theorem refl (d : Nat) (w : World) : Untold d w w := ⟨rfl, rfl⟩

/-- A console is untold as long as consoles, log and posts stay. -/
theorem of_eq (hc : v.consoles = w.consoles) (hl : v.log = w.log) (hp : v.posts = w.posts) :
    Untold d w v :=
  ⟨congrArg (·[d]?) hc, requests_congr hl hp d⟩

/-- A step of the status tells a console nothing. -/
theorem transition (w : World) (g : Nat) (sources : List Status) (target : Status) :
    Untold d w (w.transition g sources target).1 := by
  rcases w.transition_cases g sources target with h | h <;> rw [h]
  · exact .refl d w
  · exact ⟨rfl, requests_record rfl⟩

/-- The end of a pump tells a console nothing. -/
theorem endPump (w : World) (i : Nat) (x : Pump) : Untold d w (w.endPump i x) := by
  unfold World.endPump
  simp only []
  split <;> exact .of_eq rfl rfl rfl

end Untold

/-- What a pump makes of a signal: it ends, it moves the status, it goes to the session's lock for
the sake of the present generation, or it does nothing. -/
theorem handle_cases (w : World) (i : Nat) (x : Pump) (signal : ClientSignal) :
    w.handle i x signal = w.endPump i x ∨
      (∃ sources target, w.handle i x signal = (w.transition x.generation sources target).1) ∨
      (w.generation = x.generation ∧ w.handle i x signal = w.movePump i x .pressing) ∨
      w.handle i x signal = w := by
  unfold handle
  split
  · exact .inl rfl
  · split
    · exact .inr (.inl ⟨_, _, rfl⟩)
    · exact .inr (.inl ⟨_, _, rfl⟩)
    · split
      · rename_i hg
        exact .inr (.inr (.inl ⟨hg, rfl⟩))
      · exact .inr (.inr (.inr rfl))
    · exact .inl rfl

/-- Handling a signal tells a console nothing; a key press is passed on behind the lock. -/
theorem handle_untold (w : World) (i : Nat) (x : Pump) (signal : ClientSignal) (d : Nat) :
    Untold d w (w.handle i x signal) := by
  rcases w.handle_cases i x signal with h | ⟨sources, target, h⟩ | ⟨-, h⟩ | h <;> rw [h]
  · exact .endPump w i x
  · exact .transition w _ sources target
  · exact .of_eq rfl rfl rfl
  · exact .refl d w

/-- A key press waits for the session's lock if it comes from the present generation, and is
dropped otherwise. -/
theorem handle_keyPress (h : w.dissolved = false) :
    w.handle i x (.server .keyPress) =
      if w.generation = x.generation then w.movePump i x .pressing else w := by
  simp [handle, h]

theorem pumps_endPump (w : World) (i : Nat) (x : Pump) :
    (w.endPump i x).pumps = w.pumps.set i { x with place := .over } := by
  unfold endPump
  simp only []
  split <;> rfl

theorem pumps_transition (w : World) (g : Nat) (sources : List Status) (target : Status) :
    (w.transition g sources target).1.pumps = w.pumps := by
  rcases w.transition_cases g sources target with h | h <;> rw [h]
  rfl

/-- A pump that receives goes to the session's lock for the present generation only. -/
theorem generation_of_handle {signal : ClientSignal} {y : Pump} (hx : w.pumps[i]? = some x)
    (hplace : x.place = .receiving) (hy : (w.handle i x signal).pumps[i]? = some y)
    (hp : y.place = .pressing) : (w.handle i x signal).generation = y.generation := by
  rcases w.handle_cases i x signal with h | ⟨sources, target, h⟩ | ⟨hg, h⟩ | h <;> rw [h] at hy ⊢
  · rw [pumps_endPump, getElem?_set_at hx, Option.some.injEq] at hy
    subst hy
    cases hp
  · rw [pumps_transition, hx, Option.some.injEq] at hy
    subst hy
    cases hplace.symm.trans hp
  · rw [movePump, getElem?_set_at hx, Option.some.injEq] at hy
    subst hy
    exact hg
  · rw [hx, Option.some.injEq] at hy
    subst hy
    cases hplace.symm.trans hp

/-! ## Waiting to press a key -/

/-- A pump has just gone to the session's lock for the present generation. -/
theorem generation_of_pump? (h : w.pump? i = some v) (hx : v.pumps[i]? = some x)
    (hp : x.place = .pressing) : v.generation = x.generation := by
  obtain ⟨y, hy, ⟨-, u, hpressed, rfl⟩ | ⟨a, hplace, -, ⟨-, -, rfl⟩ | ⟨signal, rest, -, rfl⟩⟩⟩ :=
    pump?_cases h
  · have hpumps : u.pumps = w.pumps := congrArg Ledger.pumps hpressed.ledger_eq
    rw [movePump, hpumps, getElem?_set_at hy, Option.some.injEq] at hx
    subst hx
    cases hp
  · rw [pumps_endPump, getElem?_set_at hy, Option.some.injEq] at hx
    subst hx
    cases hp
  · let b : World := w.setClient y.client { a with mailbox := rest }
    exact generation_of_handle (w := b) hy hplace hx hp

/-- A pump that presses has done so before, unless it has just run: a new one receives. -/
theorem pump_of_move? {m : Move} (h : w.move? m = some v) (hof : m.ofSession = true)
    (hm : m ≠ .run (.pump i)) (hx : v.pumps[i]? = some x) (hp : x.place = .pressing) :
    w.pumps[i]? = some x := by
  have hchange := move?_change h hof
  change v.ledger.pumps[i]? = some x at hx
  change w.ledger.pumps[i]? = some x
  generalize v.ledger = l at hchange hx
  have hwritings {own : Option Nat} {l₁ l₂ : Ledger} (hl : Writings own l₁ l₂) :
      l₂.pumps = l₁.pumps :=
    hl.keeps (P := fun u => u.pumps = l₁.pumps)
      (fun _ _ hu hposting => by cases hposting <;> exact hu)
      (fun _ _ hu hamendment => by cases hamendment <;> exact hu) rfl
  cases hchange with
  | @call j job l' hm hj hw c =>
    obtain ⟨l₀, hl₀, hl⟩ := hw
    change l'.pumps[i]? = some x at hx
    rw [hwritings hl] at hx
    rcases hl₀ with rfl | ⟨place, next, -, hstore⟩
    · exact hx
    · cases hstore with
      | keep hc =>
        rcases getElem?_append_cases hx with hx | ⟨-, rfl⟩
        · exact hx
        · cases hp
      | _ => exact hx
  | release hm hx' hp' hl | report hm hx' hp' hl => exact hwritings (.of_postings hl) ▸ hx
  | @pump j y hrun hy place =>
    have hji : j ≠ i := fun heq => hm (heq ▸ hrun)
    rwa [List.getElem?_set_ne hji] at hx
  | _ => exact hx

namespace Life

/-- A key press that waits has waited since its generation was the present one. -/
theorem queues_of_pressing (h : Life start ms w) (hn : start.Moment ms n v)
    (hx : v.pumps[i]? = some x) (hp : x.place = .pressing) :
    ∃ k u, k ≤ n ∧ start.Moment ms k u ∧ u.generation = x.generation ∧
      start.Queues ms (.pump i) k n := by
  induction n generalizing v with
  | zero =>
    obtain rfl : start = v := Option.some.inj hn.2
    rw [h.fresh.pumps] at hx
    cases hx
  | succ n ih =>
    have hawaits : v.awaitsLock (.pump i) = true := by
      simp [awaitsLock, hx, hp, PumpPlace.awaitsLock]
    obtain ⟨a, ha⟩ := hn.pred
    obtain ⟨m, hm, hmove⟩ := ha.step hn
    by_cases hrun : m = .run (.pump i)
    · subst hrun
      exact ⟨n + 1, v, Nat.le_refl _, hn, generation_of_pump? hmove hx hp, .now hn hawaits⟩
    · have hof : m.ofSession = true := h.ofSession m (List.mem_of_getElem? hm)
      obtain ⟨k, u, hk, hu, hg, hqueues⟩ := ih ha (pump_of_move? hmove hof hrun hx hp)
      refine ⟨k, u, Nat.le_succ_of_le hk, hu, hg, hqueues.succ hn hawaits fun heq => hrun ?_⟩
      exact Option.some.inj (hm.symm.trans heq)

/-- When the lock is given out in turn, a key press that is let in finds no process of another
generation in the session. -/
theorem process_of_pressing (h : Life start ms w) (hturn : start.InTurn ms)
    (hn : start.Moment ms n v) (hx : v.pumps[i]? = some x) (hp : x.place = .pressing)
    {p : Stored Nat} (hprocess : v.session.process = some p) : p.generation = x.generation := by
  obtain ⟨k, u, hk, hu, hg, hqueues⟩ := h.queues_of_pressing hn hx hp
  have hle : p.generation ≤ u.generation := h.process_le hturn hqueues hu hn hk hprocess
  have hge : x.generation ≤ p.generation :=
    (h.vacated hn (List.mem_of_getElem? hx)).2 _ (by simp [outline, Session.origin?, hprocess])
  exact Nat.le_antisymm (hg ▸ hle) hge

/-- The signals of a client that was in the session are handled for the generation that had put
it there. -/
theorem generation_of_client (h : Life start ms w) {a : World} (hk : start.Moment ms k a)
    (hclient : a.session.client = some ⟨g, c⟩) (hn : start.Moment ms n v) (hx : x ∈ v.pumps)
    (hc : x.client = c) : x.generation = g := by
  have hown : (c, g) ∈ w.ledger.crew := h.crew_subset hk ((h.attended hk).own hclient)
  have hmem : (x.client, x.generation) ∈ w.ledger.crew :=
    h.crew_subset hn (List.mem_map.2 ⟨x, hx, rfl⟩)
  exact h.crew_single (hc ▸ hmem) hown

end Life

/-! ## Whose console it is -/

/-- The console is the one of the generation's process, and that process is in the session. -/
def OwnConsole (w : World) (g d : Nat) : Prop :=
  ∃ p q y, w.session.process = some ⟨g, p⟩ ∧ w.processes[p]? = some q ∧ q.purpose = .main g ∧
    q.console = some d ∧ w.consoles[d]? = some y ∧ y.owner = p

/-- Other consoles hear nothing of what one is told. -/
theorem tell_untold {d : Nat} (h : d ≠ c) (command : ConsoleCommand) :
    Untold d w (w.tell c command) := by
  unfold tell
  split
  · exact .refl d w
  · rename_i y _
    have hset : (w.consoles.set c (y.told command))[d]? = w.consoles[d]? :=
      List.getElem?_set_ne (Ne.symm h)
    simp only []
    split
    · exact ⟨hset, requests_post ⟨c, some command⟩ (Post.request?_of_ne (Ne.symm h))⟩
    · exact ⟨hset, rfl⟩

/-- A key is pressed in the console of the session's process, and in no other one. -/
theorem tellProcess_cases (s : Sound w.outline) {p : Nat} (hp : w.session.process = some ⟨g, p⟩)
    (command : ConsoleCommand) (d : Nat) :
    Untold d w (w.tellProcess p command) ∨ w.OwnConsole g d := by
  obtain ⟨q, hq, hstanding⟩ := Outline.exists_of_standing? (s.custody.seated hp)
  have hpurpose : q.purpose = .main g := congrArg Standing.purpose hstanding
  cases hconsole : q.console with
  | none =>
    rw [tellProcess_of_none hq hconsole]
    exact .inl (.refl d w)
  | some e =>
    rw [tellProcess_of_some hq hconsole]
    by_cases hd : d = e
    · subst hd
      obtain ⟨-, m, hm, howner, -⟩ :=
        s.supervision.linked (Outline.bonds_of_some (o := w.outline) hq) hconsole
      obtain ⟨y, hy, rfl⟩ := Outline.exists_of_mark hm
      exact .inr ⟨p, q, y, hp, hq, hpurpose, hconsole, hy, howner⟩
    · exact .inl (tell_untold hd command)

/-- What a pump does behind the session's lock. -/
theorem pump?_of_pressing (h : w.pump? i = some v) (hx : w.pumps[i]? = some x)
    (hp : x.place = .pressing) :
    (∃ p, w.session.process = some p ∧
        v = (w.tellProcess p.value keyPress).movePump i x .receiving) ∨
      (w.session.process = none ∧ v = w.movePump i x .receiving) := by
  simp only [pump?, hx, hp, Option.bind_eq_bind, Option.bind_some, Option.some.injEq] at h
  cases hprocess : w.session.process with
  | none =>
    rw [hprocess] at h
    exact .inr ⟨rfl, h.symm⟩
  | some p =>
    rw [hprocess] at h
    exact .inl ⟨p, rfl, h.symm⟩

namespace Life

/-- A pump handles the signals of a client that a generation has put into the session; the lock is
given out in turn.  Whatever it does, the only console that may be told anything is the one of
this generation's process, while that process is in the session.  When it is let in to press a
key, it does so exactly if that process is there, and ignores the request otherwise; it goes to the
lock only while the generation is the present one, and drops the request later on. -/
theorem presses (h : Life start ms w) (hturn : start.InTurn ms) {a : World}
    (hk : start.Moment ms k a) (hclient : a.session.client = some ⟨g, c⟩)
    (hn : start.Moment ms n v) (hn' : start.Moment ms (n + 1) u)
    (hm : ms[n]? = some (.run (.pump i))) (hx : v.pumps[i]? = some x) (hc : x.client = c) :
    (∀ d, Untold d v u ∨ x.place = .pressing ∧ v.OwnConsole g d) ∧
      (x.place = .pressing →
        (∃ p, v.session.process = some ⟨g, p⟩ ∧
            u = (v.tellProcess p keyPress).movePump i x .receiving) ∨
          (∀ p, v.session.process ≠ some ⟨g, p⟩) ∧ u = v.movePump i x .receiving) ∧
      ∀ {b : Client} {rest : List ClientSignal}, x.place = .receiving →
        v.clients[c]? = some b → b.mailbox = .server .keyPress :: rest →
        u = if v.generation = g then
            (v.setClient c { b with mailbox := rest }).movePump i x .pressing
          else v.setClient c { b with mailbox := rest } := by
  have s : Sound v.outline := (h.moment hn).sound
  obtain rfl : x.generation = g :=
    h.generation_of_client hk hclient hn (List.mem_of_getElem? hx) hc
  subst hc
  obtain ⟨m, hm', hpump⟩ := hn.step hn'
  obtain rfl : .run (.pump i) = m := Option.some.inj (hm.symm.trans hm')
  -- Behind the lock there is the process of this generation, or none.
  have hpressing (hp : x.place = .pressing) :
      (∃ p, v.session.process = some ⟨x.generation, p⟩ ∧
          u = (v.tellProcess p keyPress).movePump i x .receiving) ∨
        (∀ p, v.session.process ≠ some ⟨x.generation, p⟩) ∧ u = v.movePump i x .receiving := by
    rcases pump?_of_pressing hpump hx hp with ⟨p, hprocess, hu⟩ | ⟨hnone, hu⟩
    · have hg := h.process_of_pressing hturn hn hx hp hprocess
      exact .inl ⟨p.value, hg ▸ hprocess, hu⟩
    · refine .inr ⟨fun p hp => ?_, hu⟩
      rw [hnone] at hp
      cases hp
  refine ⟨fun d => ?_, hpressing, fun {b rest} hp hb hbox => ?_⟩
  · obtain ⟨y, hy, ⟨hp, -⟩ | ⟨b, -, -, hcase⟩⟩ := pump?_cases hpump
    · obtain rfl : x = y := Option.some.inj (hx.symm.trans hy)
      rcases hpressing hp with ⟨p, hprocess, rfl⟩ | ⟨-, rfl⟩
      · exact (tellProcess_cases s hprocess keyPress d).imp id fun hown => ⟨hp, hown⟩
      · exact .inl (.of_eq rfl rfl rfl)
    · obtain ⟨-, -, rfl⟩ | ⟨signal, rest, -, rfl⟩ := hcase
      · exact .inl (.endPump v i y)
      · exact .inl ((v.setClient y.client { b with mailbox := rest }).handle_untold i y signal d)
  · simp only [move?, step?, pump?, hx, hp, hb, hbox, Option.bind_eq_bind, Option.bind_some,
      Option.some.injEq] at hpump
    rw [← hpump]
    exact handle_keyPress s.present

end Life

end World

/-- A session runs, its server asks for a key to be pressed, and the key is pressed. -/
def Trial.pressing : List Move :=
  launching ++ connecting ++
    [message "\x7b\"method\":\"powerShell/sendKeyPress\"\x7d", .run (.reading 0), .run (.reading 0),
      .run (.pump 0), .run (.pump 0)]

namespace World

/-- A key is pressed in the console of the server that has asked for it. -/
theorem key_pressed_trial :
    ∃ v w x p, Trial.start.Life Trial.pressing w ∧ Trial.start.InTurn Trial.pressing ∧
      Trial.start.Moment Trial.pressing 34 v ∧ Trial.start.Moment Trial.pressing 35 w ∧
      Trial.pressing[34]? = some (.run (.pump 0)) ∧ v.session.client = some ⟨1, 0⟩ ∧
      v.pumps[0]? = some x ∧ x.client = 0 ∧ x.place = .pressing ∧
      v.session.process = some ⟨1, p⟩ ∧ w = (v.tellProcess p keyPress).movePump 0 x .receiving ∧
      (w.consoles[0]?.any fun y => y.typed == "p") = true ∧
      ∀ d, Untold d v w ∨ v.OwnConsole 1 d := by
  have hrun : ((List.range 36).all fun n =>
        (Trial.start.play? (Trial.pressing.take n)).any fun v =>
          (v.runners.filter v.awaitsLock).length ≤ 1) = true ∧
      ((Trial.start.play? (Trial.pressing.take 34)).any fun v =>
        (v.session.client.any fun s => s.generation == 1 && s.value == 0) &&
          (v.session.process.any fun s => s.generation == 1) &&
          v.pumps[0]?.any fun x => x.client == 0 && x.place.awaitsLock) = true ∧
      ((Trial.start.play? Trial.pressing).any fun w =>
        w.consoles[0]?.any fun y => y.typed == "p") = true := by
    decide +kernel
  obtain ⟨hsingle, hwaiting, hpressed⟩ := hrun
  obtain ⟨w, hplay, htyped⟩ := (Option.any_eq_true _ _).1 hpressed
  have hlife := Trial.life hplay (by decide)
  have hturn : Trial.start.InTurn Trial.pressing := by
    refine inTurn_of_single fun {n v} hn => ?_
    have hone := List.all_eq_true.1 hsingle n (List.mem_range.2 (Nat.lt_succ_of_le hn.1))
    rw [hn.2] at hone
    simpa using hone
  obtain ⟨v, hv⟩ := hlife.exists_moment (n := 34) (by decide)
  rw [hv.2, Option.any_some, Bool.and_eq_true, Bool.and_eq_true] at hwaiting
  simp only [Option.any_eq_true, Bool.and_eq_true, beq_iff_eq] at hwaiting
  obtain ⟨⟨⟨⟨g, c⟩, hclient, rfl, rfl⟩, ⟨g, p⟩, hprocess, rfl⟩, x, hx, hc, hawaits⟩ := hwaiting
  have hplace : x.place = .pressing := by
    cases hplace : x.place with
    | pressing => rfl
    | receiving | «over» =>
      rw [hplace] at hawaits
      cases hawaits
  obtain ⟨htold, hpressing, -⟩ := hlife.presses hturn hv hclient hv hlife.last rfl hx hc
  rcases hpressing hplace with ⟨q, hq, hw⟩ | ⟨hnone, -⟩
  · obtain rfl : p = q := by simpa using hprocess.symm.trans hq
    exact ⟨v, w, x, p, hlife, hturn, hv, hlife.last, rfl, hclient, hx, hc, hplace, hprocess, hw,
      htyped, fun d => (htold d).imp id And.right⟩
  · exact absurd hprocess (hnone p)

end World

end SessionHost
