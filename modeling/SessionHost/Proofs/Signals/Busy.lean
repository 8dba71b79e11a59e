import Mathlib.Data.List.Nodup
import SessionHost.Proofs.Lifecycle.Departure
import SessionHost.Proofs.Signals.Conservation

/-!
# Busy sessions

A server tells its session whether it is busy.  Every generation has one client whose signals are
handled, so what is handled for a live session is what its own server has sent.  The states that
were handled while the start was still under way are lost, though: a session begins to run as one
that is not busy, and its status follows only the states that are handled from then on.

Main definitions:

- `Ledger.crew`: the clients whose signals are handled, and for which generations.
- `World.Attended`: every generation has at most one of them.
- `World.Runs`: the move with which a generation begins to run.
- `World.Shows`: the status is that of the last state that was told.

Main results:

- Theorem `World.Life.attends_iff`: a client of a live session is the only one of its generation.
- Theorem `World.Life.shows`: the status follows the states handled since the session runs.
- Theorem `World.Life.busy_iff`: when the status agrees with the last state that was sent.
-/

namespace SessionHost

open Rpc (FrameReader ServerSignal)

/-! ## Sessions that stay live -/

/-- Whatever a call writes, a session that is live afterwards was live before, in the same
generation, or its start has come to its end. -/
theorem Writings.live {own : Option Nat} {l l' : Ledger} (h : Writings own l l')
    (hown : ∀ g, own = some g → g ≤ l.generation) (hlive : l'.status.isLive = true) :
    l'.generation = l.generation ∧
      (l'.status = l.status ∨ l.status = .starting ∧ l'.status = .running) := by
  -- A generation that begins on the way is not live yet, and one that has left its start does not
  -- come back to it.
  have hway := h.keeps (P := fun u =>
      (u.generation = l.generation ∧ (u.status = l.status ∨
        l.status = .starting ∧ u.status = .running ∨
        u.status.isLive = false ∧ u.status ≠ .starting)) ∨
      l.generation < u.generation ∧ u.status.isLive = false)
    (fun u v hu hposting => by
      cases hposting with
      | callOff | setDebug | takeLive => exact hu
      | claimStart hs =>
        refine .inr ⟨?_, rfl⟩
        change l.generation < u.generation + 1
        omega
      | claimStop hs hs' | endStop hs =>
        exact hu.imp (fun hu => ⟨hu.1, by simp [Status.isLive]⟩) fun hu => ⟨hu.1, rfl⟩
      | run hg hs =>
        rcases hu with ⟨hgen, hu⟩ | ⟨hlt, -⟩
        · refine .inl ⟨hgen, .inr (.inl ⟨?_, rfl⟩)⟩
          rcases hu with hu | ⟨hu, -⟩ | ⟨-, hu⟩
          · rw [← hu, hs]
          · exact hu
          · exact absurd hs hu
        · exact absurd (hown _ hg) (Nat.not_le.2 hlt)
      | fail hg hs notice =>
        exact hu.imp (fun hu => ⟨hu.1, by simp [Status.isLive]⟩) fun hu => ⟨hu.1, rfl⟩)
    (fun u v hu hamendment => by cases hamendment <;> exact hu)
    (.inl ⟨rfl, .inl rfl⟩)
  rw [hlive] at hway
  simpa using hway

namespace World

variable {w v : World} {i : Nat}

/-- Whatever happens, other than the handling of signals, a session that is live afterwards was
live before, in the same generation, or its start has come to its end. -/
theorem live_of_move? {m : Move} (h : w.move? m = some v) (hm : m.ofSession = true)
    (t : Tenure w.outline) (hpump : ∀ i, m ≠ .run (.pump i)) (hlive : v.status.isLive = true) :
    v.generation = w.generation ∧
      (v.status = w.status ∨ w.status = .starting ∧ v.status = .running) := by
  have hchange := move?_change h hm
  change v.ledger.status.isLive = true at hlive
  change v.ledger.generation = w.ledger.generation ∧
    (v.ledger.status = w.ledger.status ∨ w.ledger.status = .starting ∧ v.ledger.status = .running)
  generalize v.ledger = l at hchange hlive ⊢
  cases hchange with
  | still | ask | perform | ignore => exact ⟨rfl, .inl rfl⟩
  | @call i job l' hm hi hw c =>
    obtain ⟨u, hu, hwritings⟩ := hw
    have hsame : u.generation = w.ledger.generation ∧ u.status = w.ledger.status := by
      rcases hu with rfl | ⟨place, next, -, hstore⟩
      · exact ⟨rfl, rfl⟩
      · cases hstore <;> exact ⟨rfl, rfl⟩
    rw [← hsame.1, ← hsame.2]
    refine hwritings.live (fun g hg => ?_) hlive
    obtain ⟨r, hr, hclaim⟩ := (startsFor_iff w g i).1 (serves_of_generation? hi hg)
    rw [hsame.1]
    exact (t.admits hr hclaim).1
  | fall => cases hlive
  | release hm hx hp hl | report hm hx hp hl =>
    exact (Writings.of_postings hl).live nofun hlive
  | busy hm | idle hm | pump hm => exact absurd hm (hpump _)

end World

/-! ## The client of a generation -/

/-- The clients whose signals are handled, and for which generations. -/
def Ledger.crew (l : Ledger) : List (Nat × Nat) := l.pumps.map fun x => (x.client, x.generation)

/-- A piece of a call has signals handled only while it keeps its client. -/
theorem Job.Writes.crew {job : Job} {l l' : Ledger} (h : job.Writes l l') :
    (l'.crew = l.crew ∧ ∀ s, l'.session.client = some s → l.session.client = some s) ∨
      ∃ a c next, job = .phased (.starting (.keeping a c)) next ∧
        .start a.generation ∉ l.cancelled ∧ l'.crew = l.crew ++ [(c, a.generation)] := by
  obtain ⟨u, hu, hwritings⟩ := h
  have hkeep : l'.crew = u.crew ∧ ∀ s, l'.session.client = some s → u.session.client = some s :=
    hwritings.keeps
      (P := fun x => x.crew = u.crew ∧ ∀ s, x.session.client = some s → u.session.client = some s)
      (fun _ _ hx hposting => by
        cases hposting with
        | takeLive => exact ⟨hx.1, nofun⟩
        | _ => exact hx)
      (fun _ _ hx hamendment => by cases hamendment <;> exact hx) ⟨rfl, fun _ => id⟩
  rcases hu with rfl | ⟨place, next, rfl, hstore⟩
  · exact .inl hkeep
  · cases hstore with
    | @keep a c hc =>
      refine .inr ⟨a, c, next, rfl, hc, hkeep.1.trans ?_⟩
      rw [Ledger.crew, List.map_append]
      rfl
    | _ => exact .inl hkeep

/-- A start that keeps its client has this client's signals handled; nobody else has signals
handled that were not handled before. -/
theorem Change.crew {m : Move} {l l' : Ledger} (h : Change m l l') :
    (l'.crew = l.crew ∧ ∀ s, l'.session.client = some s → l.session.client = some s) ∨
      ∃ i a c next, m = .run (.call i) ∧
        l.calls[i]? = some (.active (.phased (.starting (.keeping a c)) next)) ∧
        .start a.generation ∉ l.cancelled ∧ l'.crew = l.crew ++ [(c, a.generation)] := by
  have hrelease {l' : Ledger} (hl : Postings none l l') :
      l'.crew = l.crew ∧ ∀ s, l'.session.client = some s → l.session.client = some s := by
    have hwrites : Job.endingDebug.Writes l l' := .of_postings hl
    refine hwrites.crew.resolve_right ?_
    rintro ⟨a, c, next, hjob, -⟩
    cases hjob
  cases h with
  | @call i job l' hm hi hw c =>
    rcases hw.crew with hsame | ⟨a, c, next, rfl, hc, hcrew⟩
    · exact .inl hsame
    · exact .inr ⟨i, a, c, next, hm, hi, hc, hcrew⟩
  | release hm hx hp hl | report hm hx hp hl =>
    have hsame := hrelease hl
    exact .inl hsame
  | pump hm hx place => exact .inl ⟨map_set_of_eq hx rfl, fun _ => id⟩
  | _ => exact .inl ⟨rfl, fun _ => id⟩

namespace World

variable {start w v : World} {ms : List Move} {n k i c g : Nat}

/-- A start that was not called off puts its client into the session. -/
theorem call_keeping {a : Attempt} (next : List Phase) (h : .start a.generation ∉ w.cancelled) :
    (w.call (.phased (.starting (.keeping a c)) next)).Ends fun v =>
      v.session.client = some ⟨a.generation, c⟩ := by
  have hkeep : w.keepClient a c = .blocked ∨ ∃ u request,
      w.keepClient a c = .going u (.asking a c request) ∧
        u.session.client = some ⟨a.generation, c⟩ := by
    unfold keepClient storeUnlessCancelled
    rw [if_neg (by simpa [isCancelled] using h)]
    simp only []
    split
    · exact .inl rfl
    · exact .inr ⟨_, _, rfl, rfl⟩
  obtain hkeep | ⟨u, request, hkeep, hu⟩ := hkeep <;> simp only [call, phase, start, hkeep]
  · trivial
  · exact hu

/-- Every generation has at most one client whose signals are handled, and the client in the
session is one of these. -/
structure Attended (w : World) : Prop where
  own : ∀ {g c : Nat}, w.session.client = some ⟨g, c⟩ → (c, g) ∈ w.ledger.crew
  single : ∀ {g c d : Nat}, (c, g) ∈ w.ledger.crew → (d, g) ∈ w.ledger.crew → c = d
  past : ∀ {g c : Nat}, (c, g) ∈ w.ledger.crew → w.outline.Past .client g

theorem Attended.step {m : Move} (h : w.Attended) (hmove : w.move? m = some v)
    (hm : m.ofSession = true) (s : Sound w.outline) (hv : v.outline.Once) : v.Attended := by
  have hleads := move?_leads hmove hm s.tenure.inside s.present
  have hpast {g : Nat} (hg : w.outline.Past .client g) : v.outline.Past .client g :=
    hleads.keeps (P := fun o => o.Past .client g) (fun _ _ ho hrule => hrule.past ho) hg
  rcases (move?_change hmove hm).crew with
    ⟨hcrew, hclient⟩ | ⟨i, a, c, next, rfl, hi, hc, hcrew⟩
  · refine ⟨fun hs => ?_, fun hx hy => ?_, fun hx => ?_⟩
    · rw [hcrew]
      exact h.own (hclient _ hs)
    · rw [hcrew] at hx hy
      exact h.single hx hy
    · rw [hcrew] at hx
      exact hpast (h.past hx)
  · have hkept : v.session.client = some ⟨a.generation, c⟩ := by
      have hends := w.call_keeping (c := c) next hc
      obtain ⟨job, hjob, hcase⟩ := call?_cases hmove
      obtain rfl : job = .phased (.starting (.keeping a c)) next := by
        have heq := hi.symm.trans hjob
        simpa using heq.symm
      rcases hcase with ⟨u, job', hcall, rfl⟩ | ⟨u, r, hcall, rfl⟩ <;>
        · rw [hcall] at hends
          exact hends
    -- Nobody has handled signals for this generation, since its start has not kept a client yet.
    have hnew (d : Nat) : (d, a.generation) ∉ w.ledger.crew := fun hd => by
      have hstored : Slot.client ∈ Role.stored (.starting a.generation (.opening c)) :=
        (h.past hd).2 (roles_of_active hi) rfl
      simp [Role.stored, Milestone.stored] at hstored
    have hcases {d g : Nat} (hd : (d, g) ∈ v.ledger.crew) :
        (d, g) ∈ w.ledger.crew ∨ d = c ∧ g = a.generation := by
      rw [hcrew, List.mem_append, List.mem_singleton, Prod.mk.injEq] at hd
      exact hd
    refine ⟨fun {g d} hs => ?_, fun {g d e} hd he => ?_, fun {g d} hd => ?_⟩
    · obtain ⟨rfl, rfl⟩ : a.generation = g ∧ c = d := by simpa using hkept.symm.trans hs
      rw [hcrew]
      exact List.mem_append_right _ (List.mem_singleton_self _)
    · rcases hcases hd with hd | ⟨rfl, rfl⟩ <;> rcases hcases he with he | ⟨rfl, heq⟩
      · exact h.single hd he
      · exact absurd (heq ▸ hd) (hnew d)
      · exact absurd he (hnew e)
      · rfl
    · rcases hcases hd with hd | ⟨rfl, rfl⟩
      · exact hpast (h.past hd)
      · exact hv .client a.generation (by simp [outline, Session.origin?, hkept])

namespace Life

theorem attended (h : Life start ms w) (hn : start.Moment ms n v) : v.Attended := by
  induction n generalizing v with
  | zero =>
    obtain rfl : start = v := Option.some.inj hn.2
    have hcrew : start.ledger.crew = [] := by simp [Ledger.crew, ledger, h.fresh.pumps]
    refine ⟨fun hs => ?_, fun hc => ?_, fun hc => ?_⟩
    · rw [h.fresh.session] at hs
      cases hs
    · rw [hcrew] at hc
      cases hc
    · rw [hcrew] at hc
      cases hc
  | succ n ih =>
    obtain ⟨u, hu⟩ := hn.pred
    obtain ⟨m, hm, hmove⟩ := hu.step hn
    exact (ih hu).step hmove (h.ofSession m (List.mem_of_getElem? hm)) (h.moment hu).sound
      (h.once hn)

/-- Signals that are handled once are handled for good, and for the same generation. -/
theorem crew_subset (h : Life start ms w) (hn : start.Moment ms n v) :
    v.ledger.crew ⊆ w.ledger.crew := by
  refine h.induction (P := fun u => v.ledger.crew ⊆ u.ledger.crew) (fun hm hmove _ hu => ?_)
    hn h.last hn.1 (List.Subset.refl _)
  rcases (move?_change hmove hm).crew with ⟨hcrew, -⟩ | ⟨i, a, c, next, -, -, -, hcrew⟩
  · rw [hcrew]
    exact hu
  · rw [hcrew]
    exact List.subset_append_of_subset_left _ hu

/-- A client's signals are handled for one generation only. -/
theorem crew_single (h : Life start ms w) {g' : Nat} (hg : (c, g) ∈ w.ledger.crew)
    (hg' : (c, g') ∈ w.ledger.crew) : g = g' := by
  have honce : (w.ledger.crew.map Prod.fst).Nodup := by
    have hnodup := (h.accounts h.last).once
    rw [Ledger.crew, List.map_map]
    exact hnodup
  exact congrArg Prod.snd (List.inj_on_of_nodup_map honce hg hg' rfl)

/-- At no moment are signals of the session's client handled for another generation, or signals of
another client for the generation of this one. -/
theorem attends_iff (h : Life start ms w) (hclient : w.session.client = some ⟨g, c⟩)
    (hn : start.Moment ms n v) {x : Pump} (hx : x ∈ v.pumps) :
    x.client = c ↔ x.generation = g := by
  have hattended := h.attended h.last
  have hown : (c, g) ∈ w.ledger.crew := hattended.own hclient
  have hmem : (x.client, x.generation) ∈ w.ledger.crew :=
    h.crew_subset hn (List.mem_map.2 ⟨x, hx, rfl⟩)
  constructor
  · intro hxc
    exact h.crew_single (hxc ▸ hmem) hown
  · intro hxg
    exact hattended.single (hxg ▸ hmem) hown

end Life

/-! ## What a status shows -/

/-- The status is that of the last state that was told. -/
def Shows (w : World) (told : List Bool) : Prop := w.status = .busy ↔ told.getLast? = some true

/-- The states that a server has told on a connection, one after the other. -/
def toldOn (start : World) (k : Nat) (ms : List Move) : List Bool :=
  busyStates (signals (FrameReader.idle.messages (start.sentOn k ms)))

/-- The move with which a generation begins to run. -/
def Runs (start : World) (ms : List Move) (g k : Nat) : Prop :=
  ∃ u v, start.Moment ms k u ∧ start.Moment ms (k + 1) v ∧ u.status = .starting ∧
    v.status = .running ∧ u.generation = g ∧ v.generation = g

/-- A state that is handled becomes the status of a live session, if it comes from the client of
its generation. -/
theorem handle_server_status (hd : w.dissolved = false) (i : Nat) (x : Pump) (s : ServerSignal) :
    (w.handle i x (.server s)).generation = w.generation ∧
      (w.handle i x (.server s)).status =
        if w.generation = x.generation ∧ w.status.isLive = true then
          (s.busy?.map fun b => if b then Status.busy else .running).getD w.status
        else w.status := by
  have hmove (sources : List Status) (target : Status) :
      (w.transition x.generation sources target).1.generation = w.generation ∧
        (w.transition x.generation sources target).1.status =
          if w.generation = x.generation ∧ w.status ∈ sources then target else w.status := by
    unfold transition setStatus
    split
    · simp only []
      split
      · exact ⟨rfl, by assumption⟩
      · exact ⟨rfl, rfl⟩
    · exact ⟨rfl, rfl⟩
  have hlive := w.status.isLive_iff_mem
  unfold handle
  rw [if_neg (by simp [hd])]
  cases s with
  | busy b =>
    cases b with
    | true =>
      refine ⟨(hmove _ _).1, (hmove _ _).2.trans ?_⟩
      cases hs : w.status <;> simp [Status.isLive, ServerSignal.busy?]
    | false =>
      refine ⟨(hmove _ _).1, (hmove _ _).2.trans ?_⟩
      cases hs : w.status <;> simp [Status.isLive, ServerSignal.busy?]
  | keyPress =>
    simp only []
    split <;> simp [movePump, ServerSignal.busy?]

/-- The end of a pump does not concern the status. -/
theorem endPump_status (w : World) (i : Nat) (x : Pump) :
    (w.endPump i x).status = w.status ∧ (w.endPump i x).generation = w.generation := by
  unfold endPump
  simp only []
  split <;> exact ⟨rfl, rfl⟩

/-- What is handled for the generation of a live session shows in its status, and nothing else
does. -/
theorem shows_of_handle (hd : w.dissolved = false) {x : Pump} {s : ServerSignal}
    (hg : (w.handle i x (.server s)).generation = g)
    (hlive : (w.handle i x (.server s)).status.isLive = true) :
    w.generation = g ∧ w.status.isLive = true ∧ ∀ {told}, w.Shows told →
      (w.handle i x (.server s)).Shows
        (told ++ if x.generation = g then s.busy?.toList else []) := by
  obtain ⟨hgen, hstatus⟩ := w.handle_server_status hd i x s
  have hwg : w.generation = g := hgen.symm.trans hg
  have hbefore : w.status.isLive = true := by
    by_contra hdead
    rw [hstatus, if_neg fun h => hdead h.2] at hlive
    exact hdead hlive
  refine ⟨hwg, hbefore, fun {told} hshows => ?_⟩
  by_cases hown : x.generation = g
  · rw [if_pos ⟨hwg.trans hown.symm, hbefore⟩] at hstatus
    rw [if_pos hown, Shows, hstatus]
    cases s with
    | keyPress => simpa [ServerSignal.busy?, Shows] using hshows
    | busy b => cases b <;> simp [ServerSignal.busy?]
  · rw [if_neg fun h => hown (h.1.symm.trans hwg)] at hstatus
    rw [if_neg hown, List.append_nil, Shows, hstatus]
    exact hshows

/-- When the signals of one client, and of no other, are handled for a generation, its status goes
on to show the last state that was heard from this client. -/
theorem shows_of_pump? (h : w.pump? i = some v) (hd : w.dissolved = false)
    (hpumps : ∀ x ∈ w.pumps, x.client = c ↔ x.generation = g) (hg : v.generation = g)
    (hlive : v.status.isLive = true) :
    w.generation = g ∧ w.status.isLive = true ∧
      ∀ {told}, w.Shows told → v.Shows (told ++ busyStates (hears c w (.run (.pump i)))) := by
  -- A piece that hears nothing leaves the status as it is.
  have hquiet (hstatus : v.status = w.status) (hgen : v.generation = w.generation)
      (hnone : ∀ c, hears c w (.run (.pump i)) = []) :
      w.generation = g ∧ w.status.isLive = true ∧
        ∀ {told}, w.Shows told → v.Shows (told ++ busyStates (hears c w (.run (.pump i)))) := by
    refine ⟨hgen.symm.trans hg, hstatus ▸ hlive, fun {told} hshows => ?_⟩
    rw [hnone, Shows, hstatus]
    simpa [Shows, busyStates] using hshows
  obtain ⟨x, hx, ⟨hp, u, hpressed, rfl⟩ |
    ⟨a, hp, ha, ⟨hbox, -, rfl⟩ | ⟨signal, rest, hbox, rfl⟩⟩⟩ := pump?_cases h
  · have hledger := hpressed.ledger_eq
    exact hquiet (congrArg Ledger.status hledger) (congrArg Ledger.generation hledger)
      (hears_of_none hx (.inl (by rw [hp]; nofun)))
  · obtain ⟨hstatus, hgen⟩ := w.endPump_status i x
    exact hquiet hstatus hgen (hears_of_none hx (.inr ⟨a, ha, by rw [hbox]; rfl⟩))
  · let u : World := w.setClient x.client { a with mailbox := rest }
    cases signal with
    | closed =>
      have hend : u.handle i x .closed = u.endPump i x := by
        unfold handle
        split <;> rfl
      obtain ⟨hstatus, hgen⟩ := u.endPump_status i x
      rw [← hend] at hstatus hgen
      exact hquiet hstatus hgen (hears_of_none hx (.inr ⟨a, ha, by rw [hbox]; rfl⟩))
    | server s =>
      have htold : busyStates (hears c w (.run (.pump i))) =
          if x.generation = g then s.busy?.toList else [] := by
        have hattends := hpumps x (List.mem_of_getElem? hx)
        rw [hears_pump hx hp ha, hbox]
        by_cases hxc : x.client = c
        · rw [if_pos hxc, if_pos (hattends.1 hxc)]
          cases s <;> rfl
        · rw [if_neg hxc, if_neg fun hxg => hxc (hattends.2 hxg)]
          rfl
      rw [htold]
      exact shows_of_handle (w := u) hd hg hlive

namespace Life

/-- Since its generation has begun to run, the status of a live session shows the last state that
was heard from the only client whose signals are handled for it. -/
theorem shows (h : Life start ms w)
    (hpumps : ∀ {n : Nat} {u : World}, start.Moment ms n u → ∀ x ∈ u.pumps,
      x.client = c ↔ x.generation = g)
    (hn : start.Moment ms n v) (hg : v.generation = g) (hlive : v.status.isLive = true) :
    ∃ k late, k < n ∧ start.Runs ms g k ∧
      start.heardFrom c (ms.take n) = start.heardFrom c (ms.take k) ++ late ∧
      v.Shows (busyStates late) := by
  induction n generalizing v with
  | zero =>
    obtain rfl : start = v := Option.some.inj hn.2
    rw [h.fresh.status] at hlive
    cases hlive
  | succ n ih =>
    obtain ⟨u, hu⟩ := hn.pred
    obtain ⟨m, hm, hmove⟩ := hu.step hn
    have hof := h.ofSession m (List.mem_of_getElem? hm)
    have s := (h.moment hu).sound
    have hheard : start.heardFrom c (ms.take (n + 1)) =
        start.heardFrom c (ms.take n) ++ hears c u m := hu.gather_succ _ hm
    -- What happens now comes after what has happened since the generation runs.
    have hnext (hug : u.generation = g) (hul : u.status.isLive = true)
        (hshow : ∀ {told}, u.Shows told → v.Shows (told ++ busyStates (hears c u m))) :
        ∃ k late, k < n + 1 ∧ start.Runs ms g k ∧
          start.heardFrom c (ms.take (n + 1)) = start.heardFrom c (ms.take k) ++ late ∧
          v.Shows (busyStates late) := by
      obtain ⟨k, late, hk, hruns, hlate, hshows⟩ := ih hu hug hul
      refine ⟨k, late ++ hears c u m, Nat.lt_succ_of_lt hk, hruns, ?_, ?_⟩
      · rw [hheard, hlate, List.append_assoc]
      · rw [busyStates_append]
        exact hshow hshows
    by_cases hpump : ∃ i, m = .run (.pump i)
    · obtain ⟨i, rfl⟩ := hpump
      obtain ⟨hug, hul, hshow⟩ := shows_of_pump? hmove s.present (hpumps hu) hg hlive
      exact hnext hug hul hshow
    · have hquiet : hears c u m = [] := by
        unfold hears
        split
        · exact absurd ⟨_, rfl⟩ hpump
        · rfl
      obtain ⟨hgen, hstatus | ⟨hs, hr⟩⟩ :=
        live_of_move? hmove hof s.tenure (fun i hi => hpump ⟨i, hi⟩) hlive
      · refine hnext (hgen.symm.trans hg) (hstatus ▸ hlive) fun {told} hshows => ?_
        rw [hquiet, Shows, hstatus]
        simpa [Shows, busyStates] using hshows
      · refine ⟨n, [], Nat.lt_succ_self n, ?_, ?_, ?_⟩
        · exact ⟨u, v, hu, hn, hs, hr, hgen.symm.trans hg, hg⟩
        · rw [hheard, hquiet]
        · simp [Shows, hr, busyStates]

/-- The client of a live session has an account, and has read a response. -/
theorem account_of_live (h : Life start ms w) (hlive : w.status.isLive = true) :
    ∃ c a q read, w.session.client = some ⟨w.generation, c⟩ ∧ w.clients[c]? = some a ∧
      w.connections[a.connection]? = some q ∧
      Hearing w.config.mailboxRoom a q (start.sentOn a.connection ms) read
        (start.heardFrom c ms) ∧ read.any isResponse = true := by
  obtain ⟨-, c, -, -, -, a, -, hclient, -, -, -, -, -, ha, hstops, -⟩ :=
    h.session_of_status.1 hlive
  have hpumped : c ∈ w.wires.pumps := by
    obtain ⟨x, hx, heq⟩ := List.mem_map.1 ((h.attended h.last).own hclient)
    exact List.mem_map.2 ⟨x, hx, congrArg Prod.fst heq⟩
  obtain ⟨a', q, ha', hq, hread⟩ := (h.accounts h.last).pumped hpumped
  obtain rfl : a = a' := Option.some.inj (ha.symm.trans ha')
  obtain ⟨read, hhearing, hany⟩ := hread hstops
  rw [List.take_length] at hhearing
  exact ⟨c, a, q, read, hclient, ha, hq, hhearing, hany rfl⟩

/-- A live session has a client of its own generation, and the states that its server has sent are
those that were handled while the start was still under way, those handled since the generation
runs, and those still on their way.  The session is busy if and only if the last state handled since
it runs says so.  With nothing on its way, its status is that of the last state that was sent unless
all states were handled while the start was still under way, and the last of them says that the
server is busy. -/
theorem busy_iff (h : Life start ms w) (hlive : w.status.isLive = true) :
    ∃ c a q k early late, w.session.client = some ⟨w.generation, c⟩ ∧ w.clients[c]? = some a ∧
      w.connections[a.connection]? = some q ∧ start.Runs ms w.generation k ∧
      early = busyStates (start.heardFrom c (ms.take k)) ∧
      start.toldOn a.connection ms = early ++ late ++ busyStates (a.pending q) ∧
      (w.status = .busy ↔ late.getLast? = some true) ∧
      (a.pending q = [] →
        ((w.status = .busy ↔ (start.toldOn a.connection ms).getLast? = some true) ↔
          ¬(late = [] ∧ early.getLast? = some true))) := by
  obtain ⟨c, a, q, read, hclient, ha, hq, hhearing, -⟩ := h.account_of_live hlive
  obtain ⟨k, late, -, hruns, hlate, hshows⟩ :=
    h.shows (fun hn x hx => h.attends_iff hclient hn hx) h.last rfl hlive
  have htold : start.toldOn a.connection ms =
      busyStates (start.heardFrom c (ms.take k)) ++ busyStates late ++
        busyStates (a.pending q) := by
    rw [List.take_length] at hlate
    rw [toldOn, hhearing.signals_sent, hlate, busyStates_append, busyStates_append]
  refine ⟨c, a, q, k, _, busyStates late, hclient, ha, hq, hruns, rfl, htold, hshows,
    fun hpending => ?_⟩
  have hnone : busyStates (a.pending q) = [] := by rw [hpending]; rfl
  rw [htold, hnone, List.append_nil, show w.status = .busy ↔ _ from hshows]
  generalize busyStates late = now
  cases hnow : now.getLast? with
  | none =>
    rw [List.getLast?_eq_none_iff] at hnow
    simp [hnow]
  | some b =>
    have hne : now ≠ [] := fun heq => by rw [heq] at hnow; cases hnow
    simp [List.getLast?_append, hnow, hne]

end Life

end World

/-- The server says that it is busy before it tells its version, and this is handled at once. -/
def Trial.hasty : List Move :=
  launching ++ connecting.take 13 ++
    [message "\x7b\"method\":\"powerShell/executionBusyStatus\",\"params\":true\x7d",
      .run (.reading 0), .run (.reading 0), .run (.pump 0)] ++ connecting.drop 13

namespace World

/-- A session runs although its server has said that it is busy, and nothing else. -/
theorem busy_hasty_trial :
    ∃ w c a q k early, Trial.start.Life Trial.hasty w ∧ w.status = .running ∧
      w.session.client = some ⟨w.generation, c⟩ ∧ w.clients[c]? = some a ∧
      w.connections[a.connection]? = some q ∧ a.pending q = [] ∧
      Trial.start.toldOn a.connection Trial.hasty = [true] ∧
      Trial.start.Runs Trial.hasty w.generation k ∧
      early = busyStates (Trial.start.heardFrom c (Trial.hasty.take k)) ∧ early = [true] := by
  have hrun : (Trial.start.play? Trial.hasty).any (fun w =>
      w.status == .running && w.session.client.any (·.value == 0) &&
        w.clients[0]?.any fun a => a.connection == 0 &&
          w.connections[0]?.any fun q => (a.pending q).length == 0) = true := by
    decide +kernel
  have htold : Trial.start.toldOn 0 Trial.hasty = [true] := by decide +kernel
  obtain ⟨w, hplay, hw⟩ := (Option.any_eq_true _ _).1 hrun
  simp only [Bool.and_eq_true, beq_iff_eq, Option.any_eq_true, List.length_eq_zero_iff] at hw
  obtain ⟨⟨hs, s, hclient, hvalue⟩, a, ha, hconnection, q, hq, hpending⟩ := hw
  have hlife := Trial.life hplay (by decide)
  obtain ⟨c, a', q', k, early, late, hclient', ha', hq', hruns, hearly, hsent, hbusy, hlast⟩ :=
    hlife.busy_iff (by rw [hs]; rfl)
  obtain rfl : s = ⟨w.generation, c⟩ := Option.some.inj (hclient.symm.trans hclient')
  obtain rfl : c = 0 := hvalue
  obtain rfl : a' = a := Option.some.inj (ha'.symm.trans ha)
  rw [← hconnection] at htold hq
  obtain rfl : q' = q := Option.some.inj (hq'.symm.trans hq)
  -- The session is not busy, so its status disagrees with the only state that was sent.
  obtain ⟨rfl, -⟩ : late = [] ∧ early.getLast? = some true := by
    by_contra hnot
    have hagrees := (hlast hpending).2 hnot
    rw [hs, htold] at hagrees
    cases hagrees.2 rfl
  rw [htold, hpending] at hsent
  refine ⟨w, 0, a', q', k, early, hlife, hs, hclient, ha, hq, hpending, htold, hruns, hearly, ?_⟩
  simpa [busyStates] using hsent.symm

end World

end SessionHost
