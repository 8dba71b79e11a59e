import SessionHost.Proofs.Lifecycle.Stops

/-!
# A stop takes effect

Several activities compete for what is in the session: a stop, other stops that wait for it, the
end of a start that fails, the watch over an exit, and the next start.  Whoever takes a part of
the session takes it alone, and nobody puts it back; and once a stop has returned, everything
stored before it is gone.  A stop calls its start off before it takes the session, and a start
looks whether it was called off behind the same lock behind which it stores: so what it stores is
either seen by the stop or not stored at all.

Main definitions:

- `Session.part?`: the process and the client in the session.
- `World.TakenAt`: an activity takes a part out of the session.

Main results:

- Theorem `World.part?_of_move?`: no part is put in the place of another one.
- Theorem `World.Life.taken_unique`: a part is taken once.
- Theorem `World.Life.stop_takes_effect`: what holds once a stop has returned.
-/

namespace SessionHost

/-! ## Parts -/

/-- The process or the client in the session. -/
def Session.part? (s : Session) : Slot → Option (Stored Nat)
  | .process => s.process
  | .client => s.client
  | _ => none

theorem Session.origin?_of_part? {s : Session} {k : Slot} {x : Stored Nat}
    (h : s.part? k = some x) : s.origin? k = some x.generation := by
  cases k with
  | process => exact congrArg (Option.map Stored.generation) (show s.process = some x from h)
  | client => exact congrArg (Option.map Stored.generation) (show s.client = some x from h)
  | _ => cases h

theorem Session.origin?_of_part?_none {s : Session} {k : Slot}
    (hk : k = .process ∨ k = .client) (h : s.part? k = none) : s.origin? k = none := by
  rcases hk with rfl | rfl
  · exact congrArg (Option.map Stored.generation) (show s.process = none from h)
  · exact congrArg (Option.map Stored.generation) (show s.client = none from h)

/-- Only two slots have parts that somebody has to take care of. -/
theorem Session.slot_of_part? {s : Session} {k : Slot} {x : Stored Nat}
    (h : s.part? k = some x) : k = .process ∨ k = .client := by
  cases k with
  | process => exact .inl rfl
  | client => exact .inr rfl
  | _ => cases h

/-- Apart from what a start stores, parts are only taken away. -/
theorem Posting.part?_cases {own : Option Nat} {l l' : Ledger} (h : Posting own l l') (k : Slot) :
    l'.session.part? k = l.session.part? k ∨ l'.session.part? k = none := by
  cases h with
  | takeLive => exact .inr (by cases k <;> rfl)
  | setDebug d => exact .inl (by cases k <;> rfl)
  | _ => exact .inl rfl

theorem Writings.part?_cases {own : Option Nat} {l l' : Ledger} (h : Writings own l l')
    (k : Slot) : l'.session.part? k = l.session.part? k ∨ l'.session.part? k = none := by
  refine h.keeps (P := fun u => u.session.part? k = l.session.part? k ∨ u.session.part? k = none)
    (fun u v hu hposting => ?_) (fun u v hu hamendment => ?_) (.inl rfl)
  · rcases hposting.part?_cases k with hv | hv
    · rw [hv]
      exact hu
    · exact .inr hv
  · cases hamendment <;> exact hu

namespace World

variable {v w : World}

/-- A start stores a process or a client where nothing is. -/
theorem part?_of_store (s : Sound w.outline) {i : Nat} {place : Starting} {next : List Phase}
    (hi : w.calls[i]? = some (.active (.phased (.starting place) next))) {l : Ledger}
    (h : Store w.ledger place l) (k : Slot) :
    l.session.part? k = w.session.part? k ∨ w.session.part? k = none := by
  have hr := roles_of_active hi
  cases h with
  | @adopt a exe p hc watches hw =>
    obtain ⟨hg, hs⟩ := (s.tenure.admits hr rfl).2 hc
    have hv : w.session.Vacant :=
      s.slots.fits hr rfl (hg ▸ Outline.claim?_of_starting hs)
    cases k with
    | process => exact .inr hv.1
    | _ => exact .inl rfl
  | @keep a c hc =>
    obtain ⟨hg, hs⟩ := (s.tenure.admits hr rfl).2 hc
    have hfits : (Milestone.opening c).Fits a.generation w.session :=
      s.slots.fits hr rfl (hg ▸ Outline.claim?_of_starting hs)
    cases k with
    | client => exact .inr hfits.2
    | _ => exact .inl rfl
  | record | note | conclude => exact .inl (by cases k <;> rfl)

/-- A move takes a part away, or stores one where nothing was; it never puts one in the place of
another one. -/
theorem part?_of_move? {m : Move} (h : w.move? m = some v) (hm : m.ofSession = true)
    (s : Sound w.outline) (k : Slot) :
    v.session.part? k = w.session.part? k ∨ v.session.part? k = none ∨
      w.session.part? k = none := by
  have hchange := move?_change h hm
  change v.ledger.session.part? k = _ ∨ v.ledger.session.part? k = _ ∨ _
  generalize v.ledger = l at hchange ⊢
  cases hchange with
  | @call i job l' hm hi hw c =>
    obtain ⟨l₀, hl₀, hwritings⟩ := hw
    have hfirst : l₀.session.part? k = w.session.part? k ∨ w.session.part? k = none := by
      rcases hl₀ with rfl | ⟨place, next, rfl, hstore⟩
      · exact .inl rfl
      · exact part?_of_store s hi hstore k
    rcases hfirst with hfirst | hfirst
    · rcases hwritings.part?_cases k with hlast | hlast
      · exact .inl (hlast.trans hfirst)
      · exact .inr (.inl hlast)
    · exact .inr (.inr hfirst)
  | release _ _ _ hl | report _ _ _ hl =>
    rcases (Writings.of_postings hl).part?_cases k with hlast | hlast
    · exact .inl hlast
    · exact .inr (.inl hlast)
  | _ => exact .inl rfl

/-- Only an activity of the session changes what is in it. -/
theorem runs_of_session_ne {m : Move} (h : w.move? m = some v) (hm : m.ofSession = true)
    (hne : v.session ≠ w.session) : ∃ r, m = .run r := by
  have hchange := move?_change h hm
  change v.ledger.session ≠ w.ledger.session at hne
  generalize v.ledger = l at hchange hne
  cases hchange with
  | call hm hi hw c => exact ⟨_, hm⟩
  | release hm hx hp hl r' => exact ⟨_, hm⟩
  | report hm hx hp hl notice => exact ⟨_, hm⟩
  | _ => exact absurd rfl hne

end World

/-! ## Clients are stopped once -/

/-- Taking the live parts stops a client that was not stopped before. -/
theorem Outline.takeLive_stops_le {o : Outline} (k : Clients o) (h : ∀ n ∈ o.stops, n ≤ 1) :
    ∀ n ∈ o.takeLive.stops, n ≤ 1 := by
  intro n hn
  simp only [takeLive] at hn
  cases hc : o.session.client with
  | none =>
    rw [hc] at hn
    exact h n hn
  | some c =>
    rw [hc] at hn
    simp only [modify_eq_set_of_some (k.stored (g := c.generation) hc)] at hn
    rcases List.mem_or_eq_of_mem_set hn with hn | rfl
    · exact h n hn
    · exact Nat.le_refl _

/-- No client is stopped twice. -/
theorem Rule.stops_le {a : Actor} {o o' : Outline} (h : Rule a o o') (k : Clients o)
    (hle : ∀ n ∈ o.stops, n ≤ 1) : ∀ n ∈ o'.stops, n ≤ 1 := by
  cases h with
  | empty hr | clear hr h | retract hr h | seize hx hv h => exact o.takeLive_stops_le k hle
  | connect hr =>
    intro n hn
    rcases List.mem_append.1 hn with hn | hn
    · exact hle n hn
    · obtain rfl := List.mem_singleton.1 hn
      exact Nat.zero_le _
  | drop | endDebug | dropWatch =>
    simpa [Outline.setRole, Outline.setVigil, Outline.withoutDebug] using hle
  | endStop hr | endFailed hr | conclude hr h v =>
    rw [Outline.transition]
    split <;> exact hle
  | adopt hr hq h =>
    rw [Outline.watchExit]
    split <;> exact hle
  | withdraw hr => split <;> exact hle
  | _ => exact hle

/-- A start, up to the handshake of its server, and a stop that runs until it returns. -/
def Trial.stopping : List Move := Trial.launching ++ Trial.claimingStop ++ [.run (.call 1)]

namespace World

variable {start v w u : World} {ms : List Move} {k : Slot} {x : Stored Nat} {n d : Nat}

/-! ## Who takes a part -/

/-- The move with this number takes a part out of the session; an activity does that. -/
def TakenAt (start : World) (ms : List Move) (k : Slot) (x : Stored Nat) (n : Nat) : Prop :=
  ∃ a b r, start.Moment ms n a ∧ start.Moment ms (n + 1) b ∧ ms[n]? = some (.run r) ∧
    a.session.part? k = some x ∧ b.session.part? k ≠ some x

/-- What was in the session at one moment and is not there at a later one was taken in between. -/
theorem Life.exists_taken (h : Life start ms w) (hn : start.Moment ms n v)
    (hd : start.Moment ms d u) (hle : n ≤ d) (hv : v.session.part? k = some x)
    (hu : u.session.part? k ≠ some x) : ∃ j, n ≤ j ∧ j < d ∧ start.TakenAt ms k x j := by
  induction d generalizing u with
  | zero =>
    obtain rfl := Nat.le_zero.1 hle
    exact absurd (hn.unique hd ▸ hv) hu
  | succ d ih =>
    rcases Nat.lt_or_eq_of_le hle with hlt | rfl
    · obtain ⟨b, hb⟩ := hd.pred
      by_cases hx : b.session.part? k = some x
      · obtain ⟨m, hm, hmove⟩ := hb.step hd
        have hne : u.session ≠ b.session := fun heq => hu (heq ▸ hx)
        obtain ⟨r, rfl⟩ := runs_of_session_ne hmove (h.ofSession m (List.mem_of_getElem? hm)) hne
        exact ⟨d, Nat.le_of_lt_succ hlt, Nat.lt_succ_self d, b, u, r, hb, hd, hm, hx, hu⟩
      · obtain ⟨j, hnj, hjd, htaken⟩ := ih hb (Nat.le_of_lt_succ hlt) hx
        exact ⟨j, hnj, Nat.lt_succ_of_lt hjd, htaken⟩
    · exact absurd (hn.unique hd ▸ hv) hu

/-- What is in the session was stored for the last time. -/
theorem Life.once (h : Life start ms w) (hn : start.Moment ms n v) : v.outline.Once := by
  obtain ⟨s, hs⟩ := hn.exists_le (Nat.zero_le n)
  obtain rfl : start = s := Option.some.inj hs.2
  have hstart : start.outline.Once := by
    intro k g hk
    have hvacant : start.session.Vacant := by
      rw [h.fresh.session]
      exact ⟨rfl, rfl, rfl, rfl⟩
    rw [show start.outline.session.origin? k = none from hvacant.origin? k] at hk
    cases hk
  exact h.keeps (fun ho hp hrule => hrule.once ho.tenure ho.slots hp) hs hn (Nat.zero_le n) hstart

/-- What was taken out of the session has left it for good. -/
theorem Life.departed (h : Life start ms w) {j : Nat} (hj : start.TakenAt ms k x j)
    (hn : start.Moment ms n v) (hjn : j < n) : v.session.part? k ≠ some x := by
  obtain ⟨a, b, r, ha, hb, hm, hax, hbx⟩ := hj
  obtain ⟨m, hm', hmove⟩ := ha.step hb
  have hof : m.ofSession = true := h.ofSession m (List.mem_of_getElem? hm')
  have hpart : b.session.part? k = none := by
    rcases part?_of_move? hmove hof (h.moment ha).sound k with hsame | hnone | hnone
    · exact absurd (hsame.trans hax) hbx
    · exact hnone
    · rw [hnone] at hax
      cases hax
  have hpast : b.outline.Past k x.generation :=
    h.keeps (P := fun o => o.Past k x.generation) (fun _ hp hrule => hrule.past hp) ha hb
      (Nat.le_succ j) (h.once ha k _ (Session.origin?_of_part? hax))
  have hdeparted : b.outline.Departed k x.generation := by
    refine ⟨hpast, fun horigin => ?_⟩
    rw [show b.outline.session.origin? k = none from
      Session.origin?_of_part?_none (Session.slot_of_part? hax) hpart] at horigin
    cases horigin
  have hlast : v.outline.Departed k x.generation :=
    h.keeps (fun ho hp hrule => hrule.departed ho.tenure ho.slots hp) hb hn hjn hdeparted
  exact fun hv => hlast.2 (Session.origin?_of_part? hv)

/-- A part of the session is taken by one piece of one activity. -/
theorem Life.taken_unique (h : Life start ms w) {j j' : Nat} (hj : start.TakenAt ms k x j)
    (hj' : start.TakenAt ms k x j') : j = j' := by
  have hlt : ∀ {i i' : Nat}, start.TakenAt ms k x i → start.TakenAt ms k x i' → ¬i < i' := by
    intro i i' hi hi' hlt
    have hleft := hi'
    obtain ⟨a, b, r, ha, -, -, hax, -⟩ := hleft
    exact h.departed hi ha hlt hax
  have h₁ := hlt hj hj'
  have h₂ := hlt hj' hj
  omega

/-! ## What a stop achieves -/

/-- When a stop returns, everything that was in the session when it was asked for, and everything
that earlier generations or the present one have stored before and after, has left the session;
its process and its client were each taken by exactly one piece of one activity.  At every moment
no client was stopped twice, and no move puts a process or a client in the place of another one.
A start that was called off stores nothing: what is of its generation in the session was there
before. -/
theorem Life.stop_takes_effect (h : Life start ms w) :
    (∀ {n d i : Nat} {v u u' : World} {command : Command}, n ≤ d → start.Moment ms n v →
      v.calls[i]? = some (.active (.fresh command)) → start.Moment ms d u → u.StopReturns i →
      ms[d]? = some (.run (.call i)) → start.Moment ms (d + 1) u' →
        (∀ k g, u'.session.origin? k = some g → v.generation < g) ∧
        ∀ {k : Slot} {x : Stored Nat} {m : Nat} {a : World}, start.Moment ms m a →
          a.session.part? k = some x → x.generation ≤ v.generation →
          ∃ j, j ≤ d ∧ start.TakenAt ms k x j ∧ ∀ j', start.TakenAt ms k x j' → j' = j) ∧
    (∀ c ∈ w.clients, c.stops ≤ 1) ∧
    (∀ {n : Nat} {a b : World} (k : Slot) {x : Stored Nat}, start.Moment ms n a →
      start.Moment ms (n + 1) b → a.session.part? k = some x →
      b.session.part? k = some x ∨ b.session.part? k = none) ∧
    ∀ {n d g : Nat} {a b : World}, n ≤ d → start.Moment ms n a → start.Moment ms d b →
      .start g ∈ a.cancelled →
      ∀ k, b.session.origin? k = some g → a.session.origin? k = some g := by
  refine ⟨fun {n d i v u u' command} hnd hv hfresh hu hreturn hm hu' => ?_, ?_, ?_, ?_⟩
  · -- The stop's call is followed from the moment at which it was asked for.
    have hbegin : StopUnderWay v.generation i v :=
      ⟨Nat.le_refl _, _, hfresh, fun job hjob _ => .inl ⟨command, by simpa using hjob.symm⟩⟩
    have hway : StopUnderWay v.generation i u :=
      h.induction (fun hof hmove s => StopUnderWay.step hmove hof s) hv hu hnd hbegin
    obtain ⟨m, hm', hmove⟩ := hu.step hu'
    obtain rfl : m = .run (.call i) := Option.some.inj (hm'.symm.trans hm)
    have hswept : u'.outline.Swept v.generation := hway.swept hmove (h.moment hu).sound hreturn
    refine ⟨fun k g hk => hswept.left hk, fun {k x m a} ha hax hx => ?_⟩
    have hgone : u'.session.part? k ≠ some x := by
      intro hpart
      have hlt := hswept.left (Session.origin?_of_part? hpart)
      omega
    -- Nothing of these generations is stored after the stop.
    have hmd : m ≤ d := by
      by_contra hlt
      have hswept' : a.outline.Swept v.generation :=
        h.keeps swept_of_rule hu' ha (by omega) hswept
      have hlt' := hswept'.left (Session.origin?_of_part? hax)
      omega
    obtain ⟨j, -, hjd, htaken⟩ := h.exists_taken ha hu' (by omega) hax hgone
    exact ⟨j, Nat.le_of_lt_succ hjd, htaken, fun j' hj' => h.taken_unique hj' htaken⟩
  · intro c hc
    have hstops : ∀ n ∈ w.outline.stops, n ≤ 1 := by
      refine (play?_keeps (P := fun o => ∀ n ∈ o.stops, n ≤ 1)
        (fun ho hp hrule => hrule.stops_le ho.clients hp) h.play h.ofSession h.fresh.sound ?_).2
      rw [h.fresh.outline_eq]
      simp
    exact hstops _ (List.mem_map_of_mem hc)
  · intro n a b k x ha hb hax
    obtain ⟨m, hm, hmove⟩ := ha.step hb
    have hof : m.ofSession = true := h.ofSession m (List.mem_of_getElem? hm)
    rcases part?_of_move? hmove hof (h.moment ha).sound k with hsame | hnone | hnone
    · exact .inl (hsame.trans hax)
    · exact .inr hnone
    · rw [hnone] at hax
      cases hax
  · intro n d g a b hnd ha hb hcancelled
    have hbarred : a.outline.Barred a.session g := ⟨hcancelled, fun k => id⟩
    exact (h.keeps (fun ho hp hrule => hrule.barred ho.tenure ho.slots hp) ha hb hnd hbarred).2

/-- A stop that finds no client comes to its end at once. -/
theorem stop_taking_of_none (h : w.session.client = none) :
    ∃ v, w.stop .taking = .finished v .done := by
  simp only [stop, h, Option.map_none]
  exact ⟨_, rfl⟩

/-- A stop finds a process in the session while its start is still looking for the handshake; when
it has returned, the process is gone, and one piece of one activity has taken it. -/
theorem stop_takes_effect_trial :
    ∃ v u u' w, Trial.start.Life Trial.stopping w ∧ Trial.start.Moment Trial.stopping 13 v ∧
      v.calls[1]? = some (.active (.fresh .stop)) ∧ Trial.start.Moment Trial.stopping 14 u ∧
      u.StopReturns 1 ∧ Trial.start.Moment Trial.stopping 15 u' ∧
      v.session.part? .process = some ⟨1, 0⟩ ∧
      (∀ k g, u'.session.origin? k = some g → v.generation < g) ∧
      ∃ j, j ≤ 14 ∧ Trial.start.TakenAt Trial.stopping .process ⟨1, 0⟩ j ∧
        ∀ j', Trial.start.TakenAt Trial.stopping .process ⟨1, 0⟩ j' → j' = j := by
  have hrun : (Trial.start.play? Trial.stopping).isSome = true := by decide +kernel
  obtain ⟨w, hplay⟩ := Option.isSome_iff_exists.1 hrun
  have hlife := Trial.life hplay (by decide)
  obtain ⟨x, hx⟩ := hlife.exists_moment (n := 12) (by decide)
  obtain ⟨v, hv⟩ := hlife.exists_moment (n := 13) (by decide)
  obtain ⟨u, hu⟩ := hlife.exists_moment (n := 14) (by decide)
  obtain ⟨u', hu'⟩ := hlife.exists_moment (n := 15) (by decide)
  have hlength : (Trial.start.play? (Trial.stopping.take 12)).any (fun x =>
      x.calls.length == 1) = true := by decide +kernel
  rw [hx.2, Option.any_some, beq_iff_eq] at hlength
  have hstate : (Trial.start.play? (Trial.stopping.take 13)).any (fun v =>
      v.status == .starting && v.generation == 1 &&
        v.session.process.any fun p => p.generation == 1 && p.value == 0) = true := by
    decide +kernel
  rw [hv.2] at hstate
  simp only [Option.any_some, Bool.and_eq_true, beq_iff_eq, Option.any_eq_true] at hstate
  obtain ⟨⟨hs, hg⟩, ⟨g, p⟩, hprocess, rfl, rfl⟩ := hstate
  have hclient : (Trial.start.play? (Trial.stopping.take 14)).any (fun u =>
      u.session.client.isNone) = true := by decide +kernel
  rw [hu.2, Option.any_some, Option.isNone_iff_eq_none] at hclient
  have hfresh : v.calls[1]? = some (.active (.fresh .stop)) := by
    obtain ⟨m, hm, hmove⟩ := hx.step hv
    obtain rfl : .ask .stop = m := Option.some.inj hm
    cases moves_of_move? hmove
    rw [← hlength]
    exact List.getElem?_concat_length
  -- The stop claims the status, and is about to take the session.
  have hplace : u.calls[1]? = some (.active (.phased (.stopping .taking) [])) := by
    obtain ⟨m, hm, hmove⟩ := hv.step hu
    obtain rfl : .run (.call 1) = m := Option.some.inj hm
    obtain ⟨job, hjob, hpiece⟩ := call?_cases hmove
    cases hfresh.symm.trans hjob
    have hclaims : v.call (.fresh .stop) =
        .going ((v.setStatus .stopping).cancel (.start v.generation))
          (.phased (.stopping .taking) []) := by
      simp only [call, beginCall, runPhases, beginPhase, beginStop, hs, Progress.andThen_going]
    have hcalls := v.call_calls (.fresh .stop)
    rw [hclaims] at hpiece hcalls
    obtain ⟨y, job', heq, rfl⟩ | ⟨y, r, heq, -⟩ := hpiece
    · cases heq
      exact List.getElem?_set_self (hcalls.symm ▸ (List.getElem?_eq_some_iff.1 hjob).1)
    · cases heq
  obtain ⟨y, hdone⟩ := stop_taking_of_none hclient
  have hstop : u.StopReturns 1 := ⟨.taking, [], y, hplace, hdone, by simp⟩
  obtain ⟨hleft, htaken⟩ :=
    hlife.stop_takes_effect.1 (by decide) hv hfresh hu hstop rfl hu'
  exact ⟨v, u, u', w, hlife, hv, hfresh, hu, hstop, hu', hprocess, hleft,
    htaken hv hprocess (Nat.le_of_eq hg.symm)⟩

end World

end SessionHost
