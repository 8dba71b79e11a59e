import SessionHost.Proofs.Ledger.Trace
import SessionHost.Proofs.Lifecycle.Storage

/-!
# Notices that come late

A watch that has seen its session lose its console first moves the status to failed, then clears
away what the session has left, and only then sends its notice.  While it clears away, a caller may
begin a new generation, and the notice then comes after the beginning of that generation has been
told.  This is the only way in which a notice comes late, and the failure itself never does.

Main definitions:

- `World.Falls`: a move with which a live session loses its console.
- `World.Begins`: a move with which a call begins a generation.

Main results:

- Theorem `World.Life.begun_between`: the events between two moments tell which generations have
  begun between them.
- Theorem `World.Life.exists_falls`: a watch that clears away has ended its own generation before.
- Theorem `World.Life.notice_late_iff`: when a notice comes after a later generation has begun.
-/

namespace SessionHost

/-! ## The beginnings that are told -/

/-- A step tells of the generation that it begins, if it begins one. -/
theorem Tick.begins {own : Option Nat} {c c' : Course} (h : Tick own c c') :
    ∃ more, c'.news = c.news ++ more ∧
      ∀ g, Event.statusChanged g .starting ∈ more ↔ c.generation < g ∧ g ≤ c'.generation := by
  cases h with
  | claimStart h =>
    refine ⟨_, rfl, fun g => ?_⟩
    simp only [List.mem_singleton, Event.statusChanged.injEq, and_true]
    omega
  | claimStop h h' | endStop h | run h hs | fail h hs notice | busy h hs | idle h hs
  | fall h hs hr | report h notice hr =>
    exact ⟨_, rfl, fun g => iff_of_false (by simp) fun hg => Nat.not_lt.2 hg.2 hg.1⟩

/-- A chain of steps tells of all generations that it begins, and of no other. -/
theorem Ticks.begins {own : Option Nat} {c c' : Course} (h : Ticks own c c') :
    ∃ more, c'.news = c.news ++ more ∧
      ∀ g, Event.statusChanged g .starting ∈ more ↔ c.generation < g ∧ g ≤ c'.generation := by
  induction h with
  | refl =>
    refine ⟨[], (List.append_nil _).symm, fun g => iff_of_false (by simp) fun hg => ?_⟩
    exact Nat.not_lt.2 hg.2 hg.1
  | @tail d d' hchain htick ih =>
    obtain ⟨es, hes, hmem⟩ := ih
    obtain ⟨more, hmore, hmem'⟩ := htick.begins
    have hle := (Ticks.tells hchain).1
    have hle' := htick.tells.1
    refine ⟨es ++ more, by rw [hmore, hes, List.append_assoc], fun g => ?_⟩
    rw [List.mem_append, hmem, hmem']
    omega

/-! ## Watches that clear away -/

/-- A piece of a call does not make a watch clear away. -/
theorem Job.Writes.releasing {job : Job} {l l' : Ledger} (h : job.Writes l l') {j : Nat} {x : Watch}
    (hx : l'.watches[j]? = some x) (hp : x.place.isReleasing = true) : l.watches[j]? = some x := by
  obtain ⟨m, hm, hwritings⟩ := h
  rw [hwritings.watches_eq] at hx
  rcases hm with rfl | ⟨place, next, -, hstore⟩
  · exact hx
  · cases hstore with
    | @adopt a exe p hc watches hw =>
      rcases Nat.lt_or_ge j l.watches.length with hj | hj
      · rwa [List.getElem?_append_left hj] at hx
      · rw [List.getElem?_append_right hj] at hx
        rw [(hw x (List.mem_of_getElem? hx)).2] at hp
        cases hp
    | _ => exact hx

/-- A live session of the generation loses its console. -/
structure Ledger.Falls (l : Ledger) (g : Nat) (l' : Ledger) : Prop where
  generation : l.generation = g
  live : l.status.isLive = true
  status : l'.status = .failed
  generation' : l'.generation = g
  news : l'.news = l.news ++ [.statusChanged g .failed]

/-- A watch that clears away has done so before, or has just seen its session lose its console. -/
theorem Change.releasing {m : Move} {l l' : Ledger} (h : Change m l l') {j : Nat} {x : Watch}
    (hx : l'.watches[j]? = some x) (hp : x.place.isReleasing = true) :
    (∃ y, l.watches[j]? = some y ∧ y.generation = x.generation ∧ y.place.isReleasing = true) ∨
      m = .run (.watch j) ∧ l.Falls x.generation l' := by
  cases h with
  | call hm hi hw c => exact .inl ⟨x, hw.releasing hx hp, rfl, hp⟩
  | @fall k y hm hy hplace hg hs e =>
    rcases getElem?_set_cases hx with ⟨rfl, rfl⟩ | ⟨-, hx⟩
    · exact .inr ⟨hm, hg, hs, rfl, hg, by rw [hg]⟩
    · exact .inl ⟨x, hx, rfl, hp⟩
  | @ignore k y hm hy hplace =>
    rcases getElem?_set_cases hx with ⟨rfl, rfl⟩ | ⟨-, hx⟩
    · cases hp
    · exact .inl ⟨x, hx, rfl, hp⟩
  | @release k y e r l' hm hy hplace hl r' =>
    rw [hl.watches_eq] at hx
    rcases getElem?_set_cases hx with ⟨rfl, rfl⟩ | ⟨-, hx⟩
    · exact .inl ⟨y, hy, rfl, by rw [hplace]; rfl⟩
    · exact .inl ⟨x, hx, rfl, hp⟩
  | @report k y e r l' hm hy hplace hl notice =>
    rw [hl.watches_eq] at hx
    rcases getElem?_set_cases hx with ⟨rfl, rfl⟩ | ⟨-, hx⟩
    · cases hp
    · exact .inl ⟨x, hx, rfl, hp⟩
  | _ => exact .inl ⟨x, hx, rfl, hp⟩

/-! ## Notices -/

theorem Writings.no_loss {own : Option Nat} {l l' : Ledger} (h : Writings own l l') :
    ∃ more, l'.news = l.news ++ more ∧ ∀ g notice, Event.unexpectedExit g notice ∉ more :=
  h.keeps
    (P := fun u => ∃ more, u.news = l.news ++ more ∧
      ∀ g notice, Event.unexpectedExit g notice ∉ more)
    (fun u v hu hposting => by
      obtain ⟨more, hmore, hnone⟩ := hu
      cases hposting with
      | callOff | setDebug | takeLive => exact ⟨more, hmore, hnone⟩
      | claimStart | claimStop | endStop | run | fail =>
        refine ⟨_, by rw [hmore, List.append_assoc], fun g notice hmem => ?_⟩
        simp [hnone g notice] at hmem)
    (fun _ _ hu hamendment => by cases hamendment <;> exact hu)
    ⟨[], (List.append_nil _).symm, fun _ _ => List.not_mem_nil⟩

/-- Whoever sends a notice is a watch that clears away, and its generation is that of the
notice. -/
theorem Change.sends {m : Move} {l l' : Ledger} (h : Change m l l') {g : Nat} {notice : Notice}
    (hsent : l'.news = l.news ++ [.unexpectedExit g notice]) :
    ∃ j x, m = .run (.watch j) ∧ l.watches[j]? = some x ∧ x.generation = g ∧
      x.place.isReleasing = true := by
  have hnone {es : List Event} (hes : ∀ g notice, Event.unexpectedExit g notice ∉ es)
      (heq : l.news ++ es = l.news ++ [.unexpectedExit g notice]) : False := by
    rw [List.append_cancel_left heq] at hes
    exact hes g notice (List.mem_singleton_self _)
  cases h with
  | @call i job l' hm hi hw c =>
    obtain ⟨u, hu, hwritings⟩ := hw
    obtain ⟨more, hmore, hes⟩ := hwritings.no_loss
    have hnews : u.news = l.news := by
      rcases hu with rfl | ⟨place, next, -, hstore⟩
      · rfl
      · cases hstore <;> rfl
    exact (hnone hes (by rw [← hnews, ← hmore, hnews]; exact hsent)).elim
  | @report j x e r l' hm hx hp hl notice' =>
    obtain ⟨more, hmore, hes⟩ := (Writings.of_postings hl).no_loss
    refine ⟨j, x, hm, hx, ?_, by rw [hp]; rfl⟩
    change l'.news ++ [.unexpectedExit x.generation notice'] = _ at hsent
    obtain ⟨-, heq⟩ := List.append_inj' hsent rfl
    exact (Event.unexpectedExit.inj (List.cons.inj heq).1).1
  | @release j x e r l' hm hx hp hl r' =>
    obtain ⟨more, hmore, hes⟩ := (Writings.of_postings hl).no_loss
    exact (hnone hes (by rw [← hmore]; exact hsent)).elim
  | fall | busy | idle =>
    exact (hnone (by simp) hsent).elim
  | _ =>
    have hnil : l.news ++ [] = l.news ++ [.unexpectedExit g notice] := by
      rw [List.append_nil]
      exact hsent
    exact (hnone (by simp) hnil).elim

/-- Only a call begins a generation. -/
theorem Rule.generation_eq {a : Actor} {o o' : Outline} (h : Rule a o o') (ha : ∀ i, a ≠ .call i) :
    o'.generation = o.generation := by
  cases h with
  | dropWatch hx hv => exact o.dispose_generation _
  | claimStart hr h => exact absurd rfl (ha _)
  | _ => first | rfl | exact absurd rfl (ha _)

namespace World

variable {start a b w : World} {ms : List Move} {n k : Nat}

/-- Only a piece of a call begins a generation. -/
theorem exists_call_of_generation_ne {m : Move} (h : a.move? m = some b) (hm : m.ofSession = true)
    (s : Sound a.outline) (hne : b.generation ≠ a.generation) : ∃ i, m = .run (.call i) := by
  by_contra hnone
  have hactor (i : Nat) : m.actor ≠ .call i := by
    unfold Move.actor
    split
    · rename_i j
      exact absurd ⟨j, rfl⟩ hnone
    · nofun
    · nofun
  have hleads := move?_leads h hm s.tenure.inside s.present
  exact hne (hleads.keeps (P := fun o => o.generation = a.generation)
    (fun _ _ ho hrule => (hrule.generation_eq hactor).trans ho) rfl)

/-- The move with which a watch sees a live session of its generation lose its console. -/
def Falls (start : World) (ms : List Move) (k j g : Nat) : Prop :=
  ms[k]? = some (.run (.watch j)) ∧
    ∃ u v, start.Moment ms k u ∧ start.Moment ms (k + 1) v ∧ u.ledger.Falls g v.ledger

/-- The move with which a call begins a generation. -/
def Begins (start : World) (ms : List Move) (i g : Nat) : Prop :=
  ∃ c u v, ms[i]? = some (.run (.call c)) ∧ start.Moment ms i u ∧ start.Moment ms (i + 1) v ∧
    u.generation < g ∧ g ≤ v.generation

namespace Life

/-- The generations whose beginnings are told between two moments are those that have begun
between them. -/
theorem begun_between (h : Life start ms w) (hn : start.Moment ms n a) (hk : start.Moment ms k b)
    (hle : n ≤ k) :
    a.generation ≤ b.generation ∧ ∃ more, b.news = a.news ++ more ∧
      ∀ g, Event.statusChanged g .starting ∈ more ↔ a.generation < g ∧ g ≤ b.generation := by
  refine h.induction (P := fun u => a.generation ≤ u.generation ∧
    ∃ more, u.news = a.news ++ more ∧
      ∀ g, Event.statusChanged g .starting ∈ more ↔ a.generation < g ∧ g ≤ u.generation)
    (fun {u v m} hm hmove s hu => ?_) hn hk hle
    ⟨Nat.le_refl _, [], (List.append_nil _).symm, fun g => iff_of_false (by simp) fun hg =>
      Nat.not_lt.2 hg.2 hg.1⟩
  obtain ⟨hgen, es, hes, hmem⟩ := hu
  obtain ⟨own, hticks, -⟩ := follows_of_change (move?_change hmove hm) s.tenure
  have hgen' : u.generation ≤ v.generation := hticks.tells.1
  obtain ⟨more, hmore, hmem'⟩ := hticks.begins
  refine ⟨Nat.le_trans hgen hgen', es ++ more, ?_, fun g => ?_⟩
  · rw [← List.append_assoc, ← hes]
    exact hmore
  · rw [List.mem_append, hmem, hmem']
    change _ ∨ u.generation < g ∧ g ≤ v.generation ↔ _
    omega

/-- A generation that has begun between two moments was begun by a move between them. -/
theorem exists_begins (h : Life start ms w) (hn : start.Moment ms n a)
    (hk : start.Moment ms k b) (hle : n ≤ k) {g : Nat} (hg : a.generation < g)
    (hg' : g ≤ b.generation) : ∃ i, n ≤ i ∧ i < k ∧ start.Begins ms i g := by
  induction k generalizing b with
  | zero =>
    obtain rfl := Nat.le_zero.1 hle
    obtain rfl := hn.unique hk
    omega
  | succ k ih =>
    rcases Nat.lt_or_eq_of_le hle with hlt | rfl
    · have hle : n ≤ k := Nat.le_of_lt_succ hlt
      obtain ⟨u, hu⟩ := hk.pred
      by_cases hgu : g ≤ u.generation
      · obtain ⟨i, hni, hik, hbegins⟩ := ih hu hle hgu
        exact ⟨i, hni, Nat.lt_succ_of_lt hik, hbegins⟩
      · obtain ⟨m, hm, hmove⟩ := hu.step hk
        have hof := h.ofSession m (List.mem_of_getElem? hm)
        obtain ⟨c, rfl⟩ := exists_call_of_generation_ne hmove hof (h.moment hu).sound (by omega)
        exact ⟨k, hle, Nat.lt_succ_self k, c, u, b, hm, hu, hk, by omega, hg'⟩
    · obtain rfl := hn.unique hk
      omega

/-- A watch that clears away has seen its session lose its console before. -/
theorem exists_falls (h : Life start ms w) (hn : start.Moment ms n a) {j : Nat} {x : Watch}
    (hx : a.watches[j]? = some x) (hp : x.place.isReleasing = true) :
    ∃ k, k < n ∧ start.Falls ms k j x.generation := by
  induction n generalizing a x with
  | zero =>
    have hstart : start = a := by simpa [Moment, play?] using hn.2
    rw [← hstart, h.fresh.watches] at hx
    cases hx
  | succ n ih =>
    obtain ⟨u, hu⟩ := hn.pred
    obtain ⟨m, hm, hmove⟩ := hu.step hn
    have hof := h.ofSession m (List.mem_of_getElem? hm)
    rcases (move?_change hmove hof).releasing hx hp with ⟨y, hy, hg, hy'⟩ | ⟨rfl, hfalls⟩
    · obtain ⟨k, hk, hfalls⟩ := ih hu hy hy'
      exact ⟨k, Nat.lt_succ_of_lt hk, hg ▸ hfalls⟩
    · exact ⟨n, Nat.lt_succ_self n, hm, u, a, hu, hn, hfalls⟩

/-- A notice is sent by a watch that has seen its live session fail, and the failure is told before
any later generation begins.  The notice itself comes after the beginning of a later generation has
been told if and only if a call began the next generation while the watch cleared away, between the
failure and the notice. -/
theorem notice_late_iff (h : Life start ms w) (hn : start.Moment ms n a)
    (hk : start.Moment ms (n + 1) b) {g : Nat} {notice : Notice}
    (hsent : b.news = a.news ++ [.unexpectedExit g notice]) :
    ∃ j k before since, ms[n]? = some (.run (.watch j)) ∧ k < n ∧ start.Falls ms k j g ∧
      a.news = start.news ++ before ++ .statusChanged g .failed :: since ∧
      (∀ g', g < g' → Event.statusChanged g' .starting ∉ before) ∧
      ((∃ g', g < g' ∧ Event.statusChanged g' .starting ∈ since) ↔
        ∃ i, k < i ∧ i < n ∧ start.Begins ms i (g + 1)) := by
  obtain ⟨m, hm, hmove⟩ := hn.step hk
  have hof := h.ofSession m (List.mem_of_getElem? hm)
  obtain ⟨j, x, rfl, hx, rfl, hp⟩ := (move?_change hmove hof).sends hsent
  obtain ⟨k, hkn, hfalls⟩ := h.exists_falls hn hx hp
  obtain ⟨-, u, v, hu, hv, hfall⟩ := id hfalls
  have hzero : start.Moment ms 0 start := ⟨Nat.zero_le _, rfl⟩
  obtain ⟨-, before, hbefore, hmem⟩ := h.begun_between hzero hu (Nat.zero_le k)
  obtain ⟨hle, since, hsince, hmem'⟩ := h.begun_between hv hn hkn
  have hvg : v.generation = x.generation := hfall.generation'
  have hug : u.generation = x.generation := hfall.generation
  have hnews : v.news = u.news ++ [.statusChanged x.generation .failed] := hfall.news
  refine ⟨j, k, before, since, hm, hkn, hfalls, ?_, fun g' hg' hbegun => ?_, ?_⟩
  · rw [hsince, hnews, hbefore]
    simp only [List.append_assoc, List.singleton_append]
  · have hle' := ((hmem g').1 hbegun).2
    omega
  · constructor
    · rintro ⟨g', hg', hbegun⟩
      have hle' := ((hmem' g').1 hbegun).2
      obtain ⟨i, hki, hin, hbegins⟩ :=
        h.exists_begins (g := x.generation + 1) hv hn hkn (by omega) (by omega)
      exact ⟨i, hki, hin, hbegins⟩
    · rintro ⟨i, hki, hin, c, y, z, -, hy, hz, hyg, hzg⟩
      have hlast := (h.begun_between hz hn hin).1
      exact ⟨x.generation + 1, Nat.lt_succ_self _, (hmem' _).2 (by omega)⟩

end Life

end World

/-- A session loses its console, and while its watch waits for the client to say goodbye, a caller
starts the next one. -/
def Trial.overtaking : List Move :=
  launching ++ connecting ++ losing ++
    [.run (.watch 0), .ask .start, .run (.call 1), .run (.watch 0), .run (.watch 0),
      .elapse 3000000000, .run (.watch 0), .run (.watch 0), .elapse 3000000000]

namespace World

/-- The notice of the first session's end is sent after the beginning of the second session has
been told. -/
theorem notice_late_trial :
    ∃ a b notice, Trial.start.Life (Trial.overtaking ++ [.run (.watch 0)]) b ∧
      Trial.start.Moment (Trial.overtaking ++ [.run (.watch 0)]) Trial.overtaking.length a ∧
      b.news = a.news ++ [.unexpectedExit 1 notice] ∧
      Event.statusChanged 2 .starting ∈ a.news ∧
      ∃ i, Trial.start.Begins (Trial.overtaking ++ [.run (.watch 0)]) i 2 := by
  have hrun : (Trial.start.play? Trial.overtaking).any (fun a =>
      (a.play? [.run (.watch 0)]).any fun b =>
        a.generation == 2 &&
          (b.news.drop a.news.length).map (Event.isLoss 1) == [true]) = true := by
    decide +kernel
  obtain ⟨a, ha, hb⟩ := (Option.any_eq_true _ _).1 hrun
  obtain ⟨b, hb, hab⟩ := (Option.any_eq_true _ _).1 hb
  simp only [Bool.and_eq_true, beq_iff_eq] at hab
  obtain ⟨hgen, hloss⟩ := hab
  have hplay : Trial.start.play? (Trial.overtaking ++ [.run (.watch 0)]) = some b := by
    rw [play?_append, ha]
    exact hb
  have hlife := Trial.life hplay (by decide)
  have hn : Trial.start.Moment (Trial.overtaking ++ [.run (.watch 0)])
      Trial.overtaking.length a := ⟨by simp, by rw [List.take_left]; exact ha⟩
  have hk := hlife.last
  rw [List.length_append] at hk
  have hzero : Trial.start.Moment (Trial.overtaking ++ [.run (.watch 0)]) 0 Trial.start :=
    ⟨Nat.zero_le _, rfl⟩
  obtain ⟨-, more, hmore, -⟩ := hlife.begun_between hn hk (Nat.le_succ _)
  obtain ⟨notice, rfl⟩ : ∃ notice, more = [.unexpectedExit 1 notice] := by
    rw [hmore, List.drop_left, List.map_eq_singleton_iff] at hloss
    obtain ⟨e, rfl, he⟩ := hloss
    cases e with
    | unexpectedExit g notice => exact ⟨notice, by simpa [Event.isLoss] using he⟩
    | _ => cases he
  obtain ⟨-, told, htold, hbegun⟩ := hlife.begun_between hzero hn (Nat.zero_le _)
  have hmem : Event.statusChanged 2 .starting ∈ a.news := by
    rw [htold]
    exact List.mem_append_right _ ((hbegun 2).2 ⟨by decide, Nat.le_of_eq hgen.symm⟩)
  obtain ⟨j, k, before, since, -, -, -, hnews, hbefore, hlate⟩ := hlife.notice_late_iff hn hk hmore
  have hsince : Event.statusChanged 2 .starting ∈ since := by
    rw [hnews, List.mem_append, List.mem_append, List.mem_cons] at hmem
    rcases hmem with (hmem | hmem) | hmem | hmem
    · cases hmem
    · exact absurd hmem (hbefore 2 (by decide))
    · cases hmem
    · exact hmem
  obtain ⟨i, -, -, hbegins⟩ := hlate.1 ⟨2, by decide, hsince⟩
  exact ⟨a, b, notice, hlife, hn, hmore, hmem, i, hbegins⟩

end World

end SessionHost
