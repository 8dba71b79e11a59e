import SessionHost.Proofs.Lifecycle.Sound

/-!
# The moments of a life

The moments of a session's life are numbered by the moves made so far.  What holds at one moment
and is ended by no move holds at every later one.

Main definitions:

- `World.Moment`: the world at a moment of a life.

Main results:

- Theorem `Leads.keeps_of_sound`: what every rule keeps is kept by a chain.
- Theorem `World.play?_induction`: what no move ends lasts.
- Theorem `World.Moment.step`: one move leads from a moment to the next one.
- Theorem `World.Life.keeps`: what every rule keeps lasts from one moment to a later one.
-/

namespace SessionHost

/-- What every rule keeps of a sound session is kept by a chain. -/
theorem Leads.keeps_of_sound {P : Outline → Prop} {a : Actor} {o o' : Outline} (h : Leads a o o')
    (s : Sound o) (hP : ∀ {a : Actor} {u v : Outline}, Sound u → P u → Rule a u v → P v)
    (ho : P o) : P o' :=
  (h.keeps (P := fun u => Sound u ∧ P u)
    (fun _ _ hu hrule => ⟨hrule.sound hu.1, hP hu.1 hu.2 hrule⟩) ⟨s, ho⟩).2

namespace World

variable {start v w u : World} {ms ns : List Move} {n k : Nat}

/-- What holds in a world and is ended by none of the moves holds where they lead. -/
theorem play?_induction {P : World → Prop} (h : w.play? ns = some v)
    (step : ∀ {a b : World} {m : Move}, m ∈ ns → a.move? m = some b → P a → P b) (hw : P w) :
    P v := by
  induction ns generalizing w with
  | nil =>
    cases h
    exact hw
  | cons m rest ih =>
    obtain ⟨a, ha, hrest⟩ := Option.bind_eq_some_iff.1 h
    exact ih hrest (fun hm => step (List.mem_cons_of_mem _ hm)) (step (by simp) ha hw)

/-- The world after the first moves of a life. -/
def Moment (start : World) (ms : List Move) (n : Nat) (v : World) : Prop :=
  n ≤ ms.length ∧ start.play? (ms.take n) = some v

namespace Moment

theorem unique (hv : start.Moment ms n v) (hw : start.Moment ms n w) : v = w :=
  Option.some.inj (hv.2.symm.trans hw.2)

/-- From one moment to a later one lead the moves between them. -/
theorem play (hn : start.Moment ms n v) (hk : start.Moment ms k w) (h : n ≤ k) :
    v.play? ((ms.take k).drop n) = some w := by
  have hplay := hk.2
  have hsplit : ms.take n ++ (ms.take k).drop n = ms.take k := by
    have htake := List.take_append_drop n (ms.take k)
    rwa [List.take_take, Nat.min_eq_left h] at htake
  rw [← hsplit, play?_append, hn.2] at hplay
  exact hplay

/-- One move leads from a moment to the next one. -/
theorem step (hn : start.Moment ms n v) (hk : start.Moment ms (n + 1) w) :
    ∃ m, ms[n]? = some m ∧ v.move? m = some w := by
  have hlt : n < ms.length := hk.1
  have hplay := hn.play hk (Nat.le_succ n)
  have hmove : (ms.take (n + 1)).drop n = [ms[n]] := by
    rw [List.take_succ_eq_append_getElem hlt, List.drop_left' (by simp; omega)]
  rw [hmove] at hplay
  obtain ⟨u, hu, hrest⟩ := Option.bind_eq_some_iff.1 hplay
  cases hrest
  exact ⟨ms[n], List.getElem?_eq_getElem hlt, hu⟩

/-- The moment before another one. -/
theorem pred (hk : start.Moment ms (n + 1) w) : ∃ v, start.Moment ms n v := by
  have hlt : n < ms.length := hk.1
  have hplay := hk.2
  rw [List.take_succ_eq_append_getElem hlt, play?_append] at hplay
  obtain ⟨v, hv, -⟩ := Option.bind_eq_some_iff.1 hplay
  exact ⟨v, Nat.le_of_lt hlt, hv⟩

/-- A life has all moments before one that it has. -/
theorem exists_le (hk : start.Moment ms k w) (h : n ≤ k) : ∃ v, start.Moment ms n v := by
  induction k generalizing w with
  | zero =>
    obtain rfl := Nat.le_zero.1 h
    exact ⟨w, hk⟩
  | succ k ih =>
    rcases Nat.lt_or_eq_of_le h with hlt | rfl
    · obtain ⟨v, hv⟩ := hk.pred
      exact ih hv (Nat.le_of_lt_succ hlt)
    · exact ⟨w, hk⟩

end Moment

namespace Life

/-- The end of a life is its last moment. -/
theorem last (h : Life start ms w) : start.Moment ms ms.length w :=
  ⟨Nat.le_refl _, by rw [List.take_length]; exact h.play⟩

theorem exists_moment (h : Life start ms w) (hn : n ≤ ms.length) : ∃ v, start.Moment ms n v :=
  h.last.exists_le hn

/-- A moment of a life is the end of a life so far. -/
theorem moment (h : Life start ms w) (hv : start.Moment ms n v) : Life start (ms.take n) v :=
  ⟨h.fresh, fun m hm => h.ofSession m (List.mem_of_mem_take hm), hv.2⟩

theorem ofSession_between (h : Life start ms w) {m : Move} (hm : m ∈ (ms.take k).drop n) :
    m.ofSession = true :=
  h.ofSession m (List.mem_of_mem_take (List.mem_of_mem_drop hm))

/-- What every rule keeps lasts from one moment to a later one. -/
theorem keeps {P : Outline → Prop} (h : Life start ms w)
    (hP : ∀ {a : Actor} {o o' : Outline}, Sound o → P o → Rule a o o' → P o')
    (hn : start.Moment ms n v) (hk : start.Moment ms k u) (hle : n ≤ k) (hv : P v.outline) :
    P u.outline :=
  (play?_keeps hP (hn.play hk hle) (fun _ => h.ofSession_between) (h.moment hn).sound hv).2

/-- What no move ends lasts from one moment to a later one. -/
theorem induction {P : World → Prop} (h : Life start ms w)
    (step : ∀ {a b : World} {m : Move}, m.ofSession = true → a.move? m = some b →
      Sound a.outline → P a → P b)
    (hn : start.Moment ms n v) (hk : start.Moment ms k u) (hle : n ≤ k) (hv : P v) : P u := by
  have hlast : Sound u.outline ∧ P u := by
    refine play?_induction (P := fun x => Sound x.outline ∧ P x) (hn.play hk hle) ?_
      ⟨(h.moment hn).sound, hv⟩
    intro a b m hm hab ha
    have hof := h.ofSession_between hm
    have hleads := move?_leads hab hof ha.1.tenure.inside ha.1.present
    exact ⟨hleads.sound ha.1, step hof hab ha.1 ha.2⟩
  exact hlast.2

end Life

end World

end SessionHost
