import SessionHost.Proofs.Lifecycle.Custody
import SessionHost.Proofs.Lifecycle.Lineage

/-!
# Watches over exits

The process of a generation is watched from the moment on that the session has it, and a watch
never changes the process and the generation that it is for.  Only a watch itself moves on from
waiting.

Main definitions:

- `Watched`: the watches over the main processes.

Main results:

- Theorem `Rule.watched`: every rule keeps the watches.
- Theorem `Rule.lookouts_cases`: what a rule does to the watches.
- Theorem `Rule.waits`: a watch waits until it moves on itself.
-/

namespace SessionHost

/-! ## Watches -/

/-- The watched processes and their generations. -/
def Outline.watches (o : Outline) : List (Nat × Nat) :=
  o.lookouts.map fun x => (x.process, x.generation)

theorem Outline.mem_watches {o : Outline} {j : Nat} {x : Lookout} (h : o.lookouts[j]? = some x) :
    (x.process, x.generation) ∈ o.watches :=
  List.mem_map_of_mem (List.mem_of_getElem? h)

/-- The watches over the exits of main processes. -/
structure Watched (o : Outline) : Prop where
  main : ∀ {p g : Nat}, (p, g) ∈ o.watches → o.purposes[p]? = some (.main g)
  noticed : ∀ {p g : Nat} {d : Bool}, o.standing? p = some ⟨.main g, true, d⟩ →
    (p, g) ∈ o.watches

namespace Watched

variable {o o' : Outline}

/-- The watches depend on what the processes are for, and on who watches them. -/
theorem of_noticed (w : Watched o) (hw : o'.watches = o.watches) (hp : o'.purposes = o.purposes)
    (hst : ∀ {p g : Nat} {d : Bool}, o'.standing? p = some ⟨.main g, true, d⟩ →
      ∃ d', o.standing? p = some ⟨.main g, true, d'⟩) : Watched o' where
  main h := by
    rw [hp]
    exact w.main (hw ▸ h)
  noticed h := by
    obtain ⟨d', hd'⟩ := hst h
    rw [hw]
    exact w.noticed hd'

/-- Processes whose standing stays are watched as before. -/
theorem of_standing (w : Watched o) (hw : o'.watches = o.watches)
    (hp : o'.purposes = o.purposes) (hst : ∀ p, o'.standing? p = o.standing? p) : Watched o' :=
  w.of_noticed hw hp fun {p _ d} h => ⟨d, hst p ▸ h⟩

theorem dispose (w : Watched o) (p : Nat) : Watched (o.dispose p) := by
  refine w.of_noticed ?_ (o.dispose_purposes p) fun {p' g d} h => ?_
  · rw [Outline.watches, Outline.dispose_lookouts]
    rfl
  · rw [o.standing?_dispose] at h
    obtain ⟨⟨u, n, d'⟩, hs, heq⟩ := Option.map_eq_some_iff.1 h
    refine ⟨d', ?_⟩
    split at heq <;> cases heq <;> exact hs

/-- A new process is not watched. -/
theorem create (w : Watched o) {q : ServerProcess} (hq : q.noticeTaken = false)
    (hp : o'.processes = o.processes ++ [q]) (hw : o'.watches = o.watches) : Watched o' where
  main h := by
    simp only [Outline.purposes, hp, List.map_append, List.map_cons, List.map_nil]
    exact getElem?_append_of_some (w.main (hw ▸ h)) q.purpose
  noticed {p g d} h := by
    obtain ⟨q', hq', hstanding⟩ := Outline.exists_of_standing? h
    rw [hp] at hq'
    rcases getElem?_append_cases hq' with hq' | ⟨-, rfl⟩
    · rw [hw]
      exact w.noticed (by rw [Outline.standing?_of_some hq', hstanding])
    · have hnotice : q'.noticeTaken = true := congrArg Standing.noticed hstanding
      rw [hq] at hnotice
      cases hnotice

/-- The process of a new generation is watched from the moment on that the session has it. -/
theorem adopt (w : Watched o) {p g : Nat} {q : ServerProcess} (hq : o.processes[p]? = some q)
    (hpurpose : q.purpose = .main g)
    (hp : o'.processes = o.processes.set p { q with noticeTaken := true })
    (hw : o'.watches = o.watches ++ [(p, g)]) : Watched o' where
  main {p' g'} h := by
    have hpurposes : o'.purposes = o.purposes := by
      simp only [Outline.purposes, hp]
      exact map_set_of_eq hq rfl
    rw [hw] at h
    rw [hpurposes]
    rcases List.mem_append.1 h with h | h
    · exact w.main h
    · obtain ⟨rfl, rfl⟩ : p' = p ∧ g' = g := by simpa using h
      simp [Outline.purposes, hq, hpurpose]
  noticed {p' g' d} h := by
    rw [hw]
    obtain ⟨q', hq', hstanding⟩ := Outline.exists_of_standing? h
    rw [hp] at hq'
    rcases getElem?_set_cases hq' with ⟨rfl, rfl⟩ | ⟨-, hq'⟩
    · have hg : q.purpose = .main g' := congrArg Standing.purpose hstanding
      rw [hpurpose, Purpose.main.injEq] at hg
      subst hg
      exact List.mem_append_right _ (by simp)
    · have hold : o.standing? p' = some ⟨.main g', true, d⟩ := by
        rw [Outline.standing?_of_some hq', hstanding]
      exact List.mem_append_left _ (w.noticed hold)

end Watched

/-- Every rule keeps the watches. -/
theorem Rule.watched {a : Actor} {o o' : Outline} (h : Rule a o o') (y : Custody o)
    (w : Watched o) : Watched o' := by
  cases h with
  | drop hr h => exact (w.dispose _).of_standing rfl rfl fun _ => rfl
  | endDebug h => exact (w.dispose _).of_standing rfl rfl fun _ => rfl
  | @dropWatch _ j p x hx hv =>
    have hx' : (o.dispose p).lookouts[j]? = some x := by rwa [Outline.dispose_lookouts]
    exact (w.dispose p).of_standing (map_set_of_eq hx' rfl) rfl fun _ => rfl
  | createMain hr hq => exact w.create hq.noticeTaken_eq rfl rfl
  | createDebug hr hq => exact w.create hq.noticeTaken_eq rfl rfl
  | adopt hr hq h =>
    obtain ⟨n, d, hs⟩ := y.known hr rfl
    rw [Outline.standing?_of_some hq, Option.some.injEq] at hs
    rw [Outline.watchExit]
    split
    · exact w.of_standing rfl rfl fun _ => rfl
    · refine w.adopt hq (congrArg Standing.purpose hs) rfl ?_
      simp [Outline.watches, Outline.setRole]
  | hold hr hq h hk ha =>
    exact w.of_standing rfl (map_set_of_eq hq rfl) (Outline.standing?_set hq rfl)
  | passOn hk hq he hw hp =>
    exact w.of_standing rfl (map_set_of_eq hq rfl) (Outline.standing?_set hq rfl)
  | fall hx | ignore hx | passWatch hx | seize hx | endWatch hx =>
    exact w.of_standing (map_set_of_eq hx rfl) rfl fun _ => rfl
  | endStop hr | endFailed hr | conclude hr h v =>
    rw [Outline.transition]
    split <;> exact w.of_standing rfl rfl fun _ => rfl
  | withdraw hr => split <;> exact w.of_standing rfl rfl fun _ => rfl
  | _ => exact w.of_standing rfl rfl fun _ => rfl

/-! ## What becomes of a watch -/

/-- A rule leaves the watches alone, adds one that waits, or moves the watch that takes it. -/
theorem Rule.lookouts_cases {a : Actor} {o o' : Outline} (h : Rule a o o') :
    o'.lookouts = o.lookouts ∨ (∃ p g, o'.lookouts = o.lookouts ++ [⟨p, g, .waiting⟩]) ∨
      ∃ j x v, a = .watch j ∧ o.lookouts[j]? = some x ∧
        o'.lookouts = o.lookouts.set j { x with vigil := v } := by
  cases h with
  | drop hr h => exact .inl (Outline.dispose_lookouts ..)
  | endDebug h => exact .inl (Outline.dispose_lookouts ..)
  | adopt hr hq h =>
    rw [Outline.watchExit]
    split
    · exact .inl rfl
    · exact .inr (.inl ⟨_, _, rfl⟩)
  | endStop hr | endFailed hr | conclude hr h v =>
    rw [Outline.transition]
    split <;> exact .inl rfl
  | withdraw hr => split <;> exact .inl rfl
  | dropWatch hx hv =>
    refine .inr (.inr ⟨_, _, .releasing (.holding none), rfl, hx, ?_⟩)
    rw [Outline.setVigil, Outline.dispose_lookouts]
  | fall hx | ignore hx | passWatch hx | seize hx | endWatch hx =>
    exact .inr (.inr ⟨_, _, _, rfl, hx, rfl⟩)
  | _ => exact .inl rfl

/-- A watch is for the same process and the same generation all the time. -/
theorem Rule.lookout_stays {a : Actor} {o o' : Outline} (h : Rule a o o') {j : Nat} {x : Lookout}
    (hx : o.lookouts[j]? = some x) : ∃ v, o'.lookouts[j]? = some { x with vigil := v } := by
  rcases h.lookouts_cases with h | ⟨p, g, h⟩ | ⟨k, y, v, -, hy, h⟩
  · exact ⟨x.vigil, by rw [h, hx]⟩
  · exact ⟨x.vigil, by rw [h, getElem?_append_of_some hx]⟩
  · rw [h]
    rcases getElem?_set_or hy hx { y with vigil := v } with ⟨rfl, rfl⟩ | hx'
    · exact ⟨v, getElem?_set_at hy _⟩
    · exact ⟨x.vigil, hx'⟩

/-- A watch waits until it moves on itself. -/
theorem Rule.waits {a : Actor} {o o' : Outline} (h : Rule a o o') {j : Nat} (ha : a ≠ .watch j)
    (hw : ∀ {x : Lookout}, o.lookouts[j]? = some x → x.vigil = .waiting) {x : Lookout}
    (hx : o'.lookouts[j]? = some x) : x.vigil = .waiting := by
  rcases h.lookouts_cases with h | ⟨p, g, h⟩ | ⟨k, y, v, rfl, hy, h⟩
  · exact hw (h ▸ hx)
  · rw [h] at hx
    rcases getElem?_append_cases hx with hx | ⟨-, rfl⟩
    · exact hw hx
    · rfl
  · rw [h] at hx
    rcases getElem?_set_cases hx with ⟨rfl, -⟩ | ⟨-, hx⟩
    · exact absurd rfl ha
    · exact hw hx

end SessionHost
