import SessionHost.Proofs.Lifecycle.Tenure

/-!
# The process of a generation

A start makes one process and no more: once it has made it, its role does not lead back to the
place where processes are made.  A generation therefore has at most one main process.

Main definitions:

- `Outline.purposes`: what the processes are for.
- `Lineage`: the main processes and their generations.

Main results:

- Theorem `Rule.lineage`: every rule keeps the lineage.
-/

namespace SessionHost

/-- What the processes are for. -/
def Outline.purposes (o : Outline) : List Purpose := o.processes.map ServerProcess.purpose

namespace Outline

@[simp]
theorem dispose_purposes (o : Outline) (p : Nat) : (o.dispose p).purposes = o.purposes := by
  unfold dispose
  split
  · rename_i q hq
    split
    · rfl
    · simp only [retire, tellAny]
      split <;> exact map_set_of_eq hq rfl
  · rfl

end Outline

/-- The generation that has no process yet, of a start that is going to make it. -/
def Role.awaits? : Role → Option Nat
  | .clearing g _ => some g
  | .starting g .nothing => some g
  | _ => none

/-- The claim of a start that has no process yet. -/
theorem Role.claim?_of_awaits? {r : Role} {g : Nat} (h : r.awaits? = some g) :
    r.claim? = some (.start g) := by
  unfold awaits? at h
  split at h <;> cases h <;> rfl

/-- The main processes and their generations. -/
structure Lineage (o : Outline) : Prop where
  begun : ∀ {p g : Nat}, o.purposes[p]? = some (.main g) → g ≤ o.generation
  single : ∀ {p p' g : Nat}, o.purposes[p]? = some (.main g) → o.purposes[p']? = some (.main g) →
    p = p'
  awaited : ∀ {i : Nat} {r : Role} {g p : Nat}, o.roles[i]? = some r → r.awaits? = some g →
    o.purposes[p]? ≠ some (.main g)

namespace Lineage

variable {o o' : Outline} {i : Nat} {r s : Role}

/-- The lineage depends on what the processes are for, and on who is going to make one. -/
theorem of_eq (l : Lineage o) (hg : o.generation ≤ o'.generation)
    (hp : o'.purposes = o.purposes)
    (hroles : ∀ {j : Nat} {t : Role} {g : Nat}, o'.roles[j]? = some t → t.awaits? = some g →
      ∃ t', o.roles[j]? = some t' ∧ t'.awaits? = some g) : Lineage o' where
  begun h := Nat.le_trans (l.begun (hp ▸ h)) hg
  single h h' := l.single (hp ▸ h) (hp ▸ h')
  awaited hj ht := by
    obtain ⟨t', hj', ht'⟩ := hroles hj ht
    rw [hp]
    exact l.awaited hj' ht'

/-- A call plays a role in which it makes no process that it did not make before. -/
theorem play (l : Lineage o) (hr : o.roles[i]? = some r) (hroles : o'.roles = o.roles.set i s)
    (hs : ∀ g, s.awaits? = some g → r.awaits? = some g) (hg : o.generation ≤ o'.generation)
    (hp : o'.purposes = o.purposes) : Lineage o' := by
  refine l.of_eq hg hp fun {j t g} hj ht => ?_
  rw [hroles] at hj
  rcases getElem?_set_cases hj with ⟨rfl, rfl⟩ | ⟨-, hj⟩
  · exact ⟨r, hr, hs g ht⟩
  · exact ⟨t, hj, ht⟩

/-- A call plays a role in which it makes no process. -/
theorem play_of_none (l : Lineage o) (hr : o.roles[i]? = some r)
    (hroles : o'.roles = o.roles.set i s) (hs : s.awaits? = none)
    (hg : o.generation ≤ o'.generation) (hp : o'.purposes = o.purposes) : Lineage o' := by
  refine l.play hr hroles (fun g h => ?_) hg hp
  rw [hs] at h
  cases h

theorem dispose (l : Lineage o) (p : Nat) : Lineage (o.dispose p) := by
  have hp := o.dispose_purposes p
  obtain ⟨processes, consoles, h⟩ := o.dispose_eq p
  rw [h] at hp ⊢
  exact l.of_eq (Nat.le_refl _) hp fun hj hu => ⟨_, hj, hu⟩

theorem watchExit (l : Lineage o) {p : Nat} {q : ServerProcess} (hq : o.processes[p]? = some q)
    (g : Nat) : Lineage (o.watchExit g p q) := by
  unfold Outline.watchExit
  split
  · exact l
  · exact l.of_eq (Nat.le_refl _) (map_set_of_eq hq rfl) fun hj hu => ⟨_, hj, hu⟩

/-- A start makes the process of its generation. -/
theorem createMain (l : Lineage o) (t : Tenure o) {g : Nat} {q : ServerProcess}
    (hr : o.roles[i]? = some (.starting g .nothing)) (hq : q.purpose = .main g) :
    Lineage ({ o with processes := o.processes ++ [q] }.setRole i
      (.bringing (.main g) o.processes.length .fresh)) := by
  have hcases : ∀ {p g' : Nat},
      (({ o with processes := o.processes ++ [q] }.setRole i
        (.bringing (.main g) o.processes.length .fresh)).purposes)[p]? = some (.main g') →
      o.purposes[p]? = some (.main g') ∨ (p = o.processes.length ∧ g' = g) := by
    intro p g' h
    simp only [Outline.purposes, Outline.setRole, List.map_append, List.map_cons,
      List.map_nil] at h
    rcases getElem?_append_cases h with h | ⟨hp, h⟩
    · exact .inl h
    · rw [hq] at h
      cases h
      exact .inr ⟨by simpa using hp, rfl⟩
  refine ⟨fun h => ?_, fun {p p' g'} h h' => ?_, fun {j u g' p} hj hu h => ?_⟩
  · rcases hcases h with hp | ⟨-, rfl⟩
    · exact l.begun hp
    · exact (t.admits hr rfl).1
  · rcases hcases h with hp | ⟨rfl, rfl⟩
    · rcases hcases h' with hp' | ⟨-, rfl⟩
      · exact l.single hp hp'
      · exact absurd hp (l.awaited hr rfl)
    · rcases hcases h' with hp' | ⟨rfl, -⟩
      · exact absurd hp' (l.awaited hr rfl)
      · rfl
  · rcases getElem?_set_cases hj with ⟨-, rfl⟩ | ⟨hji, hj'⟩
    · cases hu
    · rcases hcases h with hp | ⟨-, rfl⟩
      · exact l.awaited hj' hu hp
      · exact hji (t.alone hj' hr (Role.claim?_of_awaits? hu) rfl)

/-- Another process is nobody's main process. -/
theorem createDebug (l : Lineage o) {q : ServerProcess}
    (hq : q.purpose = .debug) :
    Lineage ({ o with processes := o.processes ++ [q] }.setRole i
      (.bringing .debug o.processes.length .fresh)) := by
  have hcases : ∀ {p g : Nat},
      (({ o with processes := o.processes ++ [q] }.setRole i
        (.bringing .debug o.processes.length .fresh)).purposes)[p]? = some (.main g) →
      o.purposes[p]? = some (.main g) := by
    intro p g h
    simp only [Outline.purposes, Outline.setRole, List.map_append, List.map_cons,
      List.map_nil] at h
    rcases getElem?_append_cases h with h | ⟨-, h⟩
    · exact h
    · rw [hq] at h
      cases h
  refine ⟨fun h => l.begun (hcases h), fun h h' => l.single (hcases h) (hcases h'),
    fun {j u g p} hj hu h => ?_⟩
  rcases getElem?_set_cases hj with ⟨-, rfl⟩ | ⟨-, hj⟩
  · cases hu
  · exact l.awaited hj hu (hcases h)

/-- A new generation has no process. -/
theorem claimStart (l : Lineage o) :
    Lineage ({ o with generation := o.generation + 1, status := .starting }.setRole i
      (.clearing (o.generation + 1) .reaching)) where
  begun h := Nat.le_succ_of_le (l.begun h)
  single := l.single
  awaited hj hu h := by
    rcases getElem?_set_cases hj with ⟨-, rfl⟩ | ⟨-, hj⟩
    · cases hu
      exact Nat.not_succ_le_self _ (l.begun h)
    · exact l.awaited hj hu h

end Lineage

/-! ## Every rule keeps the lineage -/

theorem Turn.awaits? {o : Outline} {r s : Role} (h : Turn o r s) (g : Nat)
    (hs : s.awaits? = some g) : r.awaits? = some g := by
  cases h <;> first | exact hs | cases hs

theorem Drop.awaits? {o : Outline} {p : Nat} {r s : Role} (h : Drop o r p s) (g : Nat)
    (hs : s.awaits? = some g) : r.awaits? = some g := by
  cases h <;> exact hs

/-- Every rule keeps the lineage. -/
theorem Rule.lineage {a : Actor} {o o' : Outline} (h : Rule a o o') (t : Tenure o)
    (l : Lineage o) : Lineage o' := by
  have hsame : ∀ {j : Nat} {u : Role} {g : Nat}, o.roles[j]? = some u → u.awaits? = some g →
      ∃ u', o.roles[j]? = some u' ∧ u'.awaits? = some g := fun hj hu => ⟨_, hj, hu⟩
  cases h with
  | ask =>
    refine l.of_eq (Nat.le_refl _) rfl fun {j u g} hj hu => ?_
    rcases getElem?_append_cases hj with hj | ⟨-, rfl⟩
    · exact ⟨u, hj, hu⟩
    · cases hu
  | turn hr h => exact l.play hr rfl h.awaits? (Nat.le_refl _) rfl
  | drop hr h =>
    have l' : Lineage (o.setRole _ _) := l.play hr rfl h.awaits? (Nat.le_refl _) rfl
    rw [← Outline.dispose_setRole]
    exact l'.dispose _
  | claimStart hr h => exact l.claimStart
  | createMain hr hq => exact l.createMain t hr hq.purpose_eq
  | createDebug hr hq => exact l.createDebug hq.purpose_eq
  | @adopt _ i g p q hr hq h =>
    have l' : Lineage ({ o with session := { o.session with process := some ⟨g, p⟩ } }.setRole i
        (.bringing (.main g) p .installed)) := l.play_of_none hr rfl rfl (Nat.le_refl _) rfl
    rw [← Outline.watchExit_setRole]
    exact l'.watchExit hq _
  | hold hr hq h hk ha =>
    exact l.play_of_none hr rfl rfl (Nat.le_refl _) (map_set_of_eq hq rfl)
  | passOn hk hq he hw hp => exact l.of_eq (Nat.le_refl _) (map_set_of_eq hq rfl) hsame
  | endStop hr | endFailed hr | conclude hr h v =>
    rw [Outline.transition]
    split <;> exact l.play_of_none hr rfl rfl (Nat.le_refl _) rfl
  | install hr =>
    exact l.play_of_none hr rfl (by split <;> rfl) (Nat.le_refl _) rfl
  | withdraw hr =>
    split <;> exact l.play_of_none hr rfl rfl (Nat.le_refl _) rfl
  | endDebug h => exact (l.dispose _).of_eq (Nat.le_refl _) rfl fun hj hu => ⟨_, hj, hu⟩
  | dropWatch hx hv => exact (l.dispose _).of_eq (Nat.le_refl _) rfl fun hj hu => ⟨_, hj, hu⟩
  | clear hr h => exact l.play hr rfl (fun _ => id) (Nat.le_refl _) rfl
  | claimStop hr | empty hr | note hr | connect hr | keep hr | retract hr | launch hr
  | dismiss hr => exact l.play_of_none hr rfl rfl (Nat.le_refl _) rfl
  | choose | callOff | fall | ignore | passWatch | seize | endWatch | busy | idle | answer
  | ending | write => exact l.of_eq (Nat.le_refl _) rfl hsame

end SessionHost
