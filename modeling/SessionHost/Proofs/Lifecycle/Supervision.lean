import SessionHost.Proofs.Lifecycle.Custody

/-!
# Supervision of the consoles

A process is launched once, so it has at most one console.  A console that was launched is the
console of its process, or the call that launched it still waits for it, or it was told to end,
or the launcher has refused it.  It is told to end by whoever parts it from its process or from
the call, and therefore once.

Main definitions:

- `Bond`, `Mark`: what matters of a process and of a console.
- `Supervision`: the consoles and their processes.

Main results:

- Theorem `Rule.supervision`: every rule keeps the supervision.
-/

namespace SessionHost

/-! ## Processes and consoles as supervision sees them -/

/-- A process as supervision sees it. -/
structure Bond where
  console : Option Nat
  disposed : Bool

/-- A console as supervision sees it. -/
structure Mark where
  owner : Nat
  kills : Nat
  watched : Bool
  refused : Bool

def ServerProcess.bond (q : ServerProcess) : Bond := ⟨q.console, q.disposed⟩

/-- The launcher has answered with an error. -/
def Console.isRefused (k : Console) : Bool :=
  match k.answer with
  | some (.error _) => true
  | _ => false

/-- A console is refused if the launcher has answered with an error. -/
theorem Console.isRefused_iff {k : Console} :
    k.isRefused = true ↔ ∃ e, k.answer = some (.error e) := by
  unfold isRefused
  constructor
  · intro h
    split at h
    · rename_i e he
      exact ⟨e, he⟩
    · cases h
  · rintro ⟨e, he⟩
    rw [he]

def Console.mark (k : Console) : Mark := ⟨k.owner, k.kills, k.watched, k.isRefused⟩

/-- The processes as supervision sees them. -/
def Outline.bonds (o : Outline) : List Bond := o.processes.map ServerProcess.bond

/-- The consoles as supervision sees them. -/
def Outline.marks (o : Outline) : List Mark := o.consoles.map Console.mark

/-- What a console has met with is read off the console. -/
theorem Outline.marks_of_some {o : Outline} {c : Nat} {k : Console} (h : o.consoles[c]? = some k) :
    o.marks[c]? = some k.mark := by
  simp [marks, h]

/-- What binds a process to its console is read off the process. -/
theorem Outline.bonds_of_some {o : Outline} {p : Nat} {q : ServerProcess}
    (h : o.processes[p]? = some q) : o.bonds[p]? = some q.bond := by
  simp [bonds, h]

/-- Every mark is that of a console. -/
theorem Outline.exists_of_mark {o : Outline} {c : Nat} {m : Mark} (h : o.marks[c]? = some m) :
    ∃ k, o.consoles[c]? = some k ∧ k.mark = m := by
  simpa [marks] using h

/-- Every bond is that of a process. -/
theorem Outline.exists_of_bond {o : Outline} {p : Nat} {b : Bond} (h : o.bonds[p]? = some b) :
    ∃ q, o.processes[p]? = some q ∧ q.bond = b := by
  simpa [bonds] using h

/-- The order to end is counted. -/
theorem Outline.tell_marks {o : Outline} {c : Nat} {k : Console} (h : o.consoles[c]? = some k) :
    (o.tell c .kill).marks = o.marks.set c { k.mark with kills := k.mark.kills + 1 } := by
  simp only [marks, tell]
  rw [modify_eq_set_of_some h, List.map_set]
  rfl

/-- A process that takes a console over is bound to it. -/
theorem Outline.hold_bonds (o : Outline) (p c : Nat) {q : ServerProcess} (n : Option Nat)
    (hd : q.disposed = false) : (o.hold p q c n).bonds = o.bonds.set p ⟨some c, false⟩ := by
  simp only [bonds, hold, List.map_set]
  simp [ServerProcess.bond, ServerProcess.holding, hd]

/-- The console that is taken over is watched. -/
theorem Outline.hold_marks {o : Outline} {c : Nat} {k : Console} (h : o.consoles[c]? = some k)
    (p : Nat) {q : ServerProcess} (n : Option Nat) (hq : q.console = none) :
    (o.hold p q c n).marks = o.marks.set c { k.mark with watched := true } := by
  simp only [marks, hold, hq]
  rw [modify_eq_set_of_some h, List.map_set]
  rfl

/-! ## What a role does with consoles -/

/-- The process that a call has not launched yet. -/
def Role.unlaunched? : Role → Option Nat
  | .bringing _ p .fresh => some p
  | .bringing _ p .installed => some p
  | .replacing p _ => some p
  | _ => none

/-- The process and the console that a call waits for. -/
def Role.answering? : Role → Option (Nat × Nat)
  | .bringing _ p (.answering c) => some (p, c)
  | _ => none

/-- Who has a process that is not launched yet brings it up. -/
theorem Role.brings?_of_unlaunched? {r : Role} {p : Nat} (h : r.unlaunched? = some p) :
    ∃ u, r.brings? = some (u, p) := by
  unfold unlaunched? at h
  split at h <;> cases h
  · exact ⟨_, rfl⟩
  · exact ⟨_, rfl⟩
  · exact ⟨_, rfl⟩

/-- Who waits for the launcher brings a process up. -/
theorem Role.brings?_of_answering? {r : Role} {p c : Nat} (h : r.answering? = some (p, c)) :
    ∃ u, r.brings? = some (u, p) := by
  unfold answering? at h
  split at h <;> cases h
  exact ⟨_, rfl⟩

/-- No other call waits for a console of the process that a call brings up. -/
theorem Custody.ne_of_answering {o : Outline} (y : Custody o) {i j p p' c : Nat} {r t : Role}
    {u : Purpose} (hr : o.roles[i]? = some r) (hb : r.brings? = some (u, p))
    (hj : o.roles[j]? = some t) (hji : j ≠ i) (ht : t.answering? = some (p', c)) : p' ≠ p := by
  rintro rfl
  obtain ⟨w, hw⟩ := Role.brings?_of_answering? ht
  exact hji (y.alone hj hr hw hb)

/-- The consoles and their processes. -/
structure Supervision (o : Outline) : Prop where
  owned : ∀ {c : Nat} {m : Mark}, o.marks[c]? = some m → m.owner < o.bonds.length
  single : ∀ {c c' : Nat} {m m' : Mark}, o.marks[c]? = some m → o.marks[c']? = some m' →
    m.owner = m'.owner → c = c'
  once : ∀ {c : Nat} {m : Mark}, o.marks[c]? = some m → m.kills ≤ 1
  linked : ∀ {p c : Nat} {b : Bond}, o.bonds[p]? = some b → b.console = some c →
    b.disposed = false ∧ ∃ m, o.marks[c]? = some m ∧ m.owner = p ∧ m.kills = 0
  unlaunched : ∀ {i c p : Nat} {r : Role} {m : Mark}, o.roles[i]? = some r →
    r.unlaunched? = some p → o.marks[c]? = some m → m.owner ≠ p
  answering : ∀ {i p c : Nat} {r : Role}, o.roles[i]? = some r → r.answering? = some (p, c) →
    (∃ b, o.bonds[p]? = some b ∧ b.console = none) ∧
      ∃ m, o.marks[c]? = some m ∧ m.owner = p ∧ m.kills = 0 ∧ m.watched = false
  accounted : ∀ {c : Nat} {m : Mark}, o.marks[c]? = some m →
    m.kills = 1 ∨ m.refused = true ∨ (∃ b, o.bonds[m.owner]? = some b ∧ b.console = some c) ∨
      ∃ (i : Nat) (r : Role), o.roles[i]? = some r ∧ r.answering? = some (m.owner, c)

namespace Supervision

variable {o o' : Outline} {i : Nat} {r s : Role}

/-- A process has one console still when every console keeps its owner. -/
theorem single_of_owners (v : Supervision o) {marks : List Mark}
    (h : ∀ {j : Nat} {x : Mark}, marks[j]? = some x →
      ∃ z, o.marks[j]? = some z ∧ x.owner = z.owner)
    {c c' : Nat} {m m' : Mark} (hm : marks[c]? = some m) (hm' : marks[c']? = some m')
    (ho : m.owner = m'.owner) : c = c' := by
  obtain ⟨z, hz, hzo⟩ := h hm
  obtain ⟨z', hz', hzo'⟩ := h hm'
  exact v.single hz hz' (by rw [← hzo, ho, hzo'])

/-- The consoles of other processes stay as they are when one console changes. -/
theorem mark_of_set {c j : Nat} {m z : Mark} (hm : o.marks[c]? = some m)
    (hj : o.marks[j]? = some z) (hne : z.owner ≠ m.owner) (m' : Mark) :
    (o.marks.set c m')[j]? = some z := by
  rcases getElem?_set_or hm hj m' with ⟨-, rfl⟩ | hj
  · exact absurd rfl hne
  · exact hj

/-- Whoever waits for a console waits still when a call that waits for none changes. -/
theorem answering_of_set {j : Nat} {t : Role} {x : Nat × Nat} (hr : o.roles[i]? = some r)
    (hra : r.answering? = none) (hj : o.roles[j]? = some t) (ht : t.answering? = some x)
    (s : Role) : (o.roles.set i s)[j]? = some t := by
  rcases getElem?_set_or hr hj s with ⟨-, rfl⟩ | hj
  · rw [hra] at ht
    cases ht
  · exact hj

/-- A call plays another role, and leaves no console that it waited for unaccounted for. -/
theorem play (v : Supervision o) (hr : o.roles[i]? = some r) (hroles : o'.roles = o.roles.set i s)
    (hb : o'.bonds = o.bonds) (hm : o'.marks = o.marks)
    (hu : ∀ p, s.unlaunched? = some p → r.unlaunched? = some p) (hs : s.answering? = none)
    (hc : ∀ {p c : Nat} {m : Mark}, r.answering? = some (p, c) → o.marks[c]? = some m →
      m.kills = 1 ∨ m.refused = true ∨ ∃ b, o.bonds[m.owner]? = some b ∧ b.console = some c) :
    Supervision o' where
  owned h := by
    rw [hb]
    exact v.owned (hm ▸ h)
  single h h' := v.single (hm ▸ h) (hm ▸ h')
  once h := v.once (hm ▸ h)
  linked h hc := by
    rw [hm]
    exact v.linked (hb ▸ h) hc
  unlaunched {j c p t m} hj ht h := by
    rw [hroles] at hj
    rw [hm] at h
    rcases getElem?_set_cases hj with ⟨rfl, rfl⟩ | ⟨-, hj⟩
    · exact v.unlaunched hr (hu p ht) h
    · exact v.unlaunched hj ht h
  answering {j p c t} hj ht := by
    rw [hroles] at hj
    rw [hb, hm]
    rcases getElem?_set_cases hj with ⟨-, rfl⟩ | ⟨-, hj⟩
    · rw [hs] at ht
      cases ht
    · exact v.answering hj ht
  accounted {c m} h := by
    rw [hm] at h
    rw [hb, hroles]
    rcases v.accounted h with h' | h' | h' | ⟨j, t, hj, ht⟩
    · exact .inl h'
    · exact .inr (.inl h')
    · exact .inr (.inr (.inl h'))
    · rcases getElem?_set_or hr hj s with ⟨-, rfl⟩ | hj
      · rcases hc ht h with h' | h' | h'
        · exact .inl h'
        · exact .inr (.inl h')
        · exact .inr (.inr (.inl h'))
      · exact .inr (.inr (.inr ⟨j, t, hj, ht⟩))

/-- A call that waits for no console plays another role. -/
theorem play_of_none (v : Supervision o) (hr : o.roles[i]? = some r)
    (hroles : o'.roles = o.roles.set i s) (hb : o'.bonds = o.bonds) (hm : o'.marks = o.marks)
    (hu : ∀ p, s.unlaunched? = some p → r.unlaunched? = some p) (hs : s.answering? = none)
    (hc : r.answering? = none) : Supervision o' := by
  refine v.play hr hroles hb hm hu hs fun h => ?_
  rw [hc] at h
  cases h

/-- So does one that is not going to launch anything any more. -/
theorem retreat (v : Supervision o) (hr : o.roles[i]? = some r)
    (hroles : o'.roles = o.roles.set i s) (hb : o'.bonds = o.bonds) (hm : o'.marks = o.marks)
    (hu : s.unlaunched? = none) (hs : s.answering? = none) (hc : r.answering? = none) :
    Supervision o' := by
  refine v.play_of_none hr hroles hb hm (fun p h => ?_) hs hc
  rw [hu] at h
  cases h

/-- The supervision depends on processes, consoles and roles. -/
theorem of_eq (v : Supervision o) (hb : o'.bonds = o.bonds) (hm : o'.marks = o.marks)
    (hroles : o'.roles = o.roles) : Supervision o' where
  owned h := by
    rw [hb]
    exact v.owned (hm ▸ h)
  single h h' := v.single (hm ▸ h) (hm ▸ h')
  once h := v.once (hm ▸ h)
  linked h hc := by
    rw [hm]
    exact v.linked (hb ▸ h) hc
  unlaunched hj ht h := v.unlaunched (hroles ▸ hj) ht (hm ▸ h)
  answering hj ht := by
    rw [hb, hm]
    exact v.answering (hroles ▸ hj) ht
  accounted h := by
    rw [hb, hroles]
    exact v.accounted (hm ▸ h)

/-- A console is refused, or stays as it is. -/
theorem refuse (v : Supervision o) {c : Nat} {m : Mark} (hm : o.marks[c]? = some m) (x : Bool)
    (hx : m.refused = true → x = true) (hmarks : o'.marks = o.marks.set c { m with refused := x })
    (hb : o'.bonds = o.bonds) (hroles : o'.roles = o.roles) : Supervision o' := by
  have hback : ∀ {j : Nat} {y : Mark}, o'.marks[j]? = some y → ∃ z, o.marks[j]? = some z ∧
      y.owner = z.owner ∧ y.kills = z.kills ∧ y.watched = z.watched ∧
      (z.refused = true → y.refused = true) := by
    intro j y hj
    rw [hmarks] at hj
    rcases getElem?_set_cases hj with ⟨rfl, rfl⟩ | ⟨-, hj⟩
    · exact ⟨m, hm, rfl, rfl, rfl, hx⟩
    · exact ⟨y, hj, rfl, rfl, rfl, id⟩
  have hforth : ∀ {j : Nat} {z : Mark}, o.marks[j]? = some z → ∃ y, o'.marks[j]? = some y ∧
      y.owner = z.owner ∧ y.kills = z.kills ∧ y.watched = z.watched := by
    intro j z hj
    rw [hmarks]
    rcases getElem?_set_or hm hj { m with refused := x } with ⟨rfl, rfl⟩ | hj
    · exact ⟨_, getElem?_set_at hm _, rfl, rfl, rfl⟩
    · exact ⟨z, hj, rfl, rfl, rfl⟩
  constructor
  case owned =>
    intro j y hj
    obtain ⟨z, hz, ho, -⟩ := hback hj
    rw [hb, ho]
    exact v.owned hz
  case single =>
    refine v.single_of_owners fun hj => ?_
    obtain ⟨z, hz, ho, -⟩ := hback hj
    exact ⟨z, hz, ho⟩
  case once =>
    intro j y hj
    obtain ⟨z, hz, -, hk, -⟩ := hback hj
    rw [hk]
    exact v.once hz
  case linked =>
    intro p j b hp hj
    obtain ⟨hd, z, hz, ho, hk⟩ := v.linked (hb ▸ hp) hj
    obtain ⟨y, hy, hyo, hyk, -⟩ := hforth hz
    exact ⟨hd, y, hy, by rw [hyo, ho], by rw [hyk, hk]⟩
  case unlaunched =>
    intro i j p t y hi ht hj
    obtain ⟨z, hz, ho, -⟩ := hback hj
    rw [ho]
    exact v.unlaunched (hroles ▸ hi) ht hz
  case answering =>
    intro i p j t hi ht
    obtain ⟨hbond, z, hz, ho, hk, hw⟩ := v.answering (hroles ▸ hi) ht
    obtain ⟨y, hy, hyo, hyk, hyw⟩ := hforth hz
    rw [hb]
    exact ⟨hbond, y, hy, by rw [hyo, ho], by rw [hyk, hk], by rw [hyw, hw]⟩
  case accounted =>
    intro j y hj
    obtain ⟨z, hz, ho, hk, -, hr⟩ := hback hj
    rw [hb, hroles, ho, hk]
    exact (v.accounted hz).imp id (Or.imp hr id)

/-! ## Disposals -/

/-- A process without a console is disposed of. -/
theorem retire_of_none (v : Supervision o) {p : Nat} {b : Bond} (hp : o.bonds[p]? = some b)
    (hc : b.console = none) (hb : o'.bonds = o.bonds.set p ⟨none, true⟩)
    (hm : o'.marks = o.marks) (hroles : o'.roles = o.roles) : Supervision o' where
  owned h := by
    rw [hb, List.length_set]
    exact v.owned (hm ▸ h)
  single h h' := v.single (hm ▸ h) (hm ▸ h')
  once h := v.once (hm ▸ h)
  linked {p' c b'} h hc' := by
    rw [hb] at h
    rw [hm]
    rcases getElem?_set_cases h with ⟨-, rfl⟩ | ⟨-, h⟩
    · cases hc'
    · exact v.linked h hc'
  unlaunched hj ht h := v.unlaunched (hroles ▸ hj) ht (hm ▸ h)
  answering {j p' c t} hj ht := by
    rw [hb, hm]
    obtain ⟨⟨b', hb', hnone⟩, hmark⟩ := v.answering (hroles ▸ hj) ht
    refine ⟨?_, hmark⟩
    rcases getElem?_set_or hp hb' ⟨none, true⟩ with ⟨rfl, rfl⟩ | hb'
    · exact ⟨_, getElem?_set_at hp _, rfl⟩
    · exact ⟨b', hb', hnone⟩
  accounted {c m} h := by
    rw [hm] at h
    rw [hb, hroles]
    rcases v.accounted h with h' | h' | ⟨b', hb', hb'c⟩ | h'
    · exact .inl h'
    · exact .inr (.inl h')
    · rcases getElem?_set_or hp hb' ⟨none, true⟩ with ⟨-, rfl⟩ | hb'
      · rw [hc] at hb'c
        cases hb'c
      · exact .inr (.inr (.inl ⟨b', hb', hb'c⟩))
    · exact .inr (.inr (.inr h'))

/-- A console is told to end when its process, or the call that waits for it, parts from it. -/
theorem part (v : Supervision o) {p c : Nat} {m : Mark} (hm : o.marks[c]? = some m)
    (ho : m.owner = p) (hk : m.kills = 0)
    (hmarks : o'.marks = o.marks.set c { m with kills := m.kills + 1 })
    (hlen : o'.bonds.length = o.bonds.length)
    (hbonds : ∀ {p' c' : Nat} {b : Bond}, o'.bonds[p']? = some b → b.console = some c' →
      o.bonds[p']? = some b ∧ p' ≠ p)
    (hbonds' : ∀ {p' : Nat} {b : Bond}, o.bonds[p']? = some b →
      ∃ b', o'.bonds[p']? = some b' ∧ (b' = b ∨ p' = p ∧ b'.console = none))
    (hun : ∀ {j p' : Nat} {t : Role}, o'.roles[j]? = some t → t.unlaunched? = some p' →
      o.roles[j]? = some t)
    (hans : ∀ {j p' c' : Nat} {t : Role}, o'.roles[j]? = some t →
      t.answering? = some (p', c') → o.roles[j]? = some t ∧ p' ≠ p)
    (hans' : ∀ {j p' c' : Nat} {t : Role}, o.roles[j]? = some t →
      t.answering? = some (p', c') → o'.roles[j]? = some t ∨ p' = p) : Supervision o' := by
  have hback : ∀ {j : Nat} {x : Mark}, o'.marks[j]? = some x →
      ∃ z, o.marks[j]? = some z ∧ x.owner = z.owner ∧ (x.kills = 1 ∨ x = z ∧ z.owner ≠ p) := by
    intro j x hj
    rw [hmarks] at hj
    rcases getElem?_set_cases hj with ⟨rfl, rfl⟩ | ⟨hne, hj⟩
    · exact ⟨m, hm, rfl, .inl (by rw [hk])⟩
    · exact ⟨x, hj, rfl, .inr ⟨rfl, fun h => hne (v.single hj hm (h.trans ho.symm))⟩⟩
  have hother : ∀ {j : Nat} {z : Mark}, o.marks[j]? = some z → z.owner ≠ p →
      o'.marks[j]? = some z := by
    intro j z hj hne
    rw [hmarks]
    exact mark_of_set hm hj (ho ▸ hne) _
  constructor
  case owned =>
    intro j x hj
    obtain ⟨z, hz, hzo, -⟩ := hback hj
    rw [hlen, hzo]
    exact v.owned hz
  case single =>
    refine v.single_of_owners fun hj => ?_
    obtain ⟨z, hz, hzo, -⟩ := hback hj
    exact ⟨z, hz, hzo⟩
  case once =>
    intro j x hj
    obtain ⟨z, hz, -, h | ⟨rfl, -⟩⟩ := hback hj
    · exact Nat.le_of_eq h
    · exact v.once hz
  case linked =>
    intro p' j b hp' hj
    obtain ⟨hb, hne⟩ := hbonds hp' hj
    obtain ⟨hd, z, hz, hzo, hzk⟩ := v.linked hb hj
    exact ⟨hd, z, hother hz (by rwa [hzo]), hzo, hzk⟩
  case unlaunched =>
    intro i j p' t x hi ht hj
    obtain ⟨z, hz, hzo, -⟩ := hback hj
    rw [hzo]
    exact v.unlaunched (hun hi ht) ht hz
  case answering =>
    intro i p' j t hi ht
    obtain ⟨hi, hne⟩ := hans hi ht
    obtain ⟨⟨b, hb, hnone⟩, z, hz, hzo, hrest⟩ := v.answering hi ht
    obtain ⟨b', hb', h⟩ := hbonds' hb
    refine ⟨⟨b', hb', ?_⟩, z, hother hz (by rwa [hzo]), hzo, hrest⟩
    rcases h with rfl | ⟨-, h⟩
    · exact hnone
    · exact h
  case accounted =>
    intro j x hj
    obtain ⟨z, hz, hzo, h | ⟨rfl, hne⟩⟩ := hback hj
    · exact .inl h
    · rcases v.accounted hz with h | h | ⟨b, hb, hc⟩ | ⟨i, t, hi, ht⟩
      · exact .inl h
      · exact .inr (.inl h)
      · obtain ⟨b', hb', rfl | ⟨h, -⟩⟩ := hbonds' hb
        · exact .inr (.inr (.inl ⟨b', hb', hc⟩))
        · exact absurd h hne
      · rcases hans' hi ht with hi | h
        · exact .inr (.inr (.inr ⟨i, t, hi, ht⟩))
        · exact absurd h hne

/-- A process is disposed of, and its console told to end. -/
theorem retire_of_some (v : Supervision o) {p c : Nat} {b : Bond} {m : Mark}
    (hp : o.bonds[p]? = some b) (hc : b.console = some c) (hmc : o.marks[c]? = some m)
    (hb : o'.bonds = o.bonds.set p ⟨none, true⟩)
    (hm : o'.marks = o.marks.set c { m with kills := m.kills + 1 })
    (hroles : o'.roles = o.roles) : Supervision o' := by
  obtain ⟨-, m', hm', ho, hk⟩ := v.linked hp hc
  rw [hmc, Option.some.injEq] at hm'
  subst hm'
  refine v.part hmc ho hk hm (by rw [hb, List.length_set]) ?_ ?_ (fun hj _ => hroles ▸ hj) ?_
    fun hj _ => .inl (hroles ▸ hj)
  · intro p' c' b' hp' hc'
    rw [hb] at hp'
    rcases getElem?_set_cases hp' with ⟨-, rfl⟩ | ⟨hne, hp'⟩
    · cases hc'
    · exact ⟨hp', hne⟩
  · intro p' b' hp'
    rw [hb]
    rcases getElem?_set_or hp hp' ⟨none, true⟩ with ⟨rfl, -⟩ | hp'
    · exact ⟨_, getElem?_set_at hp _, .inr ⟨rfl, rfl⟩⟩
    · exact ⟨b', hp', .inl rfl⟩
  · intro j p' c' t hj ht
    rw [hroles] at hj
    refine ⟨hj, ?_⟩
    rintro rfl
    obtain ⟨⟨b', hb', hnone⟩, -⟩ := v.answering hj ht
    rw [hp, Option.some.injEq] at hb'
    rw [← hb', hc] at hnone
    cases hnone

/-- A disposal tells the console of the process to end, if there is one. -/
theorem dispose (v : Supervision o) (p : Nat) : Supervision (o.dispose p) := by
  rcases o.dispose_cases p with h | ⟨q, hq, hd, h⟩
  · rwa [h]
  · rw [h]
    have hp := Outline.bonds_of_some hq
    have hset : (o.retire p q).bonds = o.bonds.set p ⟨none, true⟩ := by
      simp only [Outline.retire, Outline.bonds, List.map_set]
      rfl
    have hroles : (o.retire p q).roles = o.roles := by
      simp only [Outline.retire, Outline.tellAny]
      split <;> rfl
    cases hc : q.console with
    | none =>
      refine v.retire_of_none hp hc hset ?_ hroles
      simp [Outline.retire, Outline.tellAny, hc, Outline.marks]
    | some c =>
      obtain ⟨-, m, hm, -⟩ := v.linked hp hc
      obtain ⟨k, hk, rfl⟩ := Outline.exists_of_mark hm
      refine v.retire_of_some hp hc hm hset ?_ hroles
      simp only [Outline.retire, Outline.tellAny, hc]
      exact Outline.tell_marks hk

/-! ## Launches -/

/-- A process that was just made has no console. -/
theorem create (v : Supervision o) {u : Purpose} {q : ServerProcess}
    (hr : o.roles[i]? = some r) (hra : r.answering? = none) (hq : q.console = none) :
    Supervision ({ o with processes := o.processes ++ [q] }.setRole i
      (.bringing u o.processes.length .fresh)) := by
  have hlen : o.bonds.length = o.processes.length := List.length_map _
  have hbonds : ({ o with processes := o.processes ++ [q] }.setRole i
      (.bringing u o.processes.length .fresh)).bonds = o.bonds ++ [q.bond] := by
    simp [Outline.bonds, Outline.setRole]
  constructor
  case owned =>
    intro c m h
    rw [hbonds, List.length_append]
    exact Nat.lt_add_right 1 (v.owned h)
  case single => exact v.single
  case once => exact v.once
  case linked =>
    intro p c b h hc
    rw [hbonds] at h
    rcases getElem?_append_cases h with h | ⟨-, rfl⟩
    · exact v.linked h hc
    · rw [show q.bond.console = q.console from rfl, hq] at hc
      cases hc
  case unlaunched =>
    intro j c p t m hj ht h
    rcases getElem?_set_cases hj with ⟨-, rfl⟩ | ⟨-, hj⟩
    · cases ht
      have hlt := v.owned h
      omega
    · exact v.unlaunched hj ht h
  case answering =>
    intro j p c t hj ht
    rcases getElem?_set_cases hj with ⟨-, rfl⟩ | ⟨-, hj⟩
    · cases ht
    · obtain ⟨⟨b, hb, hnone⟩, hmark⟩ := v.answering hj ht
      rw [hbonds]
      exact ⟨⟨b, getElem?_append_of_some hb _, hnone⟩, hmark⟩
  case accounted =>
    intro c m h
    rw [hbonds]
    rcases v.accounted h with h' | h' | ⟨b, hb, hc⟩ | ⟨j, t, hj, ht⟩
    · exact .inl h'
    · exact .inr (.inl h')
    · exact .inr (.inr (.inl ⟨b, getElem?_append_of_some hb _, hc⟩))
    · exact .inr (.inr (.inr ⟨j, t, answering_of_set hr hra hj ht _, ht⟩))

/-- The launcher is asked for a console of a process that has none. -/
theorem launch (v : Supervision o) (y : Custody o) {u : Purpose} {p : Nat} {q : ServerProcess}
    (hr : o.roles[i]? = some (.bringing u p .installed)) (hq : o.processes[p]? = some q) :
    Supervision ({ o with consoles := o.consoles ++ [({ owner := p } : Console)] }.setRole i
      (.bringing u p (.answering o.consoles.length))) := by
  have hlen : o.marks.length = o.consoles.length := List.length_map _
  have hbond := Outline.bonds_of_some hq
  have hnew : ∀ {c : Nat} {m : Mark}, o.marks[c]? = some m → m.owner ≠ p :=
    fun h => v.unlaunched hr rfl h
  have hmarks : ({ o with consoles := o.consoles ++ [({ owner := p } : Console)] }.setRole i
      (.bringing u p (.answering o.consoles.length))).marks =
        o.marks ++ [⟨p, 0, false, false⟩] := by
    simp [Outline.marks, Outline.setRole, Console.mark, Console.isRefused]
  have hlast : (o.marks ++ [(⟨p, 0, false, false⟩ : Mark)])[o.consoles.length]? =
      some ⟨p, 0, false, false⟩ := by
    rw [← hlen]
    exact List.getElem?_concat_length
  constructor
  case owned =>
    intro c m h
    rw [hmarks] at h
    rcases getElem?_append_cases h with h | ⟨-, rfl⟩
    · exact v.owned h
    · exact (List.getElem?_eq_some_iff.1 hbond).1
  case single =>
    intro c c' m m' h h' ho
    rw [hmarks] at h h'
    rcases getElem?_append_cases h with hold | ⟨rfl, rfl⟩ <;>
      rcases getElem?_append_cases h' with hold' | ⟨rfl, rfl⟩
    · exact v.single hold hold' ho
    · exact absurd ho (hnew hold)
    · exact absurd ho.symm (hnew hold')
    · rfl
  case once =>
    intro c m h
    rw [hmarks] at h
    rcases getElem?_append_cases h with h | ⟨-, rfl⟩
    · exact v.once h
    · exact Nat.zero_le 1
  case linked =>
    intro p' c b h hc
    rw [hmarks]
    obtain ⟨hd, m, hm, hrest⟩ := v.linked h hc
    exact ⟨hd, m, getElem?_append_of_some hm _, hrest⟩
  case unlaunched =>
    intro j c p' t m hj ht h
    rw [hmarks] at h
    rcases getElem?_set_cases hj with ⟨-, rfl⟩ | ⟨hji, hj⟩
    · cases ht
    · rcases getElem?_append_cases h with h | ⟨-, rfl⟩
      · exact v.unlaunched hj ht h
      · rintro rfl
        obtain ⟨w, hw⟩ := Role.brings?_of_unlaunched? ht
        exact hji (y.alone hj hr hw rfl)
  case answering =>
    intro j p' c t hj ht
    rw [hmarks]
    rcases getElem?_set_cases hj with ⟨-, rfl⟩ | ⟨-, hj⟩
    · cases ht
      refine ⟨⟨q.bond, hbond, ?_⟩, _, hlast, rfl, rfl, rfl⟩
      cases hc : q.bond.console with
      | none => rfl
      | some c =>
        obtain ⟨-, m, hm, ho, -⟩ := v.linked hbond hc
        exact absurd ho (hnew hm)
    · obtain ⟨hb, m, hm, hrest⟩ := v.answering hj ht
      exact ⟨hb, m, getElem?_append_of_some hm _, hrest⟩
  case accounted =>
    intro c m h
    rw [hmarks] at h
    rcases getElem?_append_cases h with h | ⟨rfl, rfl⟩
    · rcases v.accounted h with h' | h' | h' | ⟨j, t, hj, ht⟩
      · exact .inl h'
      · exact .inr (.inl h')
      · exact .inr (.inr (.inl h'))
      · exact .inr (.inr (.inr ⟨j, t, answering_of_set hr rfl hj ht _, ht⟩))
    · rw [hlen]
      exact .inr (.inr (.inr ⟨i, _, getElem?_set_at hr _, rfl⟩))

/-- The launcher's console becomes the console of its process. -/
theorem hold (v : Supervision o) (y : Custody o) {u : Purpose} {p c : Nat} {q : ServerProcess}
    (n : Option Nat) (hr : o.roles[i]? = some (.bringing u p (.answering c)))
    (hq : o.processes[p]? = some q) (hd : q.disposed = false) :
    Supervision ((o.hold p q c n).setRole i (.bringing u p .up)) := by
  obtain ⟨⟨b, hb, hnone⟩, m, hm, ho, hk, -⟩ := v.answering hr rfl
  obtain ⟨k, hk', rfl⟩ := Outline.exists_of_mark hm
  rw [Outline.bonds_of_some hq, Option.some.injEq] at hb
  subst hb
  have hconsole : q.console = none := hnone
  have hbonds : ((o.hold p q c n).setRole i (.bringing u p .up)).bonds =
      o.bonds.set p ⟨some c, false⟩ := o.hold_bonds p c n hd
  have hmarks : ((o.hold p q c n).setRole i (.bringing u p .up)).marks =
      o.marks.set c { k.mark with watched := true } := Outline.hold_marks hk' p n hconsole
  have hback : ∀ {j : Nat} {x : Mark},
      (o.marks.set c { k.mark with watched := true })[j]? = some x →
      ∃ z, o.marks[j]? = some z ∧ x.owner = z.owner ∧ x.kills = z.kills ∧
        x.refused = z.refused := by
    intro j x hj
    rcases getElem?_set_cases hj with ⟨rfl, rfl⟩ | ⟨-, hj⟩
    · exact ⟨k.mark, hm, rfl, rfl, rfl⟩
    · exact ⟨x, hj, rfl, rfl, rfl⟩
  have hother : ∀ {j : Nat} {z : Mark}, o.marks[j]? = some z → z.owner ≠ p →
      (o.marks.set c { k.mark with watched := true })[j]? = some z :=
    fun hj hne => mark_of_set hm hj (ho ▸ hne) _
  constructor
  case owned =>
    intro j x hj
    rw [hmarks] at hj
    obtain ⟨z, hz, hzo, -⟩ := hback hj
    rw [hbonds, List.length_set, hzo]
    exact v.owned hz
  case single =>
    rw [hmarks]
    refine v.single_of_owners fun hj => ?_
    obtain ⟨z, hz, hzo, -⟩ := hback hj
    exact ⟨z, hz, hzo⟩
  case once =>
    intro j x hj
    rw [hmarks] at hj
    obtain ⟨z, hz, -, hzk, -⟩ := hback hj
    rw [hzk]
    exact v.once hz
  case linked =>
    intro p' j b hp' hj
    rw [hbonds] at hp'
    rw [hmarks]
    rcases getElem?_set_cases hp' with ⟨rfl, rfl⟩ | ⟨hne, hp'⟩
    · cases hj
      exact ⟨rfl, _, getElem?_set_at hm _, ho, hk⟩
    · obtain ⟨hd', z, hz, hzo, hzk⟩ := v.linked hp' hj
      exact ⟨hd', z, hother hz (by rwa [hzo]), hzo, hzk⟩
  case unlaunched =>
    intro j c' p' t x hj ht hx
    rw [hmarks] at hx
    obtain ⟨z, hz, hzo, -⟩ := hback hx
    rw [hzo]
    rcases getElem?_set_cases hj with ⟨-, rfl⟩ | ⟨-, hj⟩
    · cases ht
    · exact v.unlaunched hj ht hz
  case answering =>
    intro j p' c' t hj ht
    rcases getElem?_set_cases hj with ⟨-, rfl⟩ | ⟨hji, hj⟩
    · cases ht
    · obtain ⟨⟨b, hb, hbn⟩, z, hz, hzo, hzk, hzw⟩ := v.answering hj ht
      have hne : p' ≠ p := y.ne_of_answering hr rfl hj hji ht
      rw [hbonds, hmarks, List.getElem?_set_ne (Ne.symm hne)]
      exact ⟨⟨b, hb, hbn⟩, z, hother hz (by rwa [hzo]), hzo, hzk, hzw⟩
  case accounted =>
    intro j x hx
    rw [hmarks] at hx
    obtain ⟨z, hz, hzo, hzk, hzr⟩ := hback hx
    rw [hbonds, hzo, hzk, hzr]
    rcases v.accounted hz with h | h | ⟨b, hb, hbc⟩ | ⟨i', t, hi, ht⟩
    · exact .inl h
    · exact .inr (.inl h)
    · rcases getElem?_set_or (Outline.bonds_of_some hq) hb ⟨some c, false⟩ with ⟨-, rfl⟩ | hb
      · rw [hnone] at hbc
        cases hbc
      · exact .inr (.inr (.inl ⟨b, hb, hbc⟩))
    · rcases getElem?_set_or hr hi (.bringing u p .up) with ⟨-, rfl⟩ | hi
      · cases ht
        exact .inr (.inr (.inl ⟨_, getElem?_set_at (Outline.bonds_of_some hq) _, rfl⟩))
      · exact .inr (.inr (.inr ⟨i', t, hi, ht⟩))

/-- A console that has come too late is told to end. -/
theorem dismiss (v : Supervision o) (y : Custody o) {u : Purpose} {p c : Nat}
    (hr : o.roles[i]? = some (.bringing u p (.answering c))) :
    Supervision ((o.tell c .kill).setRole i .bystander) := by
  obtain ⟨⟨b, hb, hnone⟩, m, hm, ho, hk, -⟩ := v.answering hr rfl
  obtain ⟨k, hk', rfl⟩ := Outline.exists_of_mark hm
  have hmarks : ((o.tell c .kill).setRole i .bystander).marks =
      o.marks.set c { k.mark with kills := k.mark.kills + 1 } := Outline.tell_marks hk'
  refine v.part hm ho hk hmarks rfl ?_ (fun hb => ⟨_, hb, .inl rfl⟩) ?_ ?_ ?_
  · intro p' c' b' hp' hc'
    have hp' : o.bonds[p']? = some b' := hp'
    refine ⟨hp', ?_⟩
    rintro rfl
    rw [hb, Option.some.injEq] at hp'
    rw [← hp', hnone] at hc'
    cases hc'
  · intro j p' t hj ht
    rcases getElem?_set_cases hj with ⟨-, rfl⟩ | ⟨-, hj⟩
    · cases ht
    · exact hj
  · intro j p' c' t hj ht
    rcases getElem?_set_cases hj with ⟨-, rfl⟩ | ⟨hji, hj⟩
    · cases ht
    · exact ⟨hj, y.ne_of_answering hr rfl hj hji ht⟩
  · intro j p' c' t hj ht
    rcases getElem?_set_or hr hj .bystander with ⟨-, rfl⟩ | hj
    · cases ht
      exact .inr rfl
    · exact .inl hj

/-- A command other than the one to end changes nothing that matters. -/
theorem tell (v : Supervision o) (c : Nat) {command : ConsoleCommand} (h : command ≠ .kill) :
    Supervision (o.tell c command) := by
  refine v.of_eq rfl ?_ rfl
  refine map_modify_of_eq (fun k => ?_) o.consoles c
  cases command with
  | text input => rfl
  | reveal preserve => rfl
  | kill => exact absurd rfl h

end Supervision

/-! ## Every rule keeps the supervision -/

/-- A turn launches nothing. -/
theorem Turn.unlaunched? {o : Outline} {r s : Role} (h : Turn o r s) (p : Nat)
    (hs : s.unlaunched? = some p) : r.unlaunched? = some p := by
  cases h with
  | giveUp => cases hs
  | _ => exact hs

/-- After a turn nobody waits for the launcher. -/
theorem Turn.answering? {o : Outline} {r s : Role} (h : Turn o r s) : s.answering? = none := by
  cases h <;> rfl

/-- A call that does not wait for its console any longer was refused one. -/
theorem Turn.refused? {o : Outline} {r s : Role} (h : Turn o r s) {p c : Nat} {m : Mark}
    (hr : r.answering? = some (p, c)) (hm : o.marks[c]? = some m) : m.refused = true := by
  cases h with
  | refused hk h =>
    cases hr
    rw [Outline.marks_of_some hk] at hm
    cases hm
    simp [Console.mark, Console.isRefused, h]
  | giveUp hs => rcases hs with rfl | rfl <;> cases hr
  | _ => cases hr

/-- A drop launches nothing. -/
theorem Drop.unlaunched? {o : Outline} {p : Nat} {r s : Role} (h : Drop o r p s) (p' : Nat)
    (hs : s.unlaunched? = some p') : r.unlaunched? = some p' := by
  cases h with
  | unadopted => cases hs
  | _ => exact hs

/-- Neither before nor after a drop anybody waits for the launcher. -/
theorem Drop.answering? {o : Outline} {p : Nat} {r s : Role} (h : Drop o r p s) :
    r.answering? = none ∧ s.answering? = none := by
  cases h <;> exact ⟨rfl, rfl⟩

/-- Every rule keeps the supervision. -/
theorem Rule.supervision {a : Actor} {o o' : Outline} (h : Rule a o o') (y : Custody o)
    (v : Supervision o) : Supervision o' := by
  cases h with
  | ask =>
    refine ⟨v.owned, v.single, v.once, v.linked, fun {j c p t m} hj ht => ?_,
      fun {j p c t} hj ht => ?_, fun {c m} hm => ?_⟩
    · rcases getElem?_append_cases hj with hj | ⟨-, rfl⟩
      · exact v.unlaunched hj ht
      · cases ht
    · rcases getElem?_append_cases hj with hj | ⟨-, rfl⟩
      · exact v.answering hj ht
      · cases ht
    · refine (v.accounted hm).imp id (Or.imp id (Or.imp id ?_))
      rintro ⟨j, t, hj, ht⟩
      exact ⟨j, t, getElem?_append_of_some hj _, ht⟩
  | turn hr h =>
    exact v.play hr rfl rfl rfl h.unlaunched? h.answering?
      fun hra hm => .inr (.inl (h.refused? hra hm))
  | @drop _ i p r s hr h =>
    obtain ⟨hra, hsa⟩ := h.answering?
    exact (v.dispose p).play_of_none (by rwa [Outline.dispose_roles]) rfl rfl rfl h.unlaunched?
      hsa hra
  | createMain hr hq => exact v.create hr rfl hq.console_eq
  | createDebug hr hq => exact v.create hr rfl hq.console_eq
  | launch hr hq h => exact v.launch y hr hq
  | hold hr hq h hk ha => exact v.hold y _ hr hq h
  | dismiss hr hq h => exact v.dismiss y hr
  | adopt hr hq h =>
    rw [Outline.watchExit]
    split
    · exact v.play_of_none hr rfl rfl rfl (fun _ => id) rfl rfl
    · exact v.play_of_none hr rfl (map_set_of_eq hq rfl) rfl (fun _ => id) rfl rfl
  | install hr =>
    refine v.play_of_none hr rfl rfl rfl (fun p h => ?_) ?_ rfl
    · split at h <;> exact h
    · split <;> rfl
  | endStop hr | endFailed hr | conclude hr h w =>
    rw [Outline.transition]
    split <;> exact v.retreat hr rfl rfl rfl rfl rfl rfl
  | withdraw hr => split <;> exact v.retreat hr rfl rfl rfl rfl rfl rfl
  | claimStop hr | empty hr | claimStart hr | clear hr | note hr | connect hr | keep hr
  | retract hr => exact v.retreat hr rfl rfl rfl rfl rfl rfl
  | endDebug h => exact (v.dispose _).of_eq rfl rfl rfl
  | dropWatch hx hv => exact (v.dispose _).of_eq rfl rfl rfl
  | @answer _ c k a hk h =>
    refine v.refuse (Outline.marks_of_some hk) { k with answer := some a }.isRefused ?_ ?_ rfl rfl
    · intro hrefused
      simp [Console.mark, Console.isRefused, h] at hrefused
    · simp only [Outline.marks, List.map_set]
      rfl
  | ending hk h => exact v.of_eq rfl (map_set_of_eq hk rfl) rfl
  | passOn hk hq he hw hp => exact v.of_eq (map_set_of_eq hq rfl) (map_set_of_eq hk rfl) rfl
  | write c h => exact v.tell c h
  | choose | callOff | fall | ignore | passWatch | seize | endWatch | busy | idle =>
    exact v.of_eq rfl rfl rfl

end SessionHost
