import SessionHost.Proofs.Lifecycle.Slots

/-!
# What a start stores

A start stores the parts of its server one after the other, each of them once, and only while it
has not been called off.  What was taken out of the session therefore never comes back: its start
is past the step that stored it.

Main definitions:

- `Slot`, `Session.origin?`: the places for the parts of a server, and who has filled them.
- `Outline.Past`: nobody is going to fill a slot for a generation any more.
- `Outline.Stores`: a start fills a slot.
- `Outline.Swept`: a generation and all earlier ones have left the session for good.

Main results:

- Theorem `Rule.origin_cases`: a rule leaves a slot alone, empties it, or is a start that fills it.
- Theorem `Rule.departed`: what was taken out of a slot does not come back.
- Theorem `Rule.pending`: a stop leads to a session that has been swept.
-/

namespace SessionHost

/-! ## Slots -/

/-- The places of a session for the parts of a running server. -/
inductive Slot where
  | process
  | client
  | details
  | version
deriving DecidableEq

/-- The generation that has filled a slot. -/
def Session.origin? (s : Session) : Slot → Option Nat
  | .process => s.process.map Stored.generation
  | .client => s.client.map Stored.generation
  | .details => s.details.map Stored.generation
  | .version => s.version.map Stored.generation

/-- Nothing of a running server is in an empty session. -/
theorem Session.Vacant.origin? {s : Session} (h : s.Vacant) (k : Slot) : s.origin? k = none := by
  obtain ⟨hp, hc, hd, hv⟩ := h
  cases k <;> simp [Session.origin?, hp, hc, hd, hv]

@[simp]
theorem Session.origin?_withoutLive (s : Session) (k : Slot) : s.withoutLive.origin? k = none :=
  s.withoutLive_vacant.origin? k

/-- The slots that a start has filled by the last thing it has stored. -/
def Milestone.stored : Milestone → List Slot
  | .nothing => []
  | .process => [.process]
  | .details => [.process, .details]
  | .opening _ => [.process, .details]
  | .client => [.process, .details, .client]

/-- The slots that a call is not going to fill, because it has done so or never will. -/
def Role.stored : Role → List Slot
  | .clearing _ _ => []
  | .starting _ m => m.stored
  | .bringing _ _ .fresh => []
  | .bringing _ _ _ => [.process]
  | _ => [.process, .client, .details, .version]

/-- From one role to another one, a call with the claim to a start keeps it, and stores nothing
that it has stored already. -/
def Role.Advances (r s : Role) : Prop :=
  ∀ g, s.claim? = some (.start g) → r.claim? = some (.start g) ∧ r.stored ⊆ s.stored

theorem Role.Advances.of_eq {r s : Role} (hclaim : s.claim? = r.claim?)
    (h : r.stored ⊆ s.stored) : r.Advances s :=
  fun _ hs => ⟨hclaim ▸ hs, h⟩

/-- A call without the claim to a start stores nothing. -/
theorem Role.Advances.of_none {r s : Role} (h : ∀ g, s.claim? ≠ some (.start g)) : r.Advances s :=
  fun g hs => absurd hs (h g)

theorem Turn.advances {o : Outline} {r s : Role} (h : Turn o r s) : r.Advances s := by
  cases h with
  | passClearing | passFailing | landed | refused | cleared =>
    exact .of_eq rfl (by simp [Role.stored, Milestone.stored])
  | fail h => exact .of_eq rfl (by intro k; cases k <;> simp [Role.stored])
  | giveUp | quit | debugStarted => exact .of_none fun _ h => by cases h

theorem Drop.advances {o : Outline} {p : Nat} {r s : Role} (h : Drop o r p s) :
    r.Advances s := by
  cases h with
  | clearing | failing => exact .of_eq rfl (by simp [Role.stored])
  | _ => exact .of_none fun _ h => by cases h

/-! ## Slots that are past -/

section Roles

variable {o o' : Outline} {i j : Nat} {r s u : Role}

theorem Role.Advances.refl (r : Role) : r.Advances r :=
  .of_eq rfl fun _ => id

/-- When one call advances, so do all. -/
theorem advances_of_set (hr : o.roles[i]? = some r) (hj : (o.roles.set i s)[j]? = some u)
    (hs : r.Advances s) : ∃ t, o.roles[j]? = some t ∧ t.Advances u := by
  rcases getElem?_set_cases hj with ⟨rfl, rfl⟩ | ⟨-, hj⟩
  · exact ⟨r, hr, hs⟩
  · exact ⟨u, hj, .refl u⟩

/-- A call with the claim to a start has advanced to its role, or has just claimed a new
generation. -/
theorem Rule.advances {a : Actor} (h : Rule a o o') {g : Nat} (hj : o'.roles[j]? = some u)
    (hu : u.claim? = some (.start g)) :
    (∃ t, o.roles[j]? = some t ∧ t.Advances u) ∨ o.generation < g := by
  cases h with
  | ask =>
    rcases getElem?_append_cases hj with hj | ⟨-, rfl⟩
    · exact .inl ⟨u, hj, .refl u⟩
    · cases hu
  | claimStart hr h =>
    rcases getElem?_set_cases hj with ⟨-, rfl⟩ | ⟨-, hj⟩
    · cases hu
      exact .inr (Nat.lt_succ_self _)
    · exact .inl ⟨u, hj, .refl u⟩
  | turn hr h => exact .inl (advances_of_set hr hj h.advances)
  | drop hr h =>
    rw [Outline.setRole, Outline.dispose_roles] at hj
    exact .inl (advances_of_set hr hj h.advances)
  | claimStop hr | empty hr | createDebug hr | dismiss hr =>
    exact .inl (advances_of_set hr hj (.of_none fun _ h => by cases h))
  | endStop hr | endFailed hr | conclude hr =>
    rw [Outline.setRole, Outline.transition_roles] at hj
    exact .inl (advances_of_set hr hj (.of_none fun _ h => by cases h))
  | withdraw hr =>
    refine .inl (advances_of_set (s := .bystander) hr ?_ (.of_none fun _ h => by cases h))
    split at hj <;> exact hj
  | install hr =>
    refine .inl (advances_of_set hr hj (.of_none fun g => ?_))
    split <;> simp [Role.claim?, Purpose.claim?]
  | clear hr | retract hr | launch hr | hold hr | createMain hr | note hr | connect hr | keep hr =>
    exact .inl (advances_of_set hr hj (.of_eq rfl (by simp [Role.stored, Milestone.stored])))
  | adopt hr =>
    rw [Outline.setRole, Outline.watchExit_roles] at hj
    exact .inl (advances_of_set hr hj (.of_eq rfl (by simp [Role.stored])))
  | endDebug h =>
    rw [Outline.withoutDebug, Outline.dispose_roles] at hj
    exact .inl ⟨u, hj, .refl u⟩
  | dropWatch hx hv =>
    rw [Outline.setVigil, Outline.dispose_roles] at hj
    exact .inl ⟨u, hj, .refl u⟩
  | _ => exact .inl ⟨u, hj, .refl u⟩

end Roles

/-- Generations do not go back. -/
theorem Rule.generation_le {a : Actor} {o o' : Outline} (h : Rule a o o') :
    o.generation ≤ o'.generation := by
  cases h with
  | claimStart hr h => exact Nat.le_succ _
  | drop | endDebug | dropWatch => exact Nat.le_of_eq (o.dispose_generation _).symm
  | endStop hr | endFailed hr | conclude hr h v =>
    rw [Outline.transition]
    split <;> exact Nat.le_refl _
  | adopt hr hq h =>
    rw [Outline.watchExit]
    split <;> exact Nat.le_refl _
  | withdraw hr => split <;> exact Nat.le_refl _
  | _ => exact Nat.le_refl _

namespace Outline

variable {o o' : Outline} {i g : Nat} {k : Slot} {r s : Role}

/-- No start is going to fill the slot for the generation any more. -/
def Past (o : Outline) (k : Slot) (g : Nat) : Prop :=
  g ≤ o.generation ∧ ∀ {i : Nat} {r : Role}, o.roles[i]? = some r →
    r.claim? = some (.start g) → k ∈ r.stored

/-- A slot is past once the only start of its generation has filled it. -/
theorem Past.of_alone (t : Tenure o) (hr : o.roles[i]? = some r)
    (hclaim : r.claim? = some (.start g)) (hroles : o'.roles = o.roles.set i s)
    (hs : s.claim? = some (.start g) → k ∈ s.stored) (hg : o'.generation = o.generation) :
    o'.Past k g := by
  refine ⟨hg ▸ (t.admits hr hclaim).1, fun {j u} hj hu => ?_⟩
  rw [hroles] at hj
  rcases getElem?_set_cases hj with ⟨-, rfl⟩ | ⟨hji, hj⟩
  · exact hs hu
  · exact absurd (t.alone hj hr hu hclaim) hji

end Outline

/-- A slot that is past stays past. -/
theorem Rule.past {a : Actor} {o o' : Outline} (h : Rule a o o') {k : Slot} {g : Nat}
    (hp : o.Past k g) : o'.Past k g := by
  refine ⟨Nat.le_trans hp.1 h.generation_le, fun {j u} hj hu => ?_⟩
  rcases h.advances hj hu with ⟨r, hr, hadvances⟩ | hlt
  · obtain ⟨hclaim, hsub⟩ := hadvances g hu
    exact hsub (hp.2 hr hclaim)
  · exact absurd hlt (Nat.not_lt.2 hp.1)

/-! ## Filling and emptying a slot -/

/-- A start that has not been called off fills a slot, for the first and the last time. -/
structure Outline.Stores (o : Outline) (k : Slot) (g : Nat) (o' : Outline) : Prop where
  origin : o'.session.origin? k = some g
  allowed : .start g ∉ o.cancelled
  first : ∃ (i : Nat) (r : Role), o.roles[i]? = some r ∧ r.claim? = some (.start g) ∧ k ∉ r.stored
  last : o'.Past k g
  /-- A process or a client takes nothing's place. -/
  empty : k = .process ∨ k = .client → o.session.origin? k = none

/-- A slot that is past is not filled. -/
theorem Outline.Stores.not_past {o o' : Outline} {k : Slot} {g : Nat} (h : o.Stores k g o') :
    ¬o.Past k g := by
  intro hp
  obtain ⟨i, r, hr, hclaim, hk⟩ := h.first
  exact hk (hp.2 hr hclaim)

/-- A start that stores something fills one slot, and leaves the others alone. -/
theorem origin_of_store {o o' : Outline} {i g : Nat} {r s : Role} {x : Session} {k : Slot}
    (t : Tenure o) (hr : o.roles[i]? = some r) (hclaim : r.claim? = some (.start g))
    (h : .start g ∉ o.cancelled) (hroles : o'.roles = o.roles.set i s)
    (hg : o'.generation = o.generation) (hsession : o'.session = x) (slot : Slot)
    (hslot : x.origin? slot = some g)
    (hother : ∀ k, k ≠ slot → x.origin? k = o.session.origin? k)
    (hfirst : slot ∉ r.stored) (hlast : s.claim? = some (.start g) → slot ∈ s.stored)
    (hempty : slot = .process ∨ slot = .client → o.session.origin? slot = none) :
    o'.session.origin? k = o.session.origin? k ∨ o'.session.origin? k = none ∨
      ∃ g, o.Stores k g o' := by
  by_cases hk : k = slot
  · subst hk
    refine .inr (.inr ⟨g, hsession ▸ hslot, h, ⟨i, r, hr, hclaim, hfirst⟩, ?_, hempty⟩)
    exact .of_alone t hr hclaim hroles hlast hg
  · exact .inl (hsession ▸ hother k hk)

/-- A rule leaves a slot alone, empties it, or is a start that fills it. -/
theorem Rule.origin_cases {a : Actor} {o o' : Outline} (h : Rule a o o') (t : Tenure o)
    (l : Slots o) (k : Slot) :
    o'.session.origin? k = o.session.origin? k ∨ o'.session.origin? k = none ∨
      ∃ g, o.Stores k g o' := by
  cases h with
  | empty hr =>
    refine .inr (.inl ?_)
    cases k <;> rfl
  | clear hr h | retract hr h | seize hx hv h => exact .inr (.inl (Session.origin?_withoutLive _ k))
  | @adopt _ i g p q hr hq h =>
    obtain ⟨rfl, hs⟩ := (t.admits hr rfl).2 h
    have hv : o.session.Vacant := l.fits hr rfl (Outline.claim?_of_starting hs)
    refine origin_of_store t hr rfl h (s := .bringing (.main o.generation) p .installed)
      (x := { o.session with process := some ⟨o.generation, p⟩ }) ?_ ?_ ?_ .process rfl ?_
      (by simp [Role.stored]) (by simp [Role.stored]) fun _ => hv.origin? _
    · exact congrArg (List.set · i _) (Outline.watchExit_roles ..)
    · rw [Outline.watchExit]
      split <;> rfl
    · rw [Outline.watchExit]
      split <;> rfl
    · intro k hk
      cases k <;> first | rfl | exact absurd rfl hk
  | @note _ i g hr h d =>
    refine origin_of_store t hr rfl h rfl rfl rfl .details rfl ?_
      (by simp [Role.stored, Milestone.stored]) (by simp [Role.stored, Milestone.stored]) (by simp)
    intro k hk
    cases k <;> first | rfl | exact absurd rfl hk
  | @keep _ i g c hr h =>
    obtain ⟨rfl, hs⟩ := (t.admits hr rfl).2 h
    obtain ⟨-, hnone⟩ := l.fits hr rfl (Outline.claim?_of_starting hs)
    refine origin_of_store t hr rfl h rfl rfl rfl .client rfl ?_
      (by simp [Role.stored, Milestone.stored]) (by simp [Role.stored, Milestone.stored])
      fun _ => by simp [Session.origin?, hnone]
    intro k hk
    cases k <;> first | rfl | exact absurd rfl hk
  | @conclude _ i g hr h v =>
    refine origin_of_store t hr rfl h (s := .bystander)
      (x := { o.session with version := some ⟨g, v⟩ }) ?_ ?_ ?_ .version rfl ?_
      (by simp [Role.stored, Milestone.stored]) (by simp [Role.claim?]) (by simp)
    · exact congrArg (List.set · i _) (Outline.transition_roles ..)
    · rw [Outline.transition]
      split <;> rfl
    · rw [Outline.transition]
      split <;> rfl
    · intro k hk
      cases k <;> first | rfl | exact absurd rfl hk
  | drop hr h => exact .inl (by rw [Outline.setRole, Outline.dispose_session])
  | endStop hr | endFailed hr =>
    rw [Outline.transition]
    split <;> exact .inl rfl
  | withdraw hr =>
    refine .inl ?_
    split <;> cases k <;> rfl
  | endDebug h =>
    refine .inl ?_
    rw [Outline.withoutDebug, Outline.dispose_session]
    cases k <;> rfl
  | dropWatch hx hv => exact .inl (by rw [Outline.setVigil, Outline.dispose_session])
  | choose | install => exact .inl (by cases k <;> rfl)
  | _ => exact .inl rfl

/-- What is in a slot was there before, or a start has just filled it. -/
theorem Rule.origin_of_some {a : Actor} {o o' : Outline} (h : Rule a o o') (t : Tenure o)
    (l : Slots o) {k : Slot} {g : Nat} (hk : o'.session.origin? k = some g) :
    o.session.origin? k = some g ∨ o.Stores k g o' := by
  rcases h.origin_cases t l k with heq | hnone | ⟨g', hstores⟩
  · exact .inl (heq ▸ hk)
  · rw [hnone] at hk
    cases hk
  · obtain rfl : g' = g := Option.some.inj (hstores.origin.symm.trans hk)
    exact .inr hstores

/-! ## What follows for a whole run -/

namespace Outline

/-- What is in the session was stored for the last time. -/
def Once (o : Outline) : Prop := ∀ k g, o.session.origin? k = some g → o.Past k g

/-- What a generation has stored in a slot was taken out of it. -/
def Departed (o : Outline) (k : Slot) (g : Nat) : Prop := o.Past k g ∧ o.session.origin? k ≠ some g

/-- A generation that was called off has nothing in the session but what was there at some
earlier moment. -/
def Barred (past : Session) (g : Nat) (o : Outline) : Prop :=
  .start g ∈ o.cancelled ∧ ∀ k, o.session.origin? k = some g → past.origin? k = some g

/-- A generation and all earlier ones have left the session for good. -/
structure Swept (o : Outline) (g : Nat) : Prop where
  begun : g ≤ o.generation
  left : ∀ {k : Slot} {g' : Nat}, o.session.origin? k = some g' → g < g'
  calledOff : ∀ {i : Nat} {r : Role} {g' : Nat}, o.roles[i]? = some r →
    r.claim? = some (.start g') → g' ≤ g → .start g' ∈ o.cancelled

/-- A generation and all earlier ones have left the session for good, or are about to: a stop is
under way. -/
def Pending (o : Outline) (g : Nat) : Prop := (o.status = .stopping ∧ g ≤ o.generation) ∨ o.Swept g

/-- An empty session has been swept, unless a start is under way. -/
theorem Swept.of_vacant {o : Outline} (t : Tenure o) (hv : o.session.Vacant)
    (hs : o.status ≠ .starting) {g : Nat} (hg : g ≤ o.generation) : o.Swept g where
  begun := hg
  left {k g'} h := by
    rw [hv.origin? k] at h
    cases h
  calledOff {i r g'} hr hclaim _ := by
    by_contra hc
    exact hs ((t.admits hr hclaim).2 hc).2

end Outline

variable {a : Actor} {o o' : Outline}

/-- What is in the session was stored for the last time, after every rule. -/
theorem Rule.once (h : Rule a o o') (t : Tenure o) (l : Slots o) (ho : o.Once) : o'.Once := by
  intro k g hk
  rcases h.origin_of_some t l hk with hk | hstores
  · exact h.past (ho k g hk)
  · exact hstores.last

/-- What was taken out of a slot does not come back. -/
theorem Rule.departed (h : Rule a o o') (t : Tenure o) (l : Slots o) {k : Slot} {g : Nat}
    (ho : o.Departed k g) : o'.Departed k g := by
  refine ⟨h.past ho.1, fun hk => ?_⟩
  rcases h.origin_of_some t l hk with hk | hstores
  · exact ho.2 hk
  · exact hstores.not_past ho.1

/-- What was called off stays so. -/
theorem Rule.cancelled_subset (h : Rule a o o') : o.cancelled ⊆ o'.cancelled := by
  cases h with
  | claimStop hr h h' => exact List.subset_append_left _ _
  | callOff p => exact List.subset_append_left _ _
  | drop | endDebug | dropWatch =>
    simp [Outline.setRole, Outline.setVigil, Outline.withoutDebug]
  | endStop hr | endFailed hr | conclude hr h v =>
    rw [Outline.transition]
    split <;> exact fun _ => id
  | adopt hr hq h =>
    rw [Outline.watchExit]
    split <;> exact fun _ => id
  | withdraw hr => split <;> exact fun _ => id
  | _ => exact fun _ => id

/-- A start that was called off stores nothing. -/
theorem Rule.barred (h : Rule a o o') (t : Tenure o) (l : Slots o) {past : Session} {g : Nat}
    (ho : o.Barred past g) : o'.Barred past g := by
  refine ⟨h.cancelled_subset ho.1, fun k hk => ?_⟩
  rcases h.origin_of_some t l hk with hk | hstores
  · exact ho.2 k hk
  · exact absurd ho.1 hstores.allowed

/-- What has left the session for good does not come back. -/
theorem Rule.swept (h : Rule a o o') (t : Tenure o) (l : Slots o) {g : Nat} (ho : o.Swept g) :
    o'.Swept g where
  begun := Nat.le_trans ho.begun h.generation_le
  left {k g'} hk := by
    rcases h.origin_of_some t l hk with hk | hstores
    · exact ho.left hk
    · obtain ⟨i, r, hr, hclaim, -⟩ := hstores.first
      by_contra hle
      exact hstores.allowed (ho.calledOff hr hclaim (Nat.not_lt.1 hle))
  calledOff {j u g'} hj hu hle := by
    rcases h.advances hj hu with ⟨r, hr, hadvances⟩ | hlt
    · exact h.cancelled_subset (ho.calledOff hr (hadvances g' hu).1 hle)
    · have hbegun := ho.begun
      omega

/-- Only a stop's own end ends it. -/
theorem Rule.status_of_stopping (h : Rule a o o') (hs : o.status = .stopping) :
    o'.status = .stopping ∨ o'.status = .notStarted := by
  cases h with
  | claimStop hr h h' => exact absurd hs h'
  | claimStart hr h => rcases h with h | h <;> rw [h] at hs <;> cases hs
  | endStop hr =>
    rw [Outline.transition, if_pos ⟨rfl, by simp [hs]⟩]
    exact .inr rfl
  | endFailed hr | conclude hr h v =>
    rw [Outline.transition, if_neg (by simp [hs])]
    exact .inl hs
  | fall hx hv hq he hr hg hlive =>
    rw [hs] at hlive
    cases hlive
  | busy h | idle h =>
    rw [h] at hs
    cases hs
  | drop | endDebug | dropWatch => exact .inl ((o.dispose_status _).trans hs)
  | adopt hr hq h =>
    rw [Outline.watchExit]
    split <;> exact .inl hs
  | withdraw hr => split <;> exact .inl hs
  | _ => exact .inl hs

/-- A stop that is under way leaves a session that has been swept. -/
theorem Rule.pending (h : Rule a o o') (t : Tenure o) (l : Slots o) (t' : Tenure o')
    (l' : Slots o') {g : Nat} (ho : o.Pending g) : o'.Pending g := by
  rcases ho with ⟨hs, hg⟩ | hswept
  · have hg' : g ≤ o'.generation := Nat.le_trans hg h.generation_le
    rcases h.status_of_stopping hs with hs' | hs'
    · exact .inl ⟨hs', hg'⟩
    · exact .inr (.of_vacant t' (l'.idle hs') (by simp [hs']) hg')
  · exact .inr (h.swept t l hswept)

end SessionHost
