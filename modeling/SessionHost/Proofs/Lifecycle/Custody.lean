import SessionHost.Proofs.Lifecycle.Slots

/-!
# Custody of the processes

Every process that has not been disposed of is in somebody's hands: the call that has made it,
the session, or an activity that has taken it out of the session and is about to dispose of it.
What the session holds as its main process is in nobody else's hands.

Main definitions:

- `Standing`: what can be said of a process, whatever becomes of its console.
- `Outline.Kept`: a process is in somebody's hands.
- `Custody`: the processes and their keepers.

Main results:

- Theorem `Rule.custody`: every rule keeps the custody.
-/

namespace SessionHost

/-! ## Standing of a process -/

/-- What can be said of a process, whatever becomes of its console. -/
structure Standing where
  purpose : Purpose
  noticed : Bool
  disposed : Bool

/-- The standing of a process. -/
def ServerProcess.standing (q : ServerProcess) : Standing :=
  ⟨q.purpose, q.noticeTaken, q.disposed⟩

/-- The standing of a process by its number. -/
def Outline.standing? (o : Outline) (p : Nat) : Option Standing :=
  o.processes[p]?.map ServerProcess.standing

namespace Outline

/-- How a process stands is read off the process. -/
theorem standing?_of_some {o : Outline} {p : Nat} {q : ServerProcess}
    (h : o.processes[p]? = some q) : o.standing? p = some q.standing := by
  rw [standing?, h]
  rfl

/-- Whatever stands is a process. -/
theorem exists_of_standing? {o : Outline} {p : Nat} {s : Standing}
    (h : o.standing? p = some s) : ∃ q, o.processes[p]? = some q ∧ q.standing = s := by
  simpa [standing?] using h

/-- A change of a process that keeps its standing keeps every standing. -/
theorem standing?_set {o : Outline} {p : Nat} {q q' : ServerProcess}
    (h : o.processes[p]? = some q) (hq : q'.standing = q.standing) (p' : Nat) :
    { o with processes := o.processes.set p q' }.standing? p' = o.standing? p' := by
  simp only [standing?]
  rw [← List.getElem?_map, ← List.getElem?_map, map_set_of_eq h hq]

/-- A disposal changes the standing of one process only. -/
theorem standing?_dispose (o : Outline) (p p' : Nat) :
    (o.dispose p).standing? p' =
      (o.standing? p').map fun s => if p' = p then { s with disposed := true } else s := by
  have hset : ∀ (q : ServerProcess), o.processes[p]? = some q →
      (o.processes.set p q.retired)[p']?.map ServerProcess.standing =
        (o.standing? p').map fun s => if p' = p then { s with disposed := true } else s := by
    intro q hq
    by_cases h : p' = p
    · subst h
      rw [getElem?_set_at hq, standing?, hq]
      simp [ServerProcess.standing, ServerProcess.retired]
    · rw [List.getElem?_set_ne (Ne.symm h)]
      simp [standing?, h, Function.comp_def]
  unfold dispose
  split
  · rename_i q hq
    split
    · rename_i hd
      by_cases h : p' = p
      · subst h
        simp [standing?, hq, ServerProcess.standing, hd]
      · simp [h]
    · have hretire := hset q hq
      simp only [retire, tellAny]
      split <;> exact hretire
  · rename_i hq
    by_cases h : p' = p
    · subst h
      simp [standing?, hq]
    · simp [h]

/-- A disposal keeps what a process is for, and what the session has seen of it. -/
theorem standing?_dispose_of_some {o : Outline} {p' : Nat} {s : Standing}
    (h : o.standing? p' = some s) (p : Nat) :
    ∃ d, (o.dispose p).standing? p' = some ⟨s.purpose, s.noticed, d⟩ ∧
      (s.disposed = true → d = true) := by
  rw [standing?_dispose, h]
  by_cases hp : p' = p
  · exact ⟨true, by simp [hp], fun _ => rfl⟩
  · exact ⟨s.disposed, by simp [hp], id⟩

/-- A process that has been made stays. -/
theorem standing?_append {o : Outline} {p : Nat} {s : Standing} (h : o.standing? p = some s)
    (q : ServerProcess) : { o with processes := o.processes ++ [q] }.standing? p = some s := by
  obtain ⟨q', hq', rfl⟩ := exists_of_standing? h
  exact standing?_of_some (getElem?_append_of_some hq' q)

/-- A new process is an old one, or stands at the end. -/
theorem standing?_append_cases {o : Outline} {p : Nat} {s : Standing} {q : ServerProcess}
    (h : { o with processes := o.processes ++ [q] }.standing? p = some s) :
    o.standing? p = some s ∨ (p = o.processes.length ∧ s = q.standing) := by
  obtain ⟨q', hq', rfl⟩ := exists_of_standing? h
  rcases getElem?_append_cases hq' with h | ⟨hp, rfl⟩
  · exact .inl (standing?_of_some h)
  · exact .inr ⟨hp, rfl⟩

/-- There is no process behind the last one. -/
theorem standing?_ne_length {o : Outline} {p : Nat} {s : Standing} (h : o.standing? p = some s) :
    p ≠ o.processes.length := by
  obtain ⟨q, hq, -⟩ := exists_of_standing? h
  exact Nat.ne_of_lt (List.getElem?_eq_some_iff.1 hq).1

end Outline

/-! ## What a role has in hand -/

/-- The process that a call brings up, with its purpose. -/
def Role.brings? : Role → Option (Purpose × Nat)
  | .bringing u p _ => some (u, p)
  | .replacing p _ => some (.debug, p)
  | _ => none

/-- The process that nobody knows but the call that has made it. -/
def Role.fresh? : Role → Option (Purpose × Nat)
  | .bringing u p .fresh => some (u, p)
  | _ => none

/-- What the call has taken out of the session and disposes of. -/
def Role.dropped : Role → List Nat
  | .emptying p d => p.toList ++ d.toList
  | .clearing _ grip => grip.held?.toList
  | .failing _ grip => grip.held?.toList
  | .replacing _ q => [q]
  | _ => []

/-- The process that has failed to come up, which the call takes back. -/
def Role.withdraws? : Role → Option Nat
  | .withdrawing p => some p
  | _ => none

/-- The process is in the call's hands. -/
def Role.Keeps (p : Nat) (r : Role) : Prop := p ∈ r.dropped ∨ ∃ u, r.fresh? = some (u, p)

/-- The call has no process to see to. -/
def Role.Free (r : Role) : Prop := r.brings? = none ∧ r.dropped = [] ∧ r.withdraws? = none

theorem Role.fresh?_of_brings? {r : Role} (h : r.brings? = none) : r.fresh? = none := by
  unfold fresh?
  split
  · cases h
  · rfl

/-- Who has a fresh process in hand brings it up. -/
theorem Role.brings?_of_fresh? {r : Role} {u : Purpose} {p : Nat} (h : r.fresh? = some (u, p)) :
    r.brings? = some (u, p) := by
  unfold fresh? at h
  split at h <;> cases h
  rfl

/-- A role with nothing in its hands. -/
theorem Role.not_keeps {r : Role} (hd : r.dropped = []) (hf : r.fresh? = none) (p : Nat) :
    ¬r.Keeps p := by
  rintro (h | ⟨u, h⟩)
  · rw [hd] at h
    cases h
  · rw [hf] at h
    cases h

/-- The process that a watch disposes of. -/
def Vigil.held? : Vigil → Option Nat
  | .releasing grip => grip.held?
  | _ => none

/-- A watch without a process holds none. -/
theorem Vigil.ne_of_held? {v : Vigil} (h : v.held? = none) (p : Nat) :
    v ≠ .releasing (.holding (some p)) := by
  rintro rfl
  cases h

/-- The watch has taken the process out of the session and disposes of it. -/
def Lookout.Drops (p : Nat) (x : Lookout) : Prop := x.vigil = .releasing (.holding (some p))

namespace Outline

/-- A process that is in somebody's hands. -/
inductive Kept (o : Outline) (p : Nat) : Prop where
  | call {i : Nat} {r : Role} (hr : o.roles[i]? = some r) (h : r.Keeps p)
  | watch {j : Nat} {x : Lookout} (hx : o.lookouts[j]? = some x) (h : x.Drops p)
  | process {g : Nat} (h : o.session.process = some ⟨g, p⟩)
  | debug (h : o.session.debug = some p)

/-- A process that may be disposed of: it is not the session's main process. -/
def Loose (o : Outline) (p : Nat) : Prop :=
  ∃ s, o.standing? p = some s ∧
    (s.purpose = .debug ∨ s.noticed = true ∧ ∀ g, o.session.process ≠ some ⟨g, p⟩)

/-- A process that has been disposed of. -/
def Gone (o : Outline) (p : Nat) : Prop := ∃ u n, o.standing? p = some ⟨u, n, true⟩

/-- A process of a debug session. -/
def ForDebug (o : Outline) (p : Nat) : Prop := ∃ n d, o.standing? p = some ⟨.debug, n, d⟩

/-- A process for debug sessions is loose. -/
theorem ForDebug.loose {o : Outline} {p : Nat} (h : o.ForDebug p) : o.Loose p := by
  obtain ⟨n, d, hs⟩ := h
  exact ⟨_, hs, .inl rfl⟩

/-- What may be disposed of may be disposed of still when something else is. -/
theorem Loose.dispose {o : Outline} {p' : Nat} (h : o.Loose p') (p : Nat) :
    (o.dispose p).Loose p' := by
  obtain ⟨s, hs, h⟩ := h
  obtain ⟨d, hd, -⟩ := standing?_dispose_of_some hs p
  refine ⟨_, hd, ?_⟩
  rwa [dispose_session]

end Outline

/-- The processes and their keepers. -/
structure Custody (o : Outline) : Prop where
  alone : ∀ {i j : Nat} {r s : Role} {u v : Purpose} {p : Nat}, o.roles[i]? = some r →
    o.roles[j]? = some s → r.brings? = some (u, p) → s.brings? = some (v, p) → i = j
  known : ∀ {i : Nat} {r : Role} {u : Purpose} {p : Nat}, o.roles[i]? = some r →
    r.brings? = some (u, p) → ∃ n d, o.standing? p = some ⟨u, n, d⟩
  /-- A new main process is nobody's but its start's. -/
  fresh : ∀ {i : Nat} {r : Role} {g p : Nat}, o.roles[i]? = some r →
    r.fresh? = some (.main g, p) →
    ∃ d, o.standing? p = some ⟨.main g, false, d⟩ ∧ (.start g ∉ o.cancelled → d = false)
  seated : ∀ {g p : Nat}, o.session.process = some ⟨g, p⟩ →
    o.standing? p = some ⟨.main g, true, false⟩
  debug : ∀ {p : Nat}, o.session.debug = some p → o.ForDebug p
  loose : ∀ {i : Nat} {r : Role} {p : Nat}, o.roles[i]? = some r → p ∈ r.dropped → o.Loose p
  seized : ∀ {j : Nat} {x : Lookout} {p : Nat}, o.lookouts[j]? = some x → x.Drops p → o.Loose p
  withdrawn : ∀ {i : Nat} {r : Role} {p : Nat}, o.roles[i]? = some r →
    r.withdraws? = some p → o.Gone p
  kept : ∀ {u : Purpose} {n : Bool} {p : Nat}, o.standing? p = some ⟨u, n, false⟩ → o.Kept p

namespace Custody

variable {o o' : Outline} {i p : Nat} {r s : Role}

/-- What may be disposed of is not the session's main process. -/
theorem not_seated (c : Custody o) (h : o.Loose p) (g : Nat) :
    o.session.process ≠ some ⟨g, p⟩ := by
  obtain ⟨s, hs, hdebug | ⟨-, hne⟩⟩ := h
  · intro hp
    rw [c.seated hp, Option.some.injEq] at hs
    subst hs
    cases hdebug
  · exact hne g

/-- What may be disposed of is not a new main process. -/
theorem not_fresh (c : Custody o) (h : o.Loose p) (hr : o.roles[i]? = some r) (g : Nat) :
    r.fresh? ≠ some (.main g, p) := by
  intro hfresh
  obtain ⟨d, hd, -⟩ := c.fresh hr hfresh
  obtain ⟨s, hs, hdebug | ⟨hnoticed, -⟩⟩ := h
  · rw [hd, Option.some.injEq] at hs
    subst hs
    cases hdebug
  · rw [hd, Option.some.injEq] at hs
    subst hs
    cases hnoticed

/-! ## Changes that make and end no process -/

/-- What a call must see to when it plays another role. -/
structure Handover (o' : Outline) (r s : Role) : Prop where
  brings : ∀ {u : Purpose} {p : Nat}, s.brings? = some (u, p) → r.brings? = some (u, p)
  fresh : s.fresh? = none
  loose : ∀ {p : Nat}, p ∈ s.dropped → o'.Loose p
  withdrawn : ∀ {p : Nat}, s.withdraws? = some p → o'.Gone p

/-- A role that brings up nothing sees to what it has in hand. -/
theorem Handover.of_brings? (r : Role) (hb : s.brings? = none)
    (hd : ∀ {p : Nat}, p ∈ s.dropped → o'.Loose p) (hw : s.withdraws? = none) :
    Handover o' r s where
  brings h := by
    rw [hb] at h
    cases h
  fresh := Role.fresh?_of_brings? hb
  loose := hd
  withdrawn h := by
    rw [hw] at h
    cases h

/-- A free role can always be played. -/
theorem Handover.of_free (r : Role) (h : s.Free) : Handover o' r s :=
  .of_brings? r h.1 (fun hp => by rw [h.2.1] at hp; cases hp) h.2.2

/-- A call goes on with the process that it brings up. -/
theorem Handover.of_same (hb : s.brings? = r.brings?) (hf : s.fresh? = none)
    (hd : s.dropped = []) (hw : s.withdraws? = none) : Handover o' r s where
  brings h := hb ▸ h
  fresh := hf
  loose h := by
    rw [hd] at h
    cases h
  withdrawn h := by
    rw [hw] at h
    cases h

/-- The custody of unchanged processes: calls hand over, and nothing falls from the hands. -/
theorem move (c : Custody o) (hst : ∀ p, o'.standing? p = o.standing? p)
    (hcan : ∀ g, .start g ∈ o.cancelled → .start g ∈ o'.cancelled)
    (hproc : ∀ {g p : Nat}, o'.session.process = some ⟨g, p⟩ → o.session.process = some ⟨g, p⟩)
    (hdebug : ∀ {p : Nat}, o'.session.debug = some p → o.ForDebug p)
    (hroles : ∀ {j : Nat} {t : Role}, o'.roles[j]? = some t →
      o.roles[j]? = some t ∨ ∃ r, o.roles[j]? = some r ∧ Handover o' r t)
    (hlook : ∀ {j : Nat} {x : Lookout} {p : Nat}, o'.lookouts[j]? = some x → x.Drops p →
      (∃ k : Nat, o.lookouts[k]? = some x) ∨ o'.Loose p)
    (hkept : ∀ {p : Nat}, o.Kept p → o'.Kept p ∨ o.Gone p) : Custody o' := by
  have hloose : ∀ {p : Nat}, o.Loose p → o'.Loose p := by
    rintro p ⟨s, hs, h⟩
    refine ⟨s, (hst p).trans hs, h.imp id fun ⟨hn, hne⟩ => ⟨hn, fun g hg => hne g (hproc hg)⟩⟩
  have hbrings : ∀ {j : Nat} {t : Role} {u : Purpose} {p : Nat}, o'.roles[j]? = some t →
      t.brings? = some (u, p) → ∃ r, o.roles[j]? = some r ∧ r.brings? = some (u, p) := by
    intro j t u p hj ht
    rcases hroles hj with hj | ⟨r, hr, hand⟩
    · exact ⟨t, hj, ht⟩
    · exact ⟨r, hr, hand.brings ht⟩
  constructor
  case alone =>
    intro j k t t' u v p hj hk ht ht'
    obtain ⟨r, hr, hru⟩ := hbrings hj ht
    obtain ⟨r', hr', hrv⟩ := hbrings hk ht'
    exact c.alone hr hr' hru hrv
  case known =>
    intro j t u p hj ht
    obtain ⟨r, hr, hru⟩ := hbrings hj ht
    rw [hst]
    exact c.known hr hru
  case fresh =>
    intro j t g p hj ht
    rcases hroles hj with hj | ⟨r, hr, hand⟩
    · obtain ⟨d, hd, hoff⟩ := c.fresh hj ht
      exact ⟨d, (hst p).trans hd, fun h => hoff fun h' => h (hcan g h')⟩
    · rw [hand.fresh] at ht
      cases ht
  case seated =>
    intro g p hp
    rw [hst]
    exact c.seated (hproc hp)
  case debug =>
    intro p hp
    obtain ⟨n, d, h⟩ := hdebug hp
    exact ⟨n, d, (hst p).trans h⟩
  case loose =>
    intro j t p hj ht
    rcases hroles hj with hj | ⟨r, hr, hand⟩
    · exact hloose (c.loose hj ht)
    · exact hand.loose ht
  case seized =>
    intro j x p hj hx
    rcases hlook hj hx with ⟨k, hk⟩ | h
    · exact hloose (c.seized hk hx)
    · exact h
  case withdrawn =>
    intro j t p hj ht
    rcases hroles hj with hj | ⟨r, hr, hand⟩
    · obtain ⟨u, n, h⟩ := c.withdrawn hj ht
      exact ⟨u, n, (hst p).trans h⟩
    · exact hand.withdrawn ht
  case kept =>
    intro u n p hp
    rw [hst] at hp
    refine (hkept (c.kept hp)).elim id ?_
    rintro ⟨v, m, hgone⟩
    rw [hp] at hgone
    cases hgone

/-- A role that a call takes up in the place of another one. -/
theorem roles_of_set (hr : o.roles[i]? = some r) (hroles : o'.roles = o.roles.set i s)
    (hand : Handover o' r s) {j : Nat} {t : Role} (hj : o'.roles[j]? = some t) :
    o.roles[j]? = some t ∨ ∃ r, o.roles[j]? = some r ∧ Handover o' r t := by
  rw [hroles] at hj
  rcases getElem?_set_cases hj with ⟨rfl, rfl⟩ | ⟨-, hj⟩
  · exact .inr ⟨r, hr, hand⟩
  · exact .inl hj

/-- A call plays another role, and nothing falls from its hands. -/
theorem play (c : Custody o) (hr : o.roles[i]? = some r) (hroles : o'.roles = o.roles.set i s)
    (hst : ∀ p, o'.standing? p = o.standing? p)
    (hcan : ∀ g, .start g ∈ o.cancelled → .start g ∈ o'.cancelled)
    (hproc : o'.session.process = o.session.process)
    (hdebug : o'.session.debug = o.session.debug) (hlook : o'.lookouts = o.lookouts)
    (hand : Handover o' r s) (hk : ∀ p, r.Keeps p → s.Keeps p ∨ o.Gone p) : Custody o' := by
  refine c.move hst hcan (fun h => hproc ▸ h) (fun h => c.debug (hdebug ▸ h))
    (roles_of_set hr hroles hand) (fun {j x p} hj _ => .inl ⟨j, hlook ▸ hj⟩) fun {p} hkept => ?_
  cases hkept with
  | @call j t hj ht =>
    rcases getElem?_set_or hr hj s with ⟨-, rfl⟩ | hj
    · exact (hk p ht).imp (fun h => .call (hroles ▸ getElem?_set_at hr s) h) id
    · exact .inl (.call (hroles ▸ hj) ht)
  | watch hx hd => exact .inl (.watch (hlook ▸ hx) hd)
  | process hp => exact .inl (.process (hproc.trans hp))
  | debug hd => exact .inl (.debug (hdebug.trans hd))

/-- The custody depends on the standing of processes, the session's processes, roles, watches
and the starts that were called off. -/
theorem of_eq (c : Custody o) (hst : ∀ p, o'.standing? p = o.standing? p)
    (hcan : ∀ g, .start g ∈ o.cancelled → .start g ∈ o'.cancelled)
    (hproc : o'.session.process = o.session.process)
    (hdebug : o'.session.debug = o.session.debug) (hroles : o'.roles = o.roles)
    (hlook : o'.lookouts = o.lookouts) : Custody o' := by
  refine c.move hst hcan (fun h => hproc ▸ h) (fun h => c.debug (hdebug ▸ h))
    (fun h => .inl (hroles ▸ h)) (fun {j x p} hj _ => .inl ⟨j, hlook ▸ hj⟩) fun {p} hkept => .inl ?_
  cases hkept with
  | call hj ht => exact .call (hroles ▸ hj) ht
  | watch hx hd => exact .watch (hlook ▸ hx) hd
  | process hp => exact .process (hproc.trans hp)
  | debug hd => exact .debug (hdebug.trans hd)

/-- Custody is kept when a call hands over all that it keeps. -/
theorem setRole (c : Custody o) (hr : o.roles[i]? = some r)
    (hand : Handover (o.setRole i s) r s)
    (hk : ∀ p, r.Keeps p → s.Keeps p ∨ o.Gone p) : Custody (o.setRole i s) :=
  c.play hr rfl (fun _ => rfl) (fun _ => id) rfl rfl rfl hand hk

/-! ## Disposals -/

/-- A process that is not the session's is disposed of.  A new main process is disposed of only
once its start has been called off. -/
theorem dispose (c : Custody o) (hp : ∀ g, o.session.process ≠ some ⟨g, p⟩)
    (hf : ∀ {j : Nat} {t : Role} {g : Nat}, o.roles[j]? = some t →
      t.fresh? = some (.main g, p) → .start g ∈ o.cancelled) : Custody (o.dispose p) := by
  have hst := o.standing?_dispose p
  have hkeeps {p' : Nat} {s : Standing} (h : o.standing? p' = some s) :=
    Outline.standing?_dispose_of_some h p
  have hloose {p' : Nat} (h : o.Loose p') := h.dispose p
  obtain ⟨processes, consoles, heq⟩ := o.dispose_eq p
  rw [heq] at hst hkeeps hloose ⊢
  constructor
  case alone => exact c.alone
  case known =>
    intro j t u p' hj ht
    obtain ⟨n, d, h⟩ := c.known hj ht
    obtain ⟨d', hd', -⟩ := hkeeps h
    exact ⟨n, d', hd'⟩
  case fresh =>
    intro j t g p' hj ht
    obtain ⟨d, hd, hoff⟩ := c.fresh hj ht
    by_cases h : p' = p
    · subst h
      exact ⟨true, by rw [hst, hd]; simp, fun hg => absurd (hf hj ht) hg⟩
    · exact ⟨d, by rw [hst, hd]; simp [h], hoff⟩
  case seated =>
    intro g p' hp'
    have hne : p' ≠ p := fun h => hp g (h ▸ hp')
    rw [hst, c.seated hp']
    simp [hne]
  case debug =>
    intro p' hp'
    obtain ⟨n, d, h⟩ := c.debug hp'
    obtain ⟨d', hd', -⟩ := hkeeps h
    exact ⟨n, d', hd'⟩
  case loose => exact fun hj ht => hloose (c.loose hj ht)
  case seized => exact fun hj hx => hloose (c.seized hj hx)
  case withdrawn =>
    intro j t p' hj ht
    obtain ⟨u, n, h⟩ := c.withdrawn hj ht
    obtain ⟨d', hd', hd⟩ := hkeeps h
    exact ⟨u, n, by rw [hd', hd rfl]⟩
  case kept =>
    intro u n p' hp'
    have hne : p' ≠ p := by
      rintro rfl
      rw [hst] at hp'
      obtain ⟨s, -, hs⟩ := Option.map_eq_some_iff.1 hp'
      rw [if_pos rfl] at hs
      cases hs
    rw [hst] at hp'
    simp only [hne, if_false] at hp'
    have hold : o.standing? p' = some ⟨u, n, false⟩ := by
      rw [← hp']
      simp
    cases c.kept hold with
    | call hj ht => exact .call hj ht
    | watch hj hx => exact .watch hj hx
    | process h => exact .process h
    | debug h => exact .debug h

/-- Something loose is disposed of. -/
theorem dispose_loose (c : Custody o) (h : o.Loose p) : Custody (o.dispose p) :=
  c.dispose (c.not_seated h) fun hj ht => absurd ht (c.not_fresh h hj _)

/-- What has been disposed of is gone. -/
theorem gone_of_dispose {s : Standing} (h : o.standing? p = some s) : (o.dispose p).Gone p := by
  rw [Outline.Gone, o.standing?_dispose, h]
  exact ⟨s.purpose, s.noticed, by simp⟩

/-! ## From the session into somebody's hands -/

/-- What was taken out of the session may be disposed of. -/
theorem loose_of_taken (c : Custody o) (hp : o.process? = some p)
    (hst : o'.standing? p = o.standing? p) (hnone : o'.session.process = none) : o'.Loose p := by
  obtain ⟨⟨g, p⟩, hproc, rfl⟩ := Option.map_eq_some_iff.1 hp
  exact ⟨_, hst.trans (c.seated hproc), .inr ⟨rfl, fun g' h => by rw [hnone] at h; cases h⟩⟩

/-- A start takes the live parts out of the session. -/
theorem take (c : Custody o) (hr : o.roles[i]? = some r) (hkeeps : ∀ p, ¬r.Keeps p)
    (hb : s.brings? = none) (hw : s.withdraws? = none) (hs : s.dropped = o.process?.toList) :
    Custody (o.takeLive.setRole i s) := by
  have hand : Handover (o.takeLive.setRole i s) r s := by
    refine .of_brings? r hb (fun h => ?_) hw
    rw [hs, Option.mem_toList] at h
    exact c.loose_of_taken h rfl rfl
  refine c.move (fun _ => rfl) (fun _ => id) nofun c.debug (roles_of_set hr rfl hand)
    (fun {j x p} hj _ => .inl ⟨j, hj⟩) fun {p} hkept => .inl ?_
  cases hkept with
  | @call j t hj ht =>
    rcases getElem?_set_or hr hj s with ⟨-, rfl⟩ | hj
    · exact absurd ht (hkeeps p)
    · exact .call hj ht
  | watch hx hd => exact .watch hx hd
  | process hp =>
    exact .call (getElem?_set_at hr s) (.inl (by simp [hs, Outline.process?, hp]))
  | debug hd => exact .debug hd

/-- A stop takes everything out of the session. -/
theorem empty (c : Custody o) (hr : o.roles[i]? = some .stopping) :
    Custody (o.takeLive.withoutDebug.setRole i (.emptying o.process? o.session.debug)) := by
  have hand : Handover (o.takeLive.withoutDebug.setRole i (.emptying o.process? o.session.debug))
      .stopping (.emptying o.process? o.session.debug) := by
    refine .of_brings? _ rfl (fun h => ?_) rfl
    rcases List.mem_append.1 h with h | h
    · exact c.loose_of_taken (Option.mem_toList.1 h) rfl rfl
    · obtain ⟨n, d, hs⟩ := c.debug (Option.mem_toList.1 h)
      exact ⟨_, hs, .inl rfl⟩
  refine c.move (fun _ => rfl) (fun _ => id) nofun nofun (roles_of_set hr rfl hand)
    (fun {j x p} hj _ => .inl ⟨j, hj⟩) fun {p} hkept => .inl ?_
  cases hkept with
  | @call j t hj ht =>
    rcases getElem?_set_or hr hj _ with ⟨-, rfl⟩ | hj
    · rcases ht with ht | ⟨u, hu⟩
      · cases ht
      · cases hu
    · exact .call hj ht
  | watch hx hd => exact .watch hx hd
  | process hp =>
    exact .call (getElem?_set_at hr _) (.inl (by simp [Role.dropped, Outline.process?, hp]))
  | debug hd => exact .call (getElem?_set_at hr _) (.inl (by simp [Role.dropped, hd]))

/-- A watch takes the live parts out of the session. -/
theorem seize (c : Custody o) {j : Nat} {x : Lookout} (hx : o.lookouts[j]? = some x)
    (hv : x.vigil = .releasing .reaching) :
    Custody (o.takeLive.setVigil j x (.releasing (.holding o.process?))) := by
  refine c.move (fun _ => rfl) (fun _ => id) nofun c.debug .inl ?_ fun {p} hkept => .inl ?_
  · intro k y p hk hy
    rcases getElem?_set_cases hk with ⟨-, rfl⟩ | ⟨-, hk⟩
    · rw [Lookout.Drops, Vigil.releasing.injEq, Grip.holding.injEq] at hy
      exact .inr (c.loose_of_taken hy rfl rfl)
    · exact .inl ⟨k, hk⟩
  · cases hkept with
    | call hr ht => exact .call hr ht
    | @watch k y hk hd =>
      rcases getElem?_set_or hx hk _ with ⟨-, rfl⟩ | hk
      · rw [Lookout.Drops, hv] at hd
        cases hd
      · exact .watch hk hd
    | process hp =>
      exact .watch (getElem?_set_at hx _) (by simp [Lookout.Drops, Outline.process?, hp])
    | debug hd => exact .debug hd

/-- A watch comes to a stage with nothing in hand. -/
theorem setVigil (c : Custody o) {j : Nat} {x : Lookout} {v : Vigil} (hx : o.lookouts[j]? = some x)
    (hv : ∀ p, v ≠ .releasing (.holding (some p))) (hd : ∀ p, x.Drops p → o.Gone p) :
    Custody (o.setVigil j x v) := by
  refine c.move (fun _ => rfl) (fun _ => id) id c.debug .inl ?_ fun {p} hkept => ?_
  · intro k y p hk hy
    rcases getElem?_set_cases hk with ⟨-, rfl⟩ | ⟨-, hk⟩
    · exact absurd hy (hv p)
    · exact .inl ⟨k, hk⟩
  · cases hkept with
    | call hr ht => exact .inl (.call hr ht)
    | @watch k y hk hy =>
      rcases getElem?_set_or hx hk _ with ⟨-, rfl⟩ | hk
      · exact .inr (hd p hy)
      · exact .inl (.watch hk hy)
    | process hp => exact .inl (.process hp)
    | debug hd => exact .inl (.debug hd)

/-- A watch that has no process in hand goes on without one. -/
theorem setVigil_of_none (c : Custody o) {j : Nat} {x : Lookout} {v : Vigil}
    (hx : o.lookouts[j]? = some x) (hv : v.held? = none) (h : x.vigil.held? = none) :
    Custody (o.setVigil j x v) := by
  refine c.setVigil hx (Vigil.ne_of_held? hv) fun p hp => ?_
  exact absurd hp (Vigil.ne_of_held? h p)

/-! ## New processes -/

/-- A call makes a process. -/
theorem create (c : Custody o) {u : Purpose} {q : ServerProcess} (hr : o.roles[i]? = some r)
    (hkeeps : ∀ p, ¬r.Keeps p) (hq : q.IsNew u) :
    Custody ({ o with processes := o.processes ++ [q] }.setRole i
      (.bringing u o.processes.length .fresh)) := by
  have hnew : { o with processes := o.processes ++ [q] }.standing? o.processes.length =
      some ⟨u, false, false⟩ := by
    rw [Outline.standing?_of_some List.getElem?_concat_length, ServerProcess.standing,
      hq.purpose_eq, hq.noticeTaken_eq, hq.disposed_eq]
  have hloose : ∀ {p : Nat}, o.Loose p →
      { o with processes := o.processes ++ [q] }.Loose p := by
    rintro p ⟨s, hs, h⟩
    exact ⟨s, Outline.standing?_append hs q, h⟩
  constructor
  case alone =>
    have hlast : ∀ {k : Nat} {t : Role} {v : Purpose}, o.roles[k]? = some t →
        t.brings? ≠ some (v, o.processes.length) := by
      intro k t v hk ht
      obtain ⟨n, d, h⟩ := c.known hk ht
      exact Outline.standing?_ne_length h rfl
    intro j k t t' v w p hj hk ht ht'
    rcases getElem?_set_cases hj with ⟨rfl, rfl⟩ | ⟨-, hj'⟩ <;>
      rcases getElem?_set_cases hk with ⟨rfl, rfl⟩ | ⟨-, hk'⟩
    · rfl
    · cases ht
      exact absurd ht' (hlast hk')
    · cases ht'
      exact absurd ht (hlast hj')
    · exact c.alone hj' hk' ht ht'
  case known =>
    intro j t v p hj ht
    rcases getElem?_set_cases hj with ⟨-, rfl⟩ | ⟨-, hj⟩
    · cases ht
      exact ⟨false, false, hnew⟩
    · obtain ⟨n, d, h⟩ := c.known hj ht
      exact ⟨n, d, Outline.standing?_append h q⟩
  case fresh =>
    intro j t g p hj ht
    rcases getElem?_set_cases hj with ⟨-, rfl⟩ | ⟨-, hj⟩
    · cases ht
      exact ⟨false, hnew, fun _ => rfl⟩
    · obtain ⟨d, h, hoff⟩ := c.fresh hj ht
      exact ⟨d, Outline.standing?_append h q, hoff⟩
  case seated => exact fun hp => Outline.standing?_append (c.seated hp) q
  case debug =>
    intro p hp
    obtain ⟨n, d, h⟩ := c.debug hp
    exact ⟨n, d, Outline.standing?_append h q⟩
  case loose =>
    intro j t p hj ht
    rcases getElem?_set_cases hj with ⟨-, rfl⟩ | ⟨-, hj⟩
    · cases ht
    · exact hloose (c.loose hj ht)
  case seized => exact fun hj hx => hloose (c.seized hj hx)
  case withdrawn =>
    intro j t p hj ht
    rcases getElem?_set_cases hj with ⟨-, rfl⟩ | ⟨-, hj⟩
    · cases ht
    · obtain ⟨v, n, h⟩ := c.withdrawn hj ht
      exact ⟨v, n, Outline.standing?_append h q⟩
  case kept =>
    intro v n p hp
    rcases Outline.standing?_append_cases hp with hp | ⟨rfl, -⟩
    · cases c.kept hp with
      | @call j t hj ht =>
        rcases getElem?_set_or hr hj _ with ⟨-, rfl⟩ | hj
        · exact absurd ht (hkeeps p)
        · exact .call hj ht
      | watch hx hd => exact .watch hx hd
      | process h => exact .process h
      | debug h => exact .debug h
    · exact .call (getElem?_set_at hr _) (.inr ⟨u, rfl⟩)

/-- A start gives its new process to the session, which has none, and nothing else changes. -/
structure Seating (o o' : Outline) (i g p : Nat) : Prop where
  role : o.roles[i]? = some (.bringing (.main g) p .fresh)
  unseated : o.standing? p = some ⟨.main g, false, false⟩
  vacant : o.session.process = none
  standing : ∀ p', o'.standing? p' =
    if p' = p then some ⟨.main g, true, false⟩ else o.standing? p'
  cancelled : o'.cancelled = o.cancelled
  process : o'.session.process = some ⟨g, p⟩
  debug : o'.session.debug = o.session.debug
  roles : o'.roles = o.roles.set i (.bringing (.main g) p .installed)
  drops : ∀ {j : Nat} {x : Lookout} {p' : Nat}, o'.lookouts[j]? = some x → x.Drops p' →
    o.lookouts[j]? = some x
  lookouts : ∀ {j : Nat} {x : Lookout}, o.lookouts[j]? = some x → o'.lookouts[j]? = some x

namespace Seating

variable {g : Nat}

/-- Every process that stood differently before is another one, and stands as it stood. -/
theorem other (e : Seating o o' i g p) {p' : Nat} {s : Standing} (hs : o.standing? p' = some s)
    (hne : s ≠ ⟨.main g, false, false⟩) : p' ≠ p ∧ o'.standing? p' = some s := by
  have hp' : p' ≠ p := by
    rintro rfl
    rw [e.unseated, Option.some.injEq] at hs
    exact hne hs.symm
  exact ⟨hp', by rw [e.standing, if_neg hp', hs]⟩

/-- What might be disposed of before may be disposed of still. -/
theorem loose (e : Seating o o' i g p) {p' : Nat} (h : o.Loose p') : o'.Loose p' := by
  obtain ⟨s, hs, h⟩ := h
  have hne : s ≠ ⟨.main g, false, false⟩ := by
    rintro rfl
    rcases h with h | ⟨h, -⟩ <;> cases h
  obtain ⟨hp', hs'⟩ := e.other hs hne
  refine ⟨s, hs', h.imp id fun ⟨hn, _⟩ => ⟨hn, fun g' hg' => ?_⟩⟩
  rw [e.process] at hg'
  cases hg'
  exact hp' rfl

/-- Every other call plays the role that it played. -/
theorem role_cases (e : Seating o o' i g p) {j : Nat} {t : Role} (hj : o'.roles[j]? = some t) :
    (j = i ∧ t = .bringing (.main g) p .installed) ∨ (j ≠ i ∧ o.roles[j]? = some t) := by
  rw [e.roles] at hj
  exact getElem?_set_cases hj

/-- Every call brings up the process that it brought up. -/
theorem brings (e : Seating o o' i g p) {j : Nat} {t : Role} {u : Purpose} {p' : Nat}
    (hj : o'.roles[j]? = some t) (ht : t.brings? = some (u, p')) :
    ∃ r, o.roles[j]? = some r ∧ r.brings? = some (u, p') := by
  rcases e.role_cases hj with ⟨rfl, rfl⟩ | ⟨-, hj⟩
  · exact ⟨_, e.role, ht⟩
  · exact ⟨t, hj, ht⟩

/-- Whoever kept another process keeps it still. -/
theorem kept (e : Seating o o' i g p) {p' : Nat} (hne : p' ≠ p) (h : o.Kept p') : o'.Kept p' := by
  cases h with
  | @call j t hj ht =>
    rcases getElem?_set_or e.role hj (.bringing (.main g) p .installed) with ⟨-, rfl⟩ | hj
    · rcases ht with ht | ⟨v, hv⟩
      · cases ht
      · cases hv
        exact absurd rfl hne
    · exact .call (e.roles ▸ hj) ht
  | watch hx hd => exact .watch (e.lookouts hx) hd
  | process hp =>
    rw [e.vacant] at hp
    cases hp
  | debug hd => exact .debug (e.debug.trans hd)

end Seating

/-- A new main process takes its place in the session, which has none. -/
theorem seat (c : Custody o) {g : Nat} (e : Seating o o' i g p) : Custody o' := by
  constructor
  case alone =>
    intro j k t t' u v p' hj hk ht ht'
    obtain ⟨_, hj, ht⟩ := e.brings hj ht
    obtain ⟨_, hk, ht'⟩ := e.brings hk ht'
    exact c.alone hj hk ht ht'
  case known =>
    intro j t u p' hj ht
    obtain ⟨_, hj, ht⟩ := e.brings hj ht
    obtain ⟨n, d, hs⟩ := c.known hj ht
    by_cases hp' : p' = p
    · subst hp'
      rw [e.unseated] at hs
      cases hs
      exact ⟨true, false, by rw [e.standing, if_pos rfl]⟩
    · exact ⟨n, d, by rw [e.standing, if_neg hp', hs]⟩
  case fresh =>
    intro j t g' p' hj ht
    rcases e.role_cases hj with ⟨-, rfl⟩ | ⟨hji, hj⟩
    · cases ht
    · have hp' : p' ≠ p := fun h =>
        hji (c.alone hj e.role (h ▸ Role.brings?_of_fresh? ht) rfl)
      rw [e.standing, if_neg hp', e.cancelled]
      exact c.fresh hj ht
  case seated =>
    intro g' p' h
    rw [e.process] at h
    cases h
    rw [e.standing, if_pos rfl]
  case debug =>
    intro p' h
    obtain ⟨n, d, hd⟩ := c.debug (e.debug ▸ h)
    exact ⟨n, d, (e.other hd (by simp)).2⟩
  case loose =>
    intro j t p' hj ht
    rcases e.role_cases hj with ⟨-, rfl⟩ | ⟨-, hj⟩
    · cases ht
    · exact e.loose (c.loose hj ht)
  case seized => exact fun hj hx => e.loose (c.seized (e.drops hj hx) hx)
  case withdrawn =>
    intro j t p' hj ht
    rcases e.role_cases hj with ⟨-, rfl⟩ | ⟨-, hj⟩
    · cases ht
    · obtain ⟨u, n, h⟩ := c.withdrawn hj ht
      exact ⟨u, n, (e.other h (by simp)).2⟩
  case kept =>
    intro u n p' hs
    by_cases hp' : p' = p
    · subst hp'
      exact .process e.process
    · rw [e.standing, if_neg hp'] at hs
      exact e.kept hp' (c.kept hs)

/-- A start gives the session its process, and has its exit watched. -/
theorem adopt (c : Custody o) {g : Nat} {q : ServerProcess}
    (hr : o.roles[i]? = some (.bringing (.main g) p .fresh)) (hq : o.processes[p]? = some q)
    (h : .start g ∉ o.cancelled) (hnone : o.session.process = none) :
    Custody (({ o with session := { o.session with process := some ⟨g, p⟩ } }.watchExit g p
      q).setRole i (.bringing (.main g) p .installed)) := by
  obtain ⟨d, hp, hoff⟩ := c.fresh hr rfl
  obtain rfl := hoff h
  have hstanding := hp
  rw [Outline.standing?_of_some hq, Option.some.injEq] at hstanding
  obtain ⟨hpurpose, hnotice, hdisposed⟩ : q.purpose = .main g ∧ q.noticeTaken = false ∧
      q.disposed = false := by simpa [ServerProcess.standing] using hstanding
  rw [Outline.watchExit, if_neg (by simp [hnotice])]
  refine c.seat ⟨hr, hp, hnone, fun p' => ?_, rfl, rfl, rfl, rfl, fun {j x p'} hx hd => ?_,
    fun hx => getElem?_append_of_some hx _⟩
  · by_cases hp' : p' = p
    · subst hp'
      rw [if_pos rfl, Outline.standing?_of_some (getElem?_set_at hq _)]
      simp [ServerProcess.standing, hpurpose, hdisposed]
    · rw [if_neg hp']
      simp only [Outline.standing?, Outline.setRole]
      rw [List.getElem?_set_ne (Ne.symm hp')]
  · rcases getElem?_append_cases hx with hx | ⟨-, rfl⟩
    · exact hx
    · cases hd

/-- A debug session's process takes the place of the one before. -/
theorem install (c : Custody o) (hr : o.roles[i]? = some (.bringing .debug p .fresh))
    (hb : ∀ {v : Purpose} {p' : Nat}, s.brings? = some (v, p') → v = .debug ∧ p' = p)
    (hf : s.fresh? = none) (hw : s.withdraws? = none)
    (hs : s.dropped = o.session.debug.toList) :
    Custody ({ o with session := { o.session with debug := some p } }.setRole i s) := by
  have hp : o.ForDebug p := c.known hr rfl
  have hand : Handover ({ o with session := { o.session with debug := some p } }.setRole i s)
      (.bringing .debug p .fresh) s :=
    { brings := fun h => by
        obtain ⟨rfl, rfl⟩ := hb h
        rfl
      fresh := hf
      loose := fun h => by
        rw [hs, Option.mem_toList] at h
        exact (c.debug h).loose
      withdrawn := fun h => by
        rw [hw] at h
        cases h }
  refine c.move (fun _ => rfl) (fun _ => id) id (fun {p'} h => ?_) (roles_of_set hr rfl hand)
    (fun {j x p} hj _ => .inl ⟨j, hj⟩) fun {p'} hkept => .inl ?_
  · cases h
    exact hp
  · cases hkept with
    | @call j t hj ht =>
      rcases getElem?_set_or hr hj s with ⟨-, rfl⟩ | hj
      · rcases ht with ht | ⟨u, hu⟩
        · cases ht
        · cases hu
          exact .debug rfl
      · exact .call hj ht
    | watch hx hd => exact .watch hx hd
    | process h => exact .process h
    | debug h => exact .call (getElem?_set_at hr s) (.inl (by simp [hs, h]))

/-- A new call has nothing to see to. -/
theorem ask (c : Custody o) : Custody { o with roles := o.roles ++ [.bystander] } := by
  have hback : ∀ {j : Nat} {t : Role}, (o.roles ++ [.bystander])[j]? = some t →
      o.roles[j]? = some t ∨ t = .bystander := fun h =>
    (getElem?_append_cases h).imp id And.right
  constructor
  case alone =>
    intro j k t t' u v p hj hk ht ht'
    rcases hback hj with hj | rfl
    · rcases hback hk with hk | rfl
      · exact c.alone hj hk ht ht'
      · cases ht'
    · cases ht
  case known =>
    intro j t u p hj ht
    rcases hback hj with hj | rfl
    · exact c.known hj ht
    · cases ht
  case fresh =>
    intro j t g p hj ht
    rcases hback hj with hj | rfl
    · exact c.fresh hj ht
    · cases ht
  case seated => exact c.seated
  case debug => exact c.debug
  case loose =>
    intro j t p hj ht
    rcases hback hj with hj | rfl
    · exact c.loose hj ht
    · cases ht
  case seized => exact c.seized
  case withdrawn =>
    intro j t p hj ht
    rcases hback hj with hj | rfl
    · exact c.withdrawn hj ht
    · cases ht
  case kept =>
    intro u n p hp
    cases c.kept hp with
    | call hj ht => exact .call (getElem?_append_of_some hj _) ht
    | watch hx hd => exact .watch hx hd
    | process h => exact .process h
    | debug h => exact .debug h

/-- The debug session's slot is emptied of a process that is gone. -/
theorem clearDebug (c : Custody o) (h : ∀ p, o.session.debug = some p → o.Gone p) :
    Custody o.withoutDebug := by
  refine c.move (fun _ => rfl) (fun _ => id) id nofun .inl
    (fun {j x p} hj _ => .inl ⟨j, hj⟩) fun {p} hkept => ?_
  cases hkept with
  | call hj ht => exact .inl (.call hj ht)
  | watch hx hd => exact .inl (.watch hx hd)
  | process hp => exact .inl (.process hp)
  | debug hd => exact .inr (h p hd)

end Custody

/-! ## Every rule keeps the custody -/

/-- A role that changes by itself takes nothing into its hands. -/
theorem Turn.handover {o : Outline} {r s : Role} (h : Turn o r s) (o' : Outline) :
    Custody.Handover o' r s := by
  cases h with
  | refused hk h => exact (.of_same rfl rfl rfl rfl)
  | _ => exact .of_free _ ⟨rfl, rfl, rfl⟩

/-- A role that changes by itself has nothing in its hands. -/
theorem Turn.not_keeps {o : Outline} {r s : Role} (h : Turn o r s) (p : Nat) : ¬r.Keeps p := by
  cases h with
  | giveUp hs hq h => rcases hs with rfl | rfl <;> exact Role.not_keeps rfl rfl p
  | _ => exact Role.not_keeps rfl rfl p

/-- A call disposes of a process that it has in its hands. -/
theorem Custody.drop {o : Outline} {i p : Nat} {r s : Role} (c : Custody o)
    (hr : o.roles[i]? = some r) (h : o.Loose p)
    (hb : ∀ {u : Purpose} {p' : Nat}, s.brings? = some (u, p') → r.brings? = some (u, p'))
    (hf : s.fresh? = none) (hs : s.dropped ⊆ r.dropped)
    (hw : ∀ {p' : Nat}, s.withdraws? = some p' → p' = p)
    (hk : ∀ {p' : Nat}, r.Keeps p' → p' = p ∨ s.Keeps p') :
    Custody ((o.dispose p).setRole i s) := by
  have c' : Custody (o.dispose p) := c.dispose_loose h
  have hr' : (o.dispose p).roles[i]? = some r := by rwa [Outline.dispose_roles]
  have hgone : (o.dispose p).Gone p := by
    obtain ⟨_, hst, -⟩ := h
    exact Custody.gone_of_dispose hst
  refine c'.setRole hr' ⟨hb, hf, fun h => ?_, fun h => ?_⟩ fun p' h => ?_
  · exact c'.loose hr' (hs h)
  · exact hw h ▸ hgone
  · rcases hk h with rfl | h
    · exact .inr hgone
    · exact .inl h

/-- What a call gives up is disposed of. -/
theorem Drop.custody {o : Outline} {i p : Nat} {r s : Role} (h : Drop o r p s) (c : Custody o)
    (hr : o.roles[i]? = some r) : Custody ((o.dispose p).setRole i s) := by
  cases h with
  | emptyingDebug =>
    refine c.drop hr (c.loose hr (by simp [Role.dropped])) nofun rfl ?_ nofun ?_
    · simp [Role.dropped]
    · intro p' h
      simpa [Role.Keeps, Role.dropped, Role.fresh?, or_comm] using h
  | emptying =>
    refine c.drop hr (c.loose hr (by simp [Role.dropped])) nofun rfl (by simp [Role.dropped])
      nofun ?_
    intro p' h
    exact .inl (by simpa [Role.Keeps, Role.dropped, Role.fresh?] using h)
  | clearing | failing =>
    refine c.drop hr (c.loose hr (by simp [Role.dropped, Grip.held?])) nofun rfl
      (by simp [Role.dropped, Grip.held?]) nofun ?_
    intro p' h
    exact .inl (by simpa [Role.Keeps, Role.dropped, Role.fresh?, Grip.held?] using h)
  | @unadopted g _ h =>
    obtain ⟨d, hp, -⟩ := c.fresh hr rfl
    have c' : Custody (o.dispose p) := by
      refine c.dispose (fun g' hg' => ?_) fun {j t g'} hj ht => ?_
      · rw [c.seated hg'] at hp
        cases hp
      · obtain ⟨d', hp', -⟩ := c.fresh hj ht
        rw [hp] at hp'
        cases hp'
        exact h
    refine c'.setRole (by rwa [Outline.dispose_roles]) (.of_free _ ⟨rfl, rfl, rfl⟩) ?_
    rintro p' (h | ⟨u, h⟩) <;> cases h
    exact .inr (Custody.gone_of_dispose hp)
  | replaced =>
    refine c.drop hr (c.loose hr (by simp [Role.dropped])) id rfl (by simp [Role.dropped])
      nofun ?_
    intro p' h
    exact .inl (by simpa [Role.Keeps, Role.dropped, Role.fresh?] using h)
  | debugFailed =>
    have hloose : o.Loose p := (show o.ForDebug p from c.known hr rfl).loose
    exact c.drop hr hloose nofun rfl (by simp [Role.dropped])
      (fun h => by cases h; rfl) fun h => absurd h (Role.not_keeps rfl rfl _)

/-- Every rule keeps the custody. -/
theorem Rule.custody {a : Actor} {o o' : Outline} (h : Rule a o o') (t : Tenure o)
    (l : Slots o) (c : Custody o) : Custody o' := by
  cases h with
  | ask => exact c.ask
  | turn hr h => exact c.setRole hr (h.handover _) fun p hk => absurd hk (h.not_keeps p)
  | drop hr h => exact h.custody c hr
  | claimStop hr h h' =>
    exact c.play hr rfl (fun _ => rfl) (fun g hg => List.mem_append_left _ hg) rfl rfl rfl
      (.of_free _ ⟨rfl, rfl, rfl⟩) fun p hk => absurd hk (Role.not_keeps rfl rfl p)
  | empty hr => exact c.empty hr
  | endStop hr | endFailed hr =>
    rw [Outline.transition]
    split <;>
      exact c.play hr rfl (fun _ => rfl) (fun _ => id) rfl rfl rfl (.of_free _ ⟨rfl, rfl, rfl⟩)
        fun p hk => absurd hk (Role.not_keeps rfl rfl p)
  | conclude hr h v =>
    rw [Outline.transition]
    split <;>
      exact c.play hr rfl (fun _ => rfl) (fun _ => id) rfl rfl rfl (.of_free _ ⟨rfl, rfl, rfl⟩)
        fun p hk => absurd hk (Role.not_keeps rfl rfl p)
  | claimStart hr h | note hr h d | connect hr | keep hr h =>
    exact c.play hr rfl (fun _ => rfl) (fun _ => id) rfl rfl rfl (.of_free _ ⟨rfl, rfl, rfl⟩)
      fun p hk => absurd hk (Role.not_keeps rfl rfl p)
  | clear hr h | retract hr h => exact c.take hr (Role.not_keeps rfl rfl) rfl rfl rfl
  | choose exe => exact c.of_eq (fun _ => rfl) (fun _ => id) rfl rfl rfl rfl
  | createMain hr hq => exact c.create hr (Role.not_keeps rfl rfl) hq
  | createDebug hr hq => exact c.create hr (Role.not_keeps rfl rfl) hq
  | adopt hr hq h =>
    obtain ⟨rfl, hs⟩ := (t.admits hr rfl).2 h
    have hv : o.session.Vacant := l.fits hr rfl (Outline.claim?_of_starting hs)
    exact c.adopt hr hq h hv.1
  | launch hr hq h =>
    exact c.play hr rfl (fun _ => rfl) (fun _ => id) rfl rfl rfl (.of_same rfl rfl rfl rfl)
      fun p hk => absurd hk (Role.not_keeps rfl rfl p)
  | hold hr hq h hk ha =>
    exact c.play hr rfl (Outline.standing?_set hq rfl) (fun _ => id) rfl rfl rfl
      (.of_same rfl rfl rfl rfl) fun p hk => absurd hk (Role.not_keeps rfl rfl p)
  | dismiss hr hq h =>
    exact c.play hr rfl (fun _ => rfl) (fun _ => id) rfl rfl rfl (.of_free _ ⟨rfl, rfl, rfl⟩)
      fun p hk => absurd hk (Role.not_keeps rfl rfl p)
  | install hr =>
    split
    · rename_i previous hd
      refine c.install hr (fun h => ?_) rfl rfl (by simp [Role.dropped, hd])
      cases h
      exact ⟨rfl, rfl⟩
    · rename_i hd
      refine c.install hr (fun h => ?_) rfl rfl (by simp [Role.dropped, hd])
      cases h
      exact ⟨rfl, rfl⟩
  | callOff p =>
    exact c.of_eq (fun _ => rfl) (fun g hg => List.mem_append_left _ hg) rfl rfl rfl rfl
  | withdraw hr =>
    split
    · rename_i h
      have c' : Custody o.withoutDebug := c.clearDebug fun p' hp' => by
        rw [h] at hp'
        cases hp'
        exact c.withdrawn hr rfl
      exact c'.setRole hr (.of_free _ ⟨rfl, rfl, rfl⟩)
        fun p h => absurd h (Role.not_keeps rfl rfl p)
    · exact c.setRole hr (.of_free _ ⟨rfl, rfl, rfl⟩)
        fun p h => absurd h (Role.not_keeps rfl rfl p)
  | @endDebug _ i d h =>
    have c' : Custody (o.dispose d) := c.dispose_loose (c.debug h).loose
    obtain ⟨n, x, hs⟩ := c.debug h
    refine c'.clearDebug fun p hp => ?_
    rw [Outline.dispose_session, h] at hp
    cases hp
    exact Custody.gone_of_dispose hs
  | fall hx hv hq he hr hg hs =>
    have c' : Custody { o with status := .failed } :=
      c.of_eq (fun _ => rfl) (fun _ => id) rfl rfl rfl rfl
    exact c'.setVigil_of_none hx rfl (by rw [hv]; rfl)
  | ignore hx hv hq he h => exact c.setVigil_of_none hx rfl (by rw [hv]; rfl)
  | passWatch hx hv h => exact c.setVigil_of_none hx rfl (by rw [hv]; rfl)
  | seize hx hv h => exact c.seize hx hv
  | @dropWatch _ j p x hx hv =>
    have hloose : o.Loose p := c.seized hx hv
    have c' : Custody (o.dispose p) := c.dispose_loose hloose
    obtain ⟨s, hs, -⟩ := hloose
    refine c'.setVigil (by rwa [Outline.dispose_lookouts]) (Vigil.ne_of_held? rfl) fun p' h => ?_
    rw [Lookout.Drops, hv] at h
    cases h
    exact Custody.gone_of_dispose hs
  | endWatch hx hv => exact c.setVigil_of_none hx rfl (by rw [hv]; rfl)
  | busy h | idle h | answer hk h | ending hk h | write k h =>
    exact c.of_eq (fun _ => rfl) (fun _ => id) rfl rfl rfl rfl
  | passOn hk hq he hw hp =>
    exact c.of_eq (Outline.standing?_set hq rfl) (fun _ => id) rfl rfl rfl rfl

end SessionHost
