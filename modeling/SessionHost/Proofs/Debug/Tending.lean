import SessionHost.Proofs.Lifecycle.Sound

/-!
# The processes of debug sessions

The start of a debug session tends its process until it returns.  The session has room for one
such process; whoever takes it out of the session, a stop or the next start, holds it until it
has been disposed of.  A process is put into the session once, by the start that tends it, and
does not come back.

Main definitions:

- `Outline.Tends`, `Outline.Holds`: a start with its process, and a call with one that it has taken
  out of the session.
- `Outline.Away`: a process that will not be in the session any more.
- `Tended`: the processes of debug sessions and those who see to them.

Main results:

- Theorem `Rule.tended`: every rule keeps them tended.
-/

namespace SessionHost

/-! ## Who sees to a process -/

/-- The process of the debug session that the call starts. -/
def Role.tends? : Role → Option Nat
  | .bringing .debug p _ => some p
  | .replacing p _ => some p
  | .withdrawing p => some p
  | _ => none

/-- The process of a debug session that the call has taken out of the session. -/
def Role.removed? : Role → Option Nat
  | .emptying _ d => d
  | .replacing _ q => some q
  | _ => none

/-- The main process that the call has taken out of the session. -/
def Role.seized? : Role → Option Nat
  | .emptying p _ => p
  | .clearing _ grip => grip.held?
  | .failing _ grip => grip.held?
  | _ => none

namespace Outline

/-- The call starts a debug session with the process. -/
def Tends (o : Outline) (i p : Nat) : Prop := ∃ r, o.roles[i]? = some r ∧ r.tends? = some p

/-- The call has taken the process of a debug session out of the session. -/
def Holds (o : Outline) (i p : Nat) : Prop := ∃ r, o.roles[i]? = some r ∧ r.removed? = some p

/-- The call is about to put its process into the session. -/
def Brings (o : Outline) (i p : Nat) : Prop := o.roles[i]? = some (.bringing .debug p .fresh)

/-- The process is for a main session. -/
def ForMain (o : Outline) (p : Nat) : Prop := ∃ g, o.purposes[p]? = some (.main g)

/-- The process of a debug session is not in the session, and nobody will put it there. -/
structure Away (o : Outline) (p : Nat) : Prop where
  known : o.purposes[p]? = some .debug
  unseated : o.session.debug ≠ some p
  unbrought : ∀ i, ¬o.Brings i p

variable {o o' : Outline} {i p : Nat}

/-- Who brings a debug process up tends it. -/
theorem Brings.tends (h : o.Brings i p) : o.Tends i p := ⟨_, h, rfl⟩

theorem forDebug_iff : o.ForDebug p ↔ o.purposes[p]? = some .debug := by
  simp only [ForDebug, standing?, purposes, List.getElem?_map]
  cases o.processes[p]? with
  | none => simp
  | some q => simp [ServerProcess.standing]

/-- A process that is there is not the next one. -/
theorem ne_length_of_purpose {u : Purpose} (hp : o.purposes[p]? = some u) :
    p ≠ o.processes.length := by
  have hlt := (List.getElem?_eq_some_iff.1 hp).1
  rw [purposes, List.length_map] at hlt
  exact Nat.ne_of_lt hlt

/-- What a process is for does not change. -/
theorem Lasts.purpose {u : Purpose} (h : o.Lasts o') (hp : o.purposes[p]? = some u) :
    o'.purposes[p]? = some u := by
  simp only [purposes, List.getElem?_map, Option.map_eq_some_iff] at hp ⊢
  obtain ⟨q, hq, rfl⟩ := hp
  obtain ⟨q', hq', ⟨hpurpose, -⟩, -⟩ := h p q hq
  exact ⟨q', hq', hpurpose⟩

end Outline

/-- The processes of debug sessions and those who see to them. -/
structure Tended (o : Outline) : Prop where
  alone : ∀ {i j p : Nat}, o.Tends i p → o.Tends j p → i = j
  known : ∀ {i p : Nat}, o.Tends i p → o.purposes[p]? = some .debug
  unseated : ∀ {i p : Nat}, o.Brings i p → o.session.debug ≠ some p
  away : ∀ {i p : Nat}, o.Holds i p → o.Away p
  single : ∀ {i j p : Nat}, o.Holds i p → o.Holds j p → i = j
  seized : ∀ {i : Nat} {r : Role} {p : Nat}, o.roles[i]? = some r → r.seized? = some p → o.ForMain p
  watched : ∀ {j : Nat} {x : Lookout} {p : Nat}, o.lookouts[j]? = some x → x.Drops p → o.ForMain p

namespace Tended

variable {o o' : Outline} {i p : Nat} {r s : Role}

/-- What a call must see to when it plays another role. -/
structure Succeeds (o' : Outline) (r s : Role) : Prop where
  tends : ∀ {p : Nat}, s.tends? = some p → r.tends? = some p
  brings : ∀ p, s ≠ .bringing .debug p .fresh
  removed : ∀ {p : Nat}, s.removed? = some p → r.removed? = some p
  seized : ∀ {p : Nat}, s.seized? = some p → r.seized? = some p ∨ o'.ForMain p

/-- The next role has nothing to do with processes that are taken out of the session. -/
theorem Succeeds.of_none {o' : Outline} {r s : Role} (ht : s.tends? = none)
    (hr : s.removed? = none) (hs : s.seized? = none) : Succeeds o' r s where
  tends h := by
    rw [ht] at h
    cases h
  brings p h := by
    rw [h] at ht
    cases ht
  removed h := by
    rw [hr] at h
    cases h
  seized h := by
    rw [hs] at h
    cases h

/-- The next role tends what the one before did. -/
theorem Succeeds.of_tends {o' : Outline} {r s : Role} (ht : s.tends? = r.tends?)
    (hb : ∀ p, s ≠ .bringing .debug p .fresh) (hr : s.removed? = none)
    (hs : s.seized? = none) : Succeeds o' r s where
  tends h := ht ▸ h
  brings := hb
  removed h := by
    rw [hr] at h
    cases h
  seized h := by
    rw [hs] at h
    cases h

/-- A bystander may follow any role. -/
theorem Succeeds.bystander (o' : Outline) (r : Role) : Succeeds o' r .bystander :=
  .of_none rfl rfl rfl

/-- Calls take nothing out of the session, and bring nothing into it. -/
theorem move (t : Tended o) (hlasts : o.Lasts o')
    (hdebug : ∀ {p : Nat}, o'.session.debug = some p → o.session.debug = some p)
    (hroles : ∀ {j : Nat} {u : Role}, o'.roles[j]? = some u →
      o.roles[j]? = some u ∨ (∃ r, o.roles[j]? = some r ∧ Succeeds o' r u) ∨ u = .bystander)
    (hlook : ∀ {j : Nat} {x : Lookout} {p : Nat}, o'.lookouts[j]? = some x → x.Drops p →
      (∃ k : Nat, o.lookouts[k]? = some x) ∨ o'.ForMain p) : Tended o' := by
  have hmain : ∀ {p : Nat}, o.ForMain p → o'.ForMain p := fun ⟨g, hg⟩ => ⟨g, hlasts.purpose hg⟩
  have htends : ∀ {j p : Nat}, o'.Tends j p → o.Tends j p := by
    rintro j p ⟨u, hu, hup⟩
    rcases hroles hu with hu | ⟨r, hr, hs⟩ | rfl
    · exact ⟨u, hu, hup⟩
    · exact ⟨r, hr, hs.tends hup⟩
    · cases hup
  have hbrings : ∀ {j p : Nat}, o'.Brings j p → o.Brings j p := by
    intro j p hj
    rcases hroles hj with hj | ⟨r, -, hs⟩ | h
    · exact hj
    · exact absurd rfl (hs.brings p)
    · cases h
  have hholds : ∀ {j p : Nat}, o'.Holds j p → o.Holds j p := by
    rintro j p ⟨u, hu, hup⟩
    rcases hroles hu with hu | ⟨r, hr, hs⟩ | rfl
    · exact ⟨u, hu, hup⟩
    · exact ⟨r, hr, hs.removed hup⟩
    · cases hup
  constructor
  case alone => exact fun hi hj => t.alone (htends hi) (htends hj)
  case known => exact fun hi => hlasts.purpose (t.known (htends hi))
  case unseated => exact fun hi hd => t.unseated (hbrings hi) (hdebug hd)
  case away =>
    intro j p hj
    have haway := t.away (hholds hj)
    exact ⟨hlasts.purpose haway.known, fun hd => haway.unseated (hdebug hd),
      fun k hk => haway.unbrought k (hbrings hk)⟩
  case single => exact fun hi hj => t.single (hholds hi) (hholds hj)
  case seized =>
    intro j u p hu hup
    rcases hroles hu with hu | ⟨r, hr, hs⟩ | rfl
    · exact hmain (t.seized hu hup)
    · exact (hs.seized hup).elim (fun h => hmain (t.seized hr h)) id
    · cases hup
  case watched =>
    intro j x p hx hd
    rcases hlook hx hd with ⟨k, hk⟩ | h
    · exact hmain (t.watched hk hd)
    · exact h

/-- A call plays another role. -/
theorem play (t : Tended o) (hr : o.roles[i]? = some r) (hroles : o'.roles = o.roles.set i s)
    (hlasts : o.Lasts o')
    (hdebug : ∀ {p : Nat}, o'.session.debug = some p → o.session.debug = some p)
    (hlook : ∀ {j : Nat} {x : Lookout} {p : Nat}, o'.lookouts[j]? = some x → x.Drops p →
      ∃ k : Nat, o.lookouts[k]? = some x) (hs : Succeeds o' r s) : Tended o' := by
  refine t.move hlasts hdebug (fun {j u} hj => ?_) fun hx hd => .inl (hlook hx hd)
  rw [hroles] at hj
  rcases getElem?_set_cases hj with ⟨rfl, rfl⟩ | ⟨-, hj⟩
  · exact .inr (.inl ⟨r, hr, hs⟩)
  · exact .inl hj

/-- A watch moves on. -/
theorem setVigil (t : Tended o) (hlasts : o.Lasts o')
    (hsession : o'.session.debug = o.session.debug) (hroles : o'.roles = o.roles) {j : Nat}
    {x : Lookout} {v : Vigil}
    (hlook : o'.lookouts = o.lookouts.set j { x with vigil := v })
    (hv : ∀ {p : Nat}, v.held? = some p → o.ForMain p) : Tended o' := by
  refine t.move hlasts (fun h => hsession ▸ h) (fun h => .inl (hroles ▸ h)) fun {k y p} hy hd => ?_
  rw [hlook] at hy
  rcases getElem?_set_cases hy with ⟨-, rfl⟩ | ⟨-, hy⟩
  · have hheld : v.held? = some p := by
      rw [show v = .releasing (.holding (some p)) from hd]
      rfl
    obtain ⟨g, hg⟩ := hv hheld
    exact .inr ⟨g, hlasts.purpose hg⟩
  · exact .inl ⟨k, hy⟩

/-- A call empties the room for the debug session's process, or puts its own process there. -/
theorem take (t : Tended o) (c : Custody o) (hr : o.roles[i]? = some r)
    (hroles : o'.roles = o.roles.set i s) (hlasts : o.Lasts o')
    (hlook : o'.lookouts = o.lookouts)
    (hdebug : ∀ {p : Nat}, o'.session.debug = some p → r = .bringing .debug p .fresh)
    (htends : ∀ {p : Nat}, s.tends? = some p → r.tends? = some p)
    (hbrings : ∀ p, s ≠ .bringing .debug p .fresh) (hremoved : s.removed? = o.session.debug)
    (hseized : ∀ {p : Nat}, s.seized? = some p → o.ForMain p) : Tended o' := by
  have hmain : ∀ {p : Nat}, o.ForMain p → o'.ForMain p := fun ⟨g, hg⟩ => ⟨g, hlasts.purpose hg⟩
  have hcases : ∀ {j : Nat} {u : Role}, o'.roles[j]? = some u →
      (j = i ∧ u = s) ∨ (j ≠ i ∧ o.roles[j]? = some u) := by
    intro j u hu
    rw [hroles] at hu
    exact getElem?_set_cases hu
  have htends' : ∀ {j p : Nat}, o'.Tends j p → o.Tends j p := by
    rintro j p ⟨u, hu, hup⟩
    rcases hcases hu with ⟨rfl, rfl⟩ | ⟨-, hu⟩
    · exact ⟨r, hr, htends hup⟩
    · exact ⟨u, hu, hup⟩
  have hbrings' : ∀ {j p : Nat}, o'.Brings j p → j ≠ i ∧ o.Brings j p := by
    intro j p hj
    rcases hcases hj with ⟨-, h⟩ | h
    · exact absurd h.symm (hbrings p)
    · exact h
  have hholds : ∀ {j p : Nat}, o'.Holds j p →
      (j = i ∧ o.session.debug = some p) ∨ o.Holds j p := by
    rintro j p ⟨u, hu, hup⟩
    rcases hcases hu with ⟨rfl, rfl⟩ | ⟨-, hu⟩
    · exact .inl ⟨rfl, hremoved ▸ hup⟩
    · exact .inr ⟨u, hu, hup⟩
  constructor
  case alone => exact fun hi hj => t.alone (htends' hi) (htends' hj)
  case known => exact fun hi => hlasts.purpose (t.known (htends' hi))
  case unseated =>
    intro j p hj hd
    obtain ⟨hji, hj⟩ := hbrings' hj
    have hi : o.Brings i p := by rw [Outline.Brings, hr, hdebug hd]
    exact hji (t.alone hj.tends hi.tends)
  case away =>
    intro j p hj
    have haway : o.purposes[p]? = some .debug ∧ ∀ k, ¬o.Brings k p := by
      rcases hholds hj with ⟨-, hd⟩ | hj
      · exact ⟨Outline.forDebug_iff.1 (c.debug hd), fun k hk => t.unseated hk hd⟩
      · exact ⟨(t.away hj).known, (t.away hj).unbrought⟩
    refine ⟨hlasts.purpose haway.1, fun hd => ?_, fun k hk => haway.2 k (hbrings' hk).2⟩
    exact haway.2 i (by rw [Outline.Brings, hr, hdebug hd])
  case single =>
    intro j k p hj hk
    rcases hholds hj with ⟨rfl, hd⟩ | hj <;> rcases hholds hk with ⟨rfl, hd'⟩ | hk
    · rfl
    · exact absurd hd (t.away hk).unseated
    · exact absurd hd' (t.away hj).unseated
    · exact t.single hj hk
  case seized =>
    intro j u p hu hup
    rcases hcases hu with ⟨-, rfl⟩ | ⟨-, hu⟩
    · exact hmain (hseized hup)
    · exact hmain (t.seized hu hup)
  case watched => exact fun hx hd => hmain (t.watched (hlook ▸ hx) hd)

/-- A start makes the process of a debug session. -/
theorem create (t : Tended o) (c : Custody o) {q : ServerProcess} (hq : q.purpose = .debug) :
    Tended ({ o with processes := o.processes ++ [q] }.setRole i
      (.bringing .debug o.processes.length .fresh)) := by
  let o' : Outline := { o with processes := o.processes ++ [q] }.setRole i
    (.bringing .debug o.processes.length .fresh)
  have hlasts : o.Lasts o' := .append rfl
  have hnew : o'.purposes[o.processes.length]? = some .debug := by
    simp [o', Outline.purposes, Outline.setRole, hq]
  have hne : ∀ {p : Nat} {u : Purpose}, o.purposes[p]? = some u → p ≠ o.processes.length :=
    Outline.ne_length_of_purpose
  have htends : ∀ {j p : Nat}, o'.Tends j p → o.Tends j p ∨ (j = i ∧ p = o.processes.length) := by
    rintro j p ⟨u, hu, hup⟩
    rcases getElem?_set_cases hu with ⟨rfl, rfl⟩ | ⟨-, hu⟩
    · cases hup
      exact .inr ⟨rfl, rfl⟩
    · exact .inl ⟨u, hu, hup⟩
  have hbrings : ∀ {j p : Nat}, o'.Brings j p → o.Brings j p ∨ p = o.processes.length := by
    intro j p hj
    rcases getElem?_set_cases hj with ⟨-, h⟩ | ⟨-, hj⟩
    · cases h
      exact .inr rfl
    · exact .inl hj
  have hholds : ∀ {j p : Nat}, o'.Holds j p → o.Holds j p := by
    rintro j p ⟨u, hu, hup⟩
    rcases getElem?_set_cases hu with ⟨-, rfl⟩ | ⟨-, hu⟩
    · cases hup
    · exact ⟨u, hu, hup⟩
  constructor
  case alone =>
    intro j k p hj hk
    rcases htends hj with hj' | ⟨rfl, hp⟩ <;> rcases htends hk with hk' | ⟨rfl, hp'⟩
    · exact t.alone hj' hk'
    · exact absurd hp' (hne (t.known hj'))
    · exact absurd hp (hne (t.known hk'))
    · rfl
  case known =>
    intro j p hj
    rcases htends hj with hj | ⟨-, rfl⟩
    · exact hlasts.purpose (t.known hj)
    · exact hnew
  case unseated =>
    intro j p hj hd
    rcases hbrings hj with hj | rfl
    · exact t.unseated hj hd
    · exact hne (Outline.forDebug_iff.1 (c.debug hd)) rfl
  case away =>
    intro j p hj
    have haway := t.away (hholds hj)
    refine ⟨hlasts.purpose haway.known, haway.unseated, fun k hk => ?_⟩
    exact (hbrings hk).elim (haway.unbrought k) (hne haway.known)
  case single => exact fun hj hk => t.single (hholds hj) (hholds hk)
  case seized =>
    intro j u p hu hup
    rcases getElem?_set_cases hu with ⟨-, rfl⟩ | ⟨-, hu⟩
    · cases hup
    · obtain ⟨g, hg⟩ := t.seized hu hup
      exact ⟨g, hlasts.purpose hg⟩
  case watched =>
    intro j x p hx hd
    obtain ⟨g, hg⟩ := t.watched hx hd
    exact ⟨g, hlasts.purpose hg⟩

end Tended

/-! ## Every rule keeps them tended -/

/-- The session's process is for the main session. -/
theorem Custody.forMain {o : Outline} (c : Custody o) {p : Nat} (h : o.process? = some p) :
    o.ForMain p := by
  obtain ⟨⟨g, p⟩, hp, rfl⟩ := Option.map_eq_some_iff.1 h
  obtain ⟨q, hq, hstanding⟩ := Outline.exists_of_standing? (c.seated hp)
  refine ⟨g, ?_⟩
  simp only [Outline.purposes, List.getElem?_map, hq, Option.map_some]
  exact congrArg (fun s => some s.purpose) hstanding

/-- A turn is no step with a debug process. -/
theorem Turn.succeeds {o : Outline} {r s : Role} (h : Turn o r s) (o' : Outline) :
    Tended.Succeeds o' r s := by
  cases h with
  | @refused u p c k e hk h => cases u <;> exact ⟨id, (fun _ h => by cases h), id, .inl⟩
  | _ => exact .of_none rfl rfl rfl

/-- A drop is no step with a debug process. -/
theorem Drop.succeeds {o : Outline} {p : Nat} {r s : Role} (h : Drop o r p s) (o' : Outline) :
    Tended.Succeeds o' r s := by
  cases h with
  | emptyingDebug =>
    exact ⟨(fun h => by cases h), (fun _ h => by cases h), (fun h => by cases h), .inl⟩
  | replaced | debugFailed => exact .of_tends rfl (fun _ h => by cases h) rfl rfl
  | _ => exact .of_none rfl rfl rfl

/-- Every rule keeps the processes of debug sessions tended. -/
theorem Rule.tended {a : Actor} {o o' : Outline} (h : Rule a o o') (c : Custody o) (x : Exits o)
    (t : Tended o) : Tended o' := by
  have hlasts := h.lasts x
  cases h with
  | ask =>
    refine t.move hlasts id (fun {j u} hj => ?_) fun hx _ => .inl ⟨_, hx⟩
    exact (getElem?_append_cases hj).imp id fun h => .inr h.2
  | turn hr h => exact t.play hr rfl hlasts id (fun hx _ => ⟨_, hx⟩) (h.succeeds _)
  | drop hr h =>
    refine t.play hr ?_ hlasts (fun h => ?_) (fun hx _ => ?_) (h.succeeds _)
    · simp [Outline.setRole]
    · simpa [Outline.setRole] using h
    · exact ⟨_, by simpa [Outline.setRole] using hx⟩
  | empty hr =>
    exact t.take c hr rfl hlasts rfl (fun h => by cases h) (fun h => by cases h)
      (fun _ h => by cases h) rfl fun hp => c.forMain hp
  | install hr =>
    have hdebug {p p' : Nat} (h : some p = some p') :
        Role.bringing .debug p .fresh = .bringing .debug p' .fresh := by
      cases h
      rfl
    split
    · rename_i previous hd
      exact t.take c hr rfl hlasts rfl hdebug id (fun _ h => by cases h) hd.symm
        fun h => by cases h
    · rename_i hd
      exact t.take c hr rfl hlasts rfl hdebug id (fun _ h => by cases h) hd.symm
        fun h => by cases h
  | withdraw hr =>
    revert hlasts
    split
    · exact fun hlasts =>
        t.play hr rfl hlasts (fun h => by cases h) (fun hx _ => ⟨_, hx⟩) (.bystander _ _)
    · exact fun hlasts => t.play hr rfl hlasts id (fun hx _ => ⟨_, hx⟩) (.bystander _ _)
  | endDebug h =>
    refine t.move hlasts (fun h => by cases h) (fun hj => .inl ?_) fun {j x p} hx _ => .inl ⟨j, ?_⟩
    · simpa [Outline.withoutDebug] using hj
    · simpa [Outline.withoutDebug] using hx
  | createDebug hr hq => exact t.create c hq.purpose_eq
  | @adopt _ i g p q hr hq h =>
    have hs : Tended.Succeeds
        (({ o with session := { o.session with process := some ⟨g, p⟩ } }.watchExit g p q).setRole
          i (.bringing (.main g) p .installed)) (.bringing (.main g) p .fresh)
        (.bringing (.main g) p .installed) := .of_none rfl rfl rfl
    revert hs hlasts
    unfold Outline.watchExit
    split
    · exact fun hlasts hs => t.play hr rfl hlasts id (fun hx _ => ⟨_, hx⟩) hs
    · refine fun hlasts hs => t.play hr rfl hlasts id (fun hx hd => ?_) hs
      rcases getElem?_append_cases hx with hx | ⟨-, rfl⟩
      · exact ⟨_, hx⟩
      · cases hd
  | endStop hr | endFailed hr | conclude hr h v =>
    revert hlasts
    unfold Outline.transition
    split <;>
      exact fun hlasts => t.play hr rfl hlasts id (fun hx _ => ⟨_, hx⟩) (.bystander _ _)
  | clear hr h | retract hr h =>
    exact t.play hr rfl hlasts id (fun hx _ => ⟨_, hx⟩)
      ⟨(fun h => by cases h), (fun _ h => by cases h), (fun h => by cases h),
        fun hp => .inr (c.forMain hp)⟩
  | @launch _ i p u q hr hq h =>
    exact t.play hr rfl hlasts id (fun hx _ => ⟨_, hx⟩)
      (by cases u <;> exact .of_tends rfl (fun _ h => by cases h) rfl rfl)
  | @hold _ i p c' u q k n hr hq h hk ha =>
    exact t.play hr rfl hlasts id (fun hx _ => ⟨_, hx⟩)
      (by cases u <;> exact .of_tends rfl (fun _ h => by cases h) rfl rfl)
  | claimStop hr | claimStart hr | createMain hr | note hr | connect hr | keep hr
  | dismiss hr =>
    exact t.play hr rfl hlasts id (fun hx _ => ⟨_, hx⟩) (.of_none rfl rfl rfl)
  | fall hx hv | ignore hx hv | passWatch hx hv | endWatch hx hv =>
    exact t.setVigil hlasts rfl rfl rfl fun h => by cases h
  | seize hx hv h => exact t.setVigil hlasts rfl rfl rfl fun hp => c.forMain hp
  | @dropWatch _ j p y hx hv =>
    have hlook : ((o.dispose p).setVigil j y (.releasing (.holding none))).lookouts =
        o.lookouts.set j { y with vigil := .releasing (.holding none) } := by
      rw [Outline.setVigil, Outline.dispose_lookouts]
    exact t.setVigil hlasts (congrArg Session.debug (o.dispose_session p)) (o.dispose_roles p)
      hlook fun h => by cases h
  | choose | callOff | busy | idle | answer | ending | passOn | write =>
    exact t.move hlasts id .inl fun hx _ => .inl ⟨_, hx⟩

end SessionHost
