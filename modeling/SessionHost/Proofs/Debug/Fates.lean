import SessionHost.Proofs.Debug.Tending
import SessionHost.Proofs.Lifecycle.Moments

/-!
# What becomes of a debug session's process

The process of a debug session leaves the session into the hands of a call that disposes of it, or
when it has been disposed of already.  Nobody disposes of it but the start that tends it and the
call that takes it out of the session.  Both are shown of one rule first, and then of a piece of
an activity, which is a chain of rules.

Main definitions:

- `Role.Handles`: how the next role of a call goes with the one before.
- `Outline.Traced`: where a call has the process from that it sees to.

Main results:

- Theorem `Leads.slot_cases`: what is taken out of the session is held, or disposed of.
- Theorem `Rule.holds_stays`: a process is held until it has been disposed of.
- Theorem `Leads.gone_cases`: who disposes of the process of a debug session.
-/

namespace SessionHost

/-! ## Who disposes of a process -/

section Disposals

variable {o o' : Outline} {p d : Nat}

/-- What is gone after a disposal was gone before, or has been disposed of. -/
theorem Outline.Gone.of_dispose (h : (o.dispose d).Gone p) : o.Gone p ∨ p = d := by
  obtain ⟨u, n, hs⟩ := h
  rw [o.standing?_dispose] at hs
  obtain ⟨s, hs, heq⟩ := Option.map_eq_some_iff.1 hs
  by_cases hp : p = d
  · exact .inr hp
  · rw [if_neg hp] at heq
    exact .inl ⟨u, n, by rw [hs, heq]⟩

theorem Outline.gone_iff : o.Gone p ↔ ∃ q, o.processes[p]? = some q ∧ q.disposed = true := by
  constructor
  · rintro ⟨u, n, hs⟩
    obtain ⟨q, hq, hstanding⟩ := Outline.exists_of_standing? hs
    exact ⟨q, hq, congrArg Standing.disposed hstanding⟩
  · rintro ⟨q, hq, hd⟩
    exact ⟨q.purpose, q.noticeTaken, by
      rw [Outline.standing?_of_some hq, ServerProcess.standing, hd]⟩

/-- A change of a process that does not dispose of it. -/
theorem Outline.Gone.of_set {q q' : ServerProcess} (h : o'.Gone p) (hq : o.processes[d]? = some q)
    (hset : o'.processes = o.processes.set d q') (hd : q'.disposed = q.disposed) : o.Gone p := by
  obtain ⟨x, hx, hgone⟩ := Outline.gone_iff.1 h
  rw [hset] at hx
  rcases getElem?_set_cases hx with ⟨rfl, rfl⟩ | ⟨-, hx⟩
  · exact Outline.gone_iff.2 ⟨q, hq, hd ▸ hgone⟩
  · exact Outline.gone_iff.2 ⟨x, hx, hgone⟩

/-- A change of a process that keeps its disposal keeps what is gone. -/
theorem Outline.Gone.set {q q' : ServerProcess} (h : o.Gone p) (hq : o.processes[d]? = some q)
    (hset : o'.processes = o.processes.set d q') (hd : q'.disposed = q.disposed) : o'.Gone p := by
  obtain ⟨x, hx, hgone⟩ := Outline.gone_iff.1 h
  rw [Outline.gone_iff, hset]
  rcases getElem?_set_or hq hx q' with ⟨rfl, rfl⟩ | hx
  · exact ⟨q', getElem?_set_at hq q', hd.trans hgone⟩
  · exact ⟨x, hx, hgone⟩

/-- What is gone stays so over a disposal. -/
theorem Outline.Gone.dispose (h : o.Gone p) (d : Nat) : (o.dispose d).Gone p := by
  obtain ⟨u, n, hs⟩ := h
  obtain ⟨b, hb, hd⟩ := Outline.standing?_dispose_of_some hs d
  exact ⟨u, n, by rw [hb, hd rfl]⟩

/-- A new process is not gone. -/
theorem Outline.Gone.of_append {q : ServerProcess} (h : o'.Gone p)
    (happend : o'.processes = o.processes ++ [q]) (hd : q.disposed = false) : o.Gone p := by
  obtain ⟨x, hx, hgone⟩ := Outline.gone_iff.1 h
  rw [happend] at hx
  rcases getElem?_append_cases hx with hx | ⟨-, rfl⟩
  · exact Outline.gone_iff.2 ⟨x, hx, hgone⟩
  · rw [hd] at hgone
    cases hgone

end Disposals

/-- The start has its process up. -/
def Outline.Raises (o : Outline) (i p : Nat) : Prop :=
  o.roles[i]? = some (.bringing .debug p .up)

/-- Who raises a debug process tends it. -/
theorem Outline.Raises.tends {o : Outline} {i p : Nat} (h : o.Raises i p) : o.Tends i p :=
  ⟨_, h, rfl⟩

/-- The process of a debug session is disposed of by the start that has it up, or by a call that
has taken it out of the session. -/
theorem Rule.gone_cases {a : Actor} {o o' : Outline} (h : Rule a o o') (c : Custody o) (x : Exits o)
    (t : Tended o) {p : Nat} (hp : o.purposes[p]? = some .debug) (hg : o'.Gone p) :
    o.Gone p ∨ ∃ i, a = .call i ∧
      (o.Raises i p ∨ o.Holds i p ∨ o.session.debug = some p ∧ o'.Away p) := by
  have hlasts := h.lasts x
  have hmain : ¬o.ForMain p := by
    rintro ⟨g, hg⟩
    rw [hp] at hg
    cases hg
  cases h with
  | @drop _ i d r s hr h =>
    rcases Outline.Gone.of_dispose hg with hg | rfl
    · exact .inl hg
    · refine .inr ⟨i, rfl, ?_⟩
      cases h with
      | emptyingDebug => exact .inr (.inl ⟨_, hr, rfl⟩)
      | emptying => exact absurd (t.seized hr rfl) hmain
      | clearing => exact absurd (t.seized hr rfl) hmain
      | failing => exact absurd (t.seized hr rfl) hmain
      | @unadopted g _ h =>
        obtain ⟨n, d, hs⟩ := c.known hr rfl
        obtain ⟨n', d', hs'⟩ := Outline.forDebug_iff.2 hp
        rw [hs] at hs'
        cases hs'
      | replaced => exact .inr (.inl ⟨_, hr, rfl⟩)
      | debugFailed => exact .inl hr
  | @endDebug _ i d h =>
    rcases Outline.Gone.of_dispose hg with hg | rfl
    · exact .inl hg
    · refine .inr ⟨i, rfl, .inr (.inr ⟨h, hlasts.purpose hp, nofun, fun k hk => ?_⟩)⟩
      exact t.unseated (by simpa [Outline.Brings, Outline.withoutDebug] using hk) h
  | dropWatch hx hv =>
    rcases Outline.Gone.of_dispose hg with hg | rfl
    · exact .inl hg
    · exact absurd (t.watched hx hv) hmain
  | createMain hr hq | createDebug hr hq => exact .inl (hg.of_append rfl hq.disposed_eq)
  | adopt hr hq h =>
    revert hg
    unfold Outline.watchExit
    split
    · exact .inl
    · exact fun hg => .inl (hg.of_set hq rfl rfl)
  | hold hr hq h hk ha => exact .inl (hg.of_set hq rfl rfl)
  | passOn hk hq he hw hp => exact .inl (hg.of_set hq rfl rfl)
  | endStop hr | endFailed hr | conclude hr h v =>
    revert hg
    unfold Outline.transition
    split <;> exact .inl
  | withdraw hr =>
    revert hg
    split <;> exact .inl
  | _ => exact .inl hg

/-! ## What becomes of a process that is taken out of the session -/

/-- How the next role of a call goes with the one before, and with what the session has. -/
structure Role.Handles (o o' : Outline) (r s : Role) : Prop where
  tends : ∀ {p : Nat}, s.tends? = some p → r.tends? = some p ∨ p = o.processes.length
  brings : ∀ {p : Nat}, s = .bringing .debug p .fresh → p = o.processes.length ∧ ¬o'.Gone p
  removed : ∀ {p : Nat}, s.removed? = some p → r.removed? = some p ∨ o.session.debug = some p
  released : ∀ {p : Nat}, r.removed? = some p → s.removed? = some p ∨ o'.Gone p

namespace Role.Handles

variable {o o' : Outline} {r s : Role}

/-- Neither role has to do with processes that are taken out of the session. -/
theorem of_none (ht : s.tends? = none) (hs : s.removed? = none) (hr : r.removed? = none) :
    Role.Handles o o' r s where
  tends h := by
    rw [ht] at h
    cases h
  brings h := by
    rw [h] at ht
    cases ht
  removed h := by
    rw [hs] at h
    cases h
  released h := by
    rw [hr] at h
    cases h

/-- The next role tends what the one before did. -/
theorem of_tends (ht : s.tends? = r.tends?) (hb : ∀ p, s ≠ .bringing .debug p .fresh)
    (hs : s.removed? = none) (hr : r.removed? = none) : Role.Handles o o' r s where
  tends h := .inl (ht ▸ h)
  brings h := absurd h (hb _)
  removed h := by
    rw [hs] at h
    cases h
  released h := by
    rw [hr] at h
    cases h

end Role.Handles

/-- What a rule does to the roles. -/
theorem Rule.roles_cases {a : Actor} {o o' : Outline} (h : Rule a o o') (t : Tended o) :
    o'.roles = o.roles ∨ o'.roles = o.roles ++ [.bystander] ∨
      ∃ i r s, a = .call i ∧ o.roles[i]? = some r ∧ o'.roles = o.roles.set i s ∧
        Role.Handles o o' r s := by
  have hplay {i : Nat} {r s : Role} (ha : a = .call i) (hr : o.roles[i]? = some r)
      (hroles : o'.roles = o.roles.set i s) (hs : Role.Handles o o' r s) :
      o'.roles = o.roles ∨ o'.roles = o.roles ++ [.bystander] ∨
        ∃ i r s, a = .call i ∧ o.roles[i]? = some r ∧ o'.roles = o.roles.set i s ∧
          Role.Handles o o' r s := .inr (.inr ⟨i, r, s, ha, hr, hroles, hs⟩)
  cases h with
  | ask => exact .inr (.inl rfl)
  | turn hr h =>
    refine hplay rfl hr rfl ?_
    cases h with
    | @refused u p c k e hk h => cases u <;> exact .of_tends rfl (fun _ h => by cases h) rfl rfl
    | _ => exact .of_none rfl rfl rfl
  | @drop _ i p r s hr h =>
    refine hplay (s := s) rfl hr (by simp [Outline.setRole]) ?_
    have hgone (hp : r.removed? = some p) : (o.dispose p).Gone p := by
      obtain ⟨n, d, hs⟩ := Outline.forDebug_iff.2 (t.away ⟨r, hr, hp⟩).known
      exact Custody.gone_of_dispose hs
    cases h with
    | emptyingDebug =>
      refine ⟨(fun h => by cases h), (fun h => by cases h), (fun h => by cases h),
        fun hp => .inr ?_⟩
      cases hp
      exact hgone rfl
    | replaced =>
      refine ⟨.inl, (fun h => by cases h), (fun h => by cases h), fun hp => .inr ?_⟩
      cases hp
      exact hgone rfl
    | debugFailed => exact .of_tends rfl (fun _ h => by cases h) rfl rfl
    | _ => exact .of_none rfl rfl rfl
  | empty hr =>
    exact hplay rfl hr rfl ⟨(fun h => by cases h), (fun h => by cases h), .inr, fun h => by cases h⟩
  | install hr =>
    refine hplay rfl hr rfl ?_
    split
    · rename_i previous hd
      exact ⟨.inl, (fun h => by cases h), fun hp => .inr (hd.trans hp), fun h => by cases h⟩
    · exact .of_tends rfl (fun _ h => by cases h) rfl rfl
  | createDebug hr hq =>
    refine hplay rfl hr rfl
      ⟨fun hp => .inr ?_, fun hs => ?_, (fun h => by cases h), fun h => by cases h⟩
    · cases hp
      rfl
    · cases hs
      refine ⟨rfl, fun hg => ?_⟩
      obtain ⟨q', hq', -⟩ := Outline.gone_iff.1 (hg.of_append rfl hq.disposed_eq)
      exact Nat.lt_irrefl _ (List.getElem?_eq_some_iff.1 hq').1
  | @adopt _ i g p q hr hq h =>
    exact hplay (s := .bringing (.main g) p .installed) rfl hr (by simp [Outline.setRole])
      (.of_none rfl rfl rfl)
  | @launch _ i p u q hr hq h =>
    exact hplay rfl hr rfl
      (by cases u <;> exact .of_tends rfl (fun _ h => by cases h) rfl rfl)
  | @hold _ i p c' u q k n hr hq h hk ha =>
    exact hplay rfl hr rfl
      (by cases u <;> exact .of_tends rfl (fun _ h => by cases h) rfl rfl)
  | withdraw hr =>
    refine hplay (s := .bystander) rfl hr ?_ (.of_none rfl rfl rfl)
    split <;> rfl
  | endStop hr | endFailed hr | conclude hr h v =>
    exact hplay (s := .bystander) rfl hr (by simp [Outline.setRole])
      (.of_none rfl rfl rfl)
  | claimStop hr | claimStart hr | clear hr | createMain hr | note hr | connect hr | keep hr
  | retract hr | dismiss hr => exact hplay rfl hr rfl (.of_none rfl rfl rfl)
  | endDebug h => exact .inl (Outline.dispose_roles ..)
  | dropWatch hx hv => exact .inl (Outline.dispose_roles ..)
  | _ => exact .inl rfl

section Fates

variable {a : Actor} {o o' : Outline} {i p : Nat}

/-- A call tends a process from its making on. -/
theorem Rule.tends_back (h : Rule a o o') (t : Tended o) (hp : o.purposes[p]? = some .debug)
    (hi : o'.Tends i p) : o.Tends i p := by
  obtain ⟨u, hu, hup⟩ := hi
  rcases h.roles_cases t with h | h | ⟨j, r, s, -, hr, h, hs⟩ <;> rw [h] at hu
  · exact ⟨u, hu, hup⟩
  · rcases getElem?_append_cases hu with hu | ⟨-, rfl⟩
    · exact ⟨u, hu, hup⟩
    · cases hup
  · rcases getElem?_set_cases hu with ⟨rfl, rfl⟩ | ⟨-, hu⟩
    · exact ⟨r, hr, (hs.tends hup).resolve_right (Outline.ne_length_of_purpose hp)⟩
    · exact ⟨u, hu, hup⟩

/-- A process that exists is not brought into the session for a second time. -/
theorem Rule.brings_back (h : Rule a o o') (t : Tended o) (hp : o.purposes[p]? = some .debug)
    (hi : o'.Brings i p) : o.Brings i p := by
  rw [Outline.Brings] at hi
  rcases h.roles_cases t with h | h | ⟨j, r, s, -, hr, h, hs⟩ <;> rw [h] at hi
  · exact hi
  · rcases getElem?_append_cases hi with hi | ⟨-, hi⟩
    · exact hi
    · cases hi
  · rcases getElem?_set_cases hi with ⟨-, hi⟩ | ⟨-, hi⟩
    · exact absurd (hs.brings hi.symm).1 (Outline.ne_length_of_purpose hp)
    · exact hi

/-- Whoever holds a process has taken it out of the session. -/
theorem Rule.holds_back (h : Rule a o o') (t : Tended o) (hi : o'.Holds i p) :
    o.Holds i p ∨ a = .call i ∧ o.session.debug = some p := by
  obtain ⟨u, hu, hup⟩ := hi
  rcases h.roles_cases t with h | h | ⟨j, r, s, ha, hr, h, hs⟩ <;> rw [h] at hu
  · exact .inl ⟨u, hu, hup⟩
  · rcases getElem?_append_cases hu with hu | ⟨-, rfl⟩
    · exact .inl ⟨u, hu, hup⟩
    · cases hup
  · rcases getElem?_set_cases hu with ⟨rfl, rfl⟩ | ⟨-, hu⟩
    · exact (hs.removed hup).imp (fun h => ⟨r, hr, h⟩) fun h => ⟨ha, h⟩
    · exact .inl ⟨u, hu, hup⟩

/-- A process is held until it has been disposed of. -/
theorem Rule.holds_stays (h : Rule a o o') (t : Tended o) (hi : o.Holds i p) :
    o'.Holds i p ∨ o'.Gone p := by
  obtain ⟨u, hu, hup⟩ := hi
  rcases h.roles_cases t with h | h | ⟨j, r, s, -, hr, h, hs⟩
  · exact .inl ⟨u, h ▸ hu, hup⟩
  · exact .inl ⟨u, h ▸ getElem?_append_of_some hu _, hup⟩
  · rcases getElem?_set_or hr hu s with ⟨rfl, rfl⟩ | hu
    · exact (hs.released hup).imp (fun hs => ⟨s, h ▸ getElem?_set_at hr s, hs⟩) id
    · exact .inl ⟨u, h ▸ hu, hup⟩

/-- What the session has it was given by the start that has made it. -/
theorem Rule.slot_back (h : Rule a o o') (hd : o'.session.debug = some p) :
    o.session.debug = some p ∨ ∃ i, a = .call i ∧ o.Brings i p := by
  cases h with
  | drop | dropWatch => exact .inl (by simpa [Outline.setRole, Outline.setVigil] using hd)
  | empty hr => cases hd
  | endDebug h => cases hd
  | install hr =>
    cases hd
    exact .inr ⟨_, rfl, hr⟩
  | withdraw hr =>
    split at hd
    · cases hd
    · exact .inl hd
  | adopt hr hq h =>
    simp only [Outline.watchExit] at hd
    split at hd <;> exact .inl hd
  | endStop hr | endFailed hr | conclude hr h v =>
    simp only [Outline.transition] at hd
    split at hd <;> exact .inl hd
  | _ => exact .inl hd

/-- A process leaves the session into the hands of a call, or when it has been disposed of. -/
theorem Rule.slot_cases (h : Rule a o o') (c : Custody o) (hd : o.session.debug = some p) :
    o'.session.debug = some p ∨ ∃ i, a = .call i ∧ (o'.Holds i p ∨ o'.Gone p) := by
  cases h with
  | drop | dropWatch => exact .inl (by simpa [Outline.setRole, Outline.setVigil] using hd)
  | empty hr => exact .inr ⟨_, rfl, .inl ⟨_, getElem?_set_at hr _, hd⟩⟩
  | @endDebug _ i d h =>
    obtain ⟨n, x, hs⟩ := c.debug hd
    obtain rfl : d = p := Option.some.inj (h.symm.trans hd)
    exact .inr ⟨i, rfl, .inr (Custody.gone_of_dispose hs)⟩
  | install hr =>
    refine .inr ⟨_, rfl, .inl ⟨_, getElem?_set_at hr _, ?_⟩⟩
    rw [hd]
    rfl
  | @withdraw _ i p' hr =>
    split
    · rename_i h
      obtain rfl : p' = p := Option.some.inj (h.symm.trans hd)
      exact .inr ⟨i, rfl, .inr (c.withdrawn hr rfl)⟩
    · exact .inl hd
  | adopt hr hq h =>
    unfold Outline.watchExit
    split <;> exact .inl hd
  | endStop hr | endFailed hr | conclude hr h v =>
    unfold Outline.transition
    split <;> exact .inl hd
  | _ => exact .inl hd

/-- What has been disposed of stays so. -/
theorem Rule.gone_stays (h : Rule a o o') (hg : o.Gone p) : o'.Gone p := by
  cases h with
  | drop hr h => exact hg.dispose _
  | endDebug h => exact hg.dispose _
  | dropWatch hx hv => exact hg.dispose _
  | createMain hr hq | createDebug hr hq =>
    obtain ⟨u, n, hs⟩ := hg
    exact ⟨u, n, Outline.standing?_append hs _⟩
  | adopt hr hq h =>
    unfold Outline.watchExit
    split
    · exact hg
    · exact hg.set hq rfl rfl
  | hold hr hq h hk ha => exact hg.set hq rfl rfl
  | passOn hk hq he hw hp => exact hg.set hq rfl rfl
  | endStop hr | endFailed hr | conclude hr h v =>
    unfold Outline.transition
    split <;> exact hg
  | withdraw hr => split <;> exact hg
  | _ => exact hg

/-- A process that is away does not come back. -/
theorem Rule.away (h : Rule a o o') (x : Exits o) (t : Tended o) (hp : o.Away p) : o'.Away p where
  known := (h.lasts x).purpose hp.known
  unseated hd := (h.slot_back hd).elim hp.unseated fun ⟨i, _, hi⟩ => hp.unbrought i hi
  unbrought i hi := hp.unbrought i (h.brings_back t hp.known hi)

/-- A process that is about to be put into the session has not been disposed of. -/
theorem Rule.brings_intact (h : Rule a o o') (c : Custody o) (x : Exits o) (t : Tended o)
    (hintact : ∀ i p, o.Brings i p → ¬o.Gone p) : ∀ i p, o'.Brings i p → ¬o'.Gone p := by
  intro i p hi hg
  -- It was not disposed of before, and nobody could do so now.
  have hold : ¬o.Brings i p := by
    intro hb
    have hp := t.known hb.tends
    rcases h.gone_cases c x t hp hg with hg | ⟨j, -, hj | hj | ⟨hd, -⟩⟩
    · exact hintact i p hb hg
    · obtain rfl := t.alone hj.tends hb.tends
      rw [Outline.Brings, show o.roles[j]? = _ from hj] at hb
      cases hb
    · exact (t.away hj).unbrought i hb
    · exact t.unseated hb hd
  rw [Outline.Brings] at hi
  rcases h.roles_cases t with h | h | ⟨j, r, s, -, hr, h, hs⟩ <;> rw [h] at hi
  · exact hold hi
  · rcases getElem?_append_cases hi with hi | ⟨-, hi⟩
    · exact hold hi
    · cases hi
  · rcases getElem?_set_cases hi with ⟨-, hi⟩ | ⟨-, hi⟩
    · exact (hs.brings hi.symm).2 hg
    · exact hold hi

end Fates

/-! ## A piece of an activity -/

section Pieces

variable {a : Actor} {o o' : Outline} {i p : Nat}

/-- What every rule keeps of a sound session, in which debug sessions are tended, is kept by a
chain. -/
theorem Leads.keeps_of_tended {P : Outline → Prop} (h : Leads a o o') (s : Sound o) (t : Tended o)
    (hP : ∀ {u v : Outline}, Sound u → Tended u → P u → Rule a u v → P v) (ho : P o) :
    Tended o' ∧ P o' := by
  have hkept : Sound o' ∧ Tended o' ∧ P o' := by
    refine h.keeps (P := fun u => Sound u ∧ Tended u ∧ P u) (fun u v hu hrule => ?_) ⟨s, t, ho⟩
    exact ⟨hrule.sound hu.1, hrule.tended hu.1.custody hu.1.exits hu.2.1,
      hP hu.1 hu.2.1 hu.2.2 hrule⟩
  exact hkept.2

/-- A process that exists is not brought into the session for a second time. -/
theorem Leads.brings_back (h : Leads a o o') (s : Sound o) (t : Tended o)
    (hp : o.purposes[p]? = some .debug) (hi : o'.Brings i p) : o.Brings i p := by
  have hkept := h.keeps_of_tended
    (P := fun u => u.purposes[p]? = some .debug ∧ (u.Brings i p → o.Brings i p)) s t
    (fun hs ht hu hrule => ⟨(hrule.lasts hs.exits).purpose hu.1,
      fun hi => hu.2 (hrule.brings_back ht hu.1 hi)⟩) ⟨hp, id⟩
  exact hkept.2.2 hi

/-- A process keeps its purpose. -/
theorem Leads.purpose {u : Purpose} (h : Leads a o o') (s : Sound o)
    (hp : o.purposes[p]? = some u) : o'.purposes[p]? = some u :=
  h.keeps_of_sound s (fun hs hu hrule => (hrule.lasts hs.exits).purpose hu) hp

/-- What is gone stays so over a step. -/
theorem Leads.gone_stays (h : Leads a o o') (hg : o.Gone p) : o'.Gone p :=
  h.keeps (P := fun u => u.Gone p) (fun _ _ hu hrule => hrule.gone_stays hu) hg

/-- A process leaves the session into the hands of a call, or when it has been disposed of. -/
theorem Leads.slot_cases (h : Leads a o o') (s : Sound o) (t : Tended o)
    (hd : o.session.debug = some p) :
    o'.session.debug = some p ∨ ∃ i, a = .call i ∧ (o'.Holds i p ∨ o'.Gone p) := by
  refine (h.keeps_of_tended (P := fun u => u.session.debug = some p ∨
    ∃ i, a = .call i ∧ (u.Holds i p ∨ u.Gone p)) s t ?_ (.inl hd)).2
  intro u v hs ht hu hrule
  rcases hu with hu | ⟨i, ha, hi | hg⟩
  · exact hrule.slot_cases hs.custody hu
  · exact .inr ⟨i, ha, hrule.holds_stays ht hi⟩
  · exact .inr ⟨i, ha, .inr (hrule.gone_stays hg)⟩

/-- Where a call has the process from that it sees to, in the middle of a piece that began at an
earlier outline. -/
structure Outline.Traced (o : Outline) (i p : Nat) (o' : Outline) : Prop where
  known : o'.purposes[p]? = some .debug
  tends : o'.Tends i p → o.Tends i p
  slot : o'.session.debug = some p → o.session.debug = some p ∨ o.Tends i p
  holds : o'.Holds i p → o.Holds i p ∨ o.session.debug = some p ∨ o.Tends i p
  gone : o'.Gone p → o.Gone p ∨ o.Tends i p ∨ o.Holds i p ∨ o.session.debug = some p ∧ o'.Away p

/-- A rule of the call goes on from what it has. -/
theorem Outline.Traced.rule {u v : Outline} (h : o.Traced i p u) (s : Sound u) (t : Tended u)
    (hrule : Rule (.call i) u v) : o.Traced i p v := by
  have haway : u.Away p → v.Away p := hrule.away s.exits t
  have hslot : u.session.debug = some p ∨ u.Brings i p →
      o.session.debug = some p ∨ o.Tends i p := by
    rintro (hd | hi)
    · exact h.slot hd
    · exact .inr (h.tends hi.tends)
  refine ⟨(hrule.lasts s.exits).purpose h.known, fun hi => h.tends (hrule.tends_back t h.known hi),
    fun hd => ?_, fun hi => ?_, fun hg => ?_⟩
  · rcases hrule.slot_back hd with hd | ⟨j, hj, hi⟩
    · exact h.slot hd
    · cases hj
      exact .inr (h.tends hi.tends)
  · rcases hrule.holds_back t hi with hi | ⟨-, hd⟩
    · exact h.holds hi
    · exact .inr (h.slot hd)
  · rcases hrule.gone_cases s.custody s.exits t h.known hg with hg | ⟨j, hj, hcase⟩
    · rcases h.gone hg with hg | hi | hi | ⟨hd, hp⟩
      · exact .inl hg
      · exact .inr (.inl hi)
      · exact .inr (.inr (.inl hi))
      · exact .inr (.inr (.inr ⟨hd, haway hp⟩))
    · cases hj
      rcases hcase with hi | hi | ⟨hd, hp⟩
      · exact .inr (.inl (h.tends hi.tends))
      · rcases h.holds hi with hi' | hd | hi'
        · exact .inr (.inr (.inl hi'))
        · exact .inr (.inr (.inr ⟨hd, haway (t.away hi)⟩))
        · exact .inr (.inl hi')
      · rcases h.slot hd with hd | hi
        · exact .inr (.inr (.inr ⟨hd, hp⟩))
        · exact .inr (.inl hi)

/-- The process of a debug session is disposed of by the start that tends it, by the call that
holds it, or by a call that takes it out of the session in the same piece. -/
theorem Leads.gone_cases (h : Leads a o o') (s : Sound o) (t : Tended o)
    (hp : o.purposes[p]? = some .debug) (hg : o'.Gone p) :
    o.Gone p ∨ ∃ i, a = .call i ∧
      (o.Tends i p ∨ o.Holds i p ∨ o.session.debug = some p ∧ o'.Away p) := by
  by_cases hcall : ∃ i, a = .call i
  · obtain ⟨i, rfl⟩ := hcall
    have htraced : o.Traced i p o' :=
      (h.keeps_of_tended s t (fun hs ht hu hrule => hu.rule hs ht hrule)
        ⟨hp, id, .inl, .inl, .inl⟩).2
    exact (htraced.gone hg).imp id fun h => ⟨i, rfl, h⟩
  · -- Nobody else disposes of it.
    have hkept : Tended o' ∧ (o'.purposes[p]? = some .debug ∧ (o'.Gone p → o.Gone p)) := by
      refine h.keeps_of_tended
        (P := fun u => u.purposes[p]? = some .debug ∧ (u.Gone p → o.Gone p)) s t
        (fun {u v} hs ht hu hrule => ?_) ⟨hp, id⟩
      refine ⟨(hrule.lasts hs.exits).purpose hu.1, fun hg => ?_⟩
      rcases hrule.gone_cases hs.custody hs.exits ht hu.1 hg with hg | ⟨i, ha, -⟩
      · exact hu.2 hg
      · exact absurd ⟨i, ha⟩ hcall
    exact .inl (hkept.2.2 hg)

end Pieces

end SessionHost
