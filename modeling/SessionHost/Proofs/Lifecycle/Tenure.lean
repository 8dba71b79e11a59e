import SessionHost.Proofs.Lifecycle.Rule

/-!
# Tenure of the status

A start holds a generation from its claim to its end, and a stop holds the status.  While the
status says that a start or a stop is under way, exactly one call holds the claim that belongs
to it; a start that has been called off has lost its claim to the status.

Main definitions:

- `Outline.claim?`: the claim that the status stands for.
- `Outline.Spent`: a generation that cannot be live any more.
- `Tenure`: who may hold which claim.

Main results:

- Theorem `Rule.tenure`: every rule keeps the tenure.
- Theorem `Rule.spent`: a generation that is over stays over.
-/

namespace SessionHost

namespace Outline

/-- The claim that the status stands for. -/
def claim? (o : Outline) : Option Claim :=
  match o.status with
  | .starting => some (.start o.generation)
  | .stopping => some .stop
  | _ => none

theorem claim?_of_starting {o : Outline} (h : o.status = .starting) :
    o.claim? = some (.start o.generation) := by
  rw [claim?, h]

theorem claim?_of_stopping {o : Outline} (h : o.status = .stopping) : o.claim? = some .stop := by
  rw [claim?, h]

/-- The status stands for one start only. -/
theorem claim?_eq_start {o : Outline} {g : Nat} (h : o.claim? = some (.start g)) :
    o.generation = g ∧ o.status = .starting := by
  unfold claim? at h
  split at h <;> cases h
  exact ⟨rfl, by assumption⟩

/-- A claim that a call may hold.  A start that has not been called off is the one that the
status speaks of. -/
def Admits (o : Outline) : Claim → Prop
  | .start g => g ≤ o.generation ∧
      (.start g ∉ o.cancelled → g = o.generation ∧ o.status = .starting)
  | .stop => o.status = .stopping

/-- The generation is over. -/
def Spent (o : Outline) (g : Nat) : Prop :=
  g < o.generation ∨
    g = o.generation ∧ (o.status = .failed ∨ o.status = .stopping ∨ o.status = .notStarted)

/-- A watch belongs to a generation that has begun, and releases only one that is over. -/
def Watches (o : Outline) (x : Lookout) : Prop :=
  x.generation ≤ o.generation ∧ ∀ grip, x.vigil = .releasing grip → o.Spent x.generation

/-- While a watch releases the present generation, the session is not live. -/
theorem Watches.isLive_eq_false {o : Outline} {x : Lookout} {grip : Grip} (h : o.Watches x)
    (hv : x.vigil = .releasing grip) (hg : o.generation = x.generation) :
    o.status.isLive = false := by
  rcases h.2 grip hv with hlt | ⟨-, hs | hs | hs⟩
  · omega
  all_goals
    rw [hs]
    rfl

/-- While a watch releases the present generation, the status does not stand for a start. -/
theorem Watches.claim?_ne_start {o : Outline} {x : Lookout} {grip : Grip} (h : o.Watches x)
    (hv : x.vigil = .releasing grip) (hg : o.generation = x.generation) (g : Nat) :
    o.claim? ≠ some (.start g) := by
  intro hclaim
  have hs := (claim?_eq_start hclaim).2
  rcases h.2 grip hv with hlt | ⟨-, h | h | h⟩
  · omega
  all_goals
    rw [h] at hs
    cases hs

end Outline

/-- Who holds which claim. -/
structure Tenure (o : Outline) : Prop where
  inside : ∀ {i : Nat} {r : Role}, o.roles[i]? = some r → r ≠ .outsider
  alone : ∀ {i j : Nat} {r s : Role} {c : Claim}, o.roles[i]? = some r → o.roles[j]? = some s →
    r.claim? = some c → s.claim? = some c → i = j
  admits : ∀ {i : Nat} {r : Role} {c : Claim}, o.roles[i]? = some r → r.claim? = some c →
    o.Admits c
  /-- The claim that the status stands for is held by a call. -/
  owned : ∀ {c : Claim}, o.claim? = some c →
    ∃ (i : Nat) (r : Role), o.roles[i]? = some r ∧ r.claim? = some c
  calledOff : ∀ {g : Nat}, .start g ∈ o.cancelled →
    g < o.generation ∨ g = o.generation ∧ (o.status = .stopping ∨ o.status = .notStarted)
  watches : ∀ {j : Nat} {x : Lookout}, o.lookouts[j]? = some x → o.Watches x

/-- A start brings up a process of its own generation, which is not disposed of before the
start is called off. -/
def Outline.Upheld (o : Outline) : Prop :=
  ∀ {i g p : Nat} {s : Upbringing} {q : ServerProcess},
    o.roles[i]? = some (.bringing (.main g) p s) → o.processes[p]? = some q →
    q.purpose = .main g ∧ (q.disposed = true → .start g ∈ o.cancelled)

namespace Tenure

variable {o o' : Outline} {i : Nat} {r s : Role}

/-! ## What does not concern the tenure -/

/-- The tenure depends on the status, the starts that were called off, roles and watches. -/
theorem of_eq (t : Tenure o) (hs : o'.status = o.status) (hg : o'.generation = o.generation)
    (hc : ∀ g, .start g ∈ o'.cancelled ↔ .start g ∈ o.cancelled) (hr : o'.roles = o.roles)
    (hl : ∀ {j : Nat} {x : Lookout}, o'.lookouts[j]? = some x → o.Watches x) : Tenure o' where
  inside h := t.inside (hr ▸ h)
  alone h h' := t.alone (hr ▸ h) (hr ▸ h')
  admits {i r c} h hrc := by
    have := t.admits (hr ▸ h) hrc
    cases c <;> simpa only [Outline.Admits, hs, hg, hc] using this
  owned {c} h := by
    rw [hr]
    exact t.owned (by simpa only [Outline.claim?, hs, hg] using h)
  calledOff {g} h := by
    rw [hs, hg]
    exact t.calledOff ((hc g).1 h)
  watches {j x} h := by
    simpa only [Outline.Watches, Outline.Spent, hs, hg] using hl h

/-- A call that keeps its claim may play another role. -/
theorem setRole (t : Tenure o) (hr : o.roles[i]? = some r) (hs : s ≠ .outsider)
    (hclaim : s.claim? = r.claim?) : Tenure (o.setRole i s) where
  inside {j u} h := by
    rcases getElem?_set_cases h with ⟨-, rfl⟩ | ⟨-, h⟩
    · exact hs
    · exact t.inside h
  alone {j k u v c} hj hk hu hv := by
    rcases getElem?_set_cases hj with ⟨rfl, rfl⟩ | ⟨-, hj'⟩ <;>
      rcases getElem?_set_cases hk with ⟨rfl, rfl⟩ | ⟨-, hk'⟩
    · rfl
    · exact t.alone hr hk' (hclaim ▸ hu) hv
    · exact t.alone hj' hr hu (hclaim ▸ hv)
    · exact t.alone hj' hk' hu hv
  admits {j u c} h hu := by
    rcases getElem?_set_cases h with ⟨rfl, rfl⟩ | ⟨-, h⟩
    · exact t.admits hr (hclaim ▸ hu)
    · exact t.admits h hu
  owned {c} h := exists_getElem?_set hr (t.owned h) (hclaim ▸ id)
  calledOff := t.calledOff
  watches := t.watches

/-- A call may give up a claim that the status does not stand for. -/
theorem resign (t : Tenure o) (hr : o.roles[i]? = some r) (hs : s ≠ .outsider)
    (hnone : s.claim? = none) (hclaim : ∀ c, r.claim? = some c → o.claim? ≠ some c) :
    Tenure (o.setRole i s) where
  inside {j u} h := by
    rcases getElem?_set_cases h with ⟨-, rfl⟩ | ⟨-, h⟩
    · exact hs
    · exact t.inside h
  alone {j k u v c} hj hk hu hv := by
    rcases getElem?_set_cases hj with ⟨-, rfl⟩ | ⟨-, hj⟩
    · rw [hnone] at hu
      cases hu
    · rcases getElem?_set_cases hk with ⟨-, rfl⟩ | ⟨-, hk⟩
      · rw [hnone] at hv
        cases hv
      · exact t.alone hj hk hu hv
  admits {j u c} h hu := by
    rcases getElem?_set_cases h with ⟨-, rfl⟩ | ⟨-, h⟩
    · rw [hnone] at hu
      cases hu
    · exact t.admits h hu
  owned {c} h := exists_getElem?_set hr (t.owned h) fun hrc => absurd h (hclaim c hrc)
  calledOff := t.calledOff
  watches := t.watches

/-- The status does not stand for a start that has been called off. -/
theorem claim?_ne_of_cancelled (t : Tenure o) {g : Nat} (h : .start g ∈ o.cancelled) :
    o.claim? ≠ some (.start g) := by
  intro hclaim
  obtain ⟨hg, hs⟩ := Outline.claim?_eq_start hclaim
  rcases t.calledOff h with hlt | ⟨-, h | h⟩
  · omega
  · rw [h] at hs
    cases hs
  · rw [h] at hs
    cases hs

/-- While a call has the claim of a start on the present generation, the session is not
live. -/
theorem isLive_eq_false (t : Tenure o) (hr : o.roles[i]? = some r)
    (hclaim : r.claim? = some (.start o.generation)) : o.status.isLive = false := by
  by_cases h : .start o.generation ∈ o.cancelled
  · rcases t.calledOff h with hlt | ⟨-, hs | hs⟩
    · omega
    · rw [hs]
      rfl
    · rw [hs]
      rfl
  · rw [((t.admits hr hclaim).2 h).2]
    rfl

/-- A start that has been called off may come to its end. -/
theorem quit (t : Tenure o) {g : Nat} (hr : o.roles[i]? = some r)
    (hclaim : r.claim? = some (.start g)) (h : .start g ∈ o.cancelled) :
    Tenure (o.setRole i .bystander) := by
  refine t.resign hr (by simp) rfl fun c hc => ?_
  rw [hclaim, Option.some.injEq] at hc
  subst hc
  exact t.claim?_ne_of_cancelled h

/-- The end of bringing up a process that nobody waits for. -/
theorem giveUp (t : Tenure o) {u : Purpose} {p : Nat} {x : Upbringing}
    (hr : o.roles[i]? = some (.bringing u p x))
    (h : ∀ g, u = .main g → .start g ∈ o.cancelled) : Tenure (o.setRole i .bystander) := by
  cases u with
  | main g => exact t.quit hr rfl (h g rfl)
  | debug => exact t.setRole hr (by simp) rfl
  | lone => exact t.setRole hr (by simp) rfl

/-- A new call is a bystander. -/
theorem ask (t : Tenure o) : Tenure { o with roles := o.roles ++ [.bystander] } where
  inside {j u} h := by
    rcases getElem?_append_cases h with h | ⟨-, rfl⟩
    · exact t.inside h
    · simp
  alone {j k u v c} hj hk hu hv := by
    rcases getElem?_append_cases hj with hj | ⟨-, rfl⟩
    · rcases getElem?_append_cases hk with hk | ⟨-, rfl⟩
      · exact t.alone hj hk hu hv
      · cases hv
    · cases hu
  admits {j u c} h hu := by
    rcases getElem?_append_cases h with h | ⟨-, rfl⟩
    · exact t.admits h hu
    · cases hu
  owned {c} h := by
    obtain ⟨i, r, hr, hc⟩ := t.owned h
    exact ⟨i, r, getElem?_append_of_some hr _, hc⟩
  calledOff := t.calledOff
  watches := t.watches

/-- A watch at another stage. -/
theorem setVigil (t : Tenure o) {j : Nat} {x : Lookout} {v : Vigil}
    (hx : o.lookouts[j]? = some x) (hv : ∀ grip, v = .releasing grip → o.Spent x.generation) :
    Tenure (o.setVigil j x v) := by
  refine t.of_eq rfl rfl (fun _ => Iff.rfl) rfl fun {k y} hy => ?_
  rcases getElem?_set_cases hy with ⟨-, rfl⟩ | ⟨-, hy⟩
  · exact ⟨(t.watches hx).1, hv⟩
  · exact t.watches hy

/-! ## Moves of the status -/

/-- A live session may be busy, or run, or fail: nobody has a claim on it. -/
theorem moveLive (t : Tenure o) (h : o.status.isLive = true) {target : Status}
    (ht : target = .running ∨ target = .busy ∨ target = .failed) :
    Tenure { o with status := target } where
  inside := t.inside
  alone := t.alone
  admits {i r c} hr hc := by
    have hadmits := t.admits hr hc
    cases c with
    | start g =>
      refine ⟨hadmits.1, fun hg => ?_⟩
      rw [(hadmits.2 hg).2] at h
      cases h
    | stop =>
      rw [show o.status = .stopping from hadmits] at h
      cases h
  owned {c} hc := by
    rcases ht with rfl | rfl | rfl <;> cases hc
  calledOff {g} hg := by
    rcases t.calledOff hg with hlt | ⟨-, hs | hs⟩
    · exact .inl hlt
    · rw [hs] at h
      cases h
    · rw [hs] at h
      cases h
  watches {j x} hx := by
    obtain ⟨hle, hspent⟩ := t.watches hx
    refine ⟨hle, fun grip hgrip => ?_⟩
    rcases hspent grip hgrip with hlt | ⟨-, hs | hs | hs⟩
    · exact .inl hlt
    all_goals
      rw [hs] at h
      cases h

/-- A call of the session that takes another part in it is still one of the session. -/
theorem inside_set (t : Tenure o) (hs : s ≠ .outsider) {j : Nat} {u : Role}
    (hu : (o.roles.set i s)[j]? = some u) : u ≠ .outsider := by
  rcases getElem?_set_cases hu with ⟨-, rfl⟩ | ⟨-, hu⟩
  · exact hs
  · exact t.inside hu

/-- A claim that nobody had is held by the one call that has taken it. -/
theorem alone_set (t : Tenure o) {c : Claim} (hs : s.claim? = some c)
    (hnew : ∀ {k : Nat} {v : Role}, o.roles[k]? = some v → v.claim? ≠ some c)
    {j k : Nat} {u v : Role} {d : Claim} (hj : (o.roles.set i s)[j]? = some u)
    (hk : (o.roles.set i s)[k]? = some v) (hu : u.claim? = some d) (hv : v.claim? = some d) :
    j = k := by
  rcases getElem?_set_cases hj with ⟨rfl, rfl⟩ | ⟨-, hj'⟩ <;>
    rcases getElem?_set_cases hk with ⟨rfl, rfl⟩ | ⟨-, hk'⟩
  · rfl
  · exact absurd (hv.trans (hu.symm.trans hs)) (hnew hk')
  · exact absurd (hu.trans (hv.symm.trans hs)) (hnew hj')
  · exact t.alone hj' hk' hu hv

/-- Claims that are left when a call has given its own up are other ones. -/
theorem left (t : Tenure o) {c : Claim} (hr : o.roles[i]? = some r) (hclaim : r.claim? = some c)
    {j : Nat} {u : Role} {d : Claim} (hu : (o.roles.set i .bystander)[j]? = some u)
    (hd : u.claim? = some d) : d ≠ c ∧ o.roles[j]? = some u := by
  rcases getElem?_set_cases hu with ⟨-, rfl⟩ | ⟨hji, hu⟩
  · cases hd
  · refine ⟨?_, hu⟩
    rintro rfl
    exact hji (t.alone hu hr hd hclaim)

/-- A stop claims the status, and calls the start of the present generation off. -/
theorem claimStop (t : Tenure o) (hr : o.roles[i]? = some .bystander)
    (hstop : o.status ≠ .stopping) :
    Tenure (({ o with status := .stopping }.cancel (.start o.generation)).setRole i
      .stopping) where
  inside := t.inside_set (by simp)
  alone {j k u v c} hj hk hu hv := by
    have hnew {k : Nat} {v : Role} (hk : o.roles[k]? = some v) : v.claim? ≠ some .stop :=
      fun hv => hstop (t.admits hk hv)
    exact t.alone_set rfl hnew hj hk hu hv
  admits {j u c} h hu := by
    rcases getElem?_set_cases h with ⟨-, rfl⟩ | ⟨-, h⟩
    · cases hu
      rfl
    · have hadmits := t.admits h hu
      cases c with
      | start g =>
        refine ⟨hadmits.1, fun hg => ?_⟩
        simp only [Outline.setRole, Outline.cancel, List.mem_append, List.mem_singleton,
          not_or] at hg
        exact absurd (by rw [(hadmits.2 hg.1).1]) hg.2
      | stop => rfl
  owned {c} h := by
    cases h
    exact ⟨i, .stopping, getElem?_set_at hr _, rfl⟩
  calledOff {g} h := by
    rcases List.mem_append.1 h with h | h
    · rcases t.calledOff h with hlt | ⟨heq, -⟩
      · exact .inl hlt
      · exact .inr ⟨heq, .inl rfl⟩
    · rw [List.mem_singleton, Token.start.injEq] at h
      exact .inr ⟨h, .inl rfl⟩
  watches {j x} hx := by
    have hle := (t.watches hx).1
    exact ⟨hle, fun _ _ => (Nat.lt_or_eq_of_le hle).imp id fun heq => ⟨heq, .inr (.inl rfl)⟩⟩

/-- A start claims a new generation. -/
theorem claimStart (t : Tenure o) (hr : o.roles[i]? = some .bystander)
    (h : o.status = .notStarted ∨ o.status = .failed) :
    Tenure ({ o with generation := o.generation + 1, status := .starting }.setRole i
      (.clearing (o.generation + 1) .reaching)) := by
  constructor
  case inside => exact t.inside_set (by simp)
  case alone =>
    have hnew {k : Nat} {v : Role} (hk : o.roles[k]? = some v) :
        v.claim? ≠ some (.start (o.generation + 1)) :=
      fun hv => absurd (t.admits hk hv).1 (by omega)
    intro j k u v c hj hk hu hv
    exact t.alone_set rfl hnew hj hk hu hv
  case admits =>
    intro j u c hu hc
    rcases getElem?_set_cases hu with ⟨-, rfl⟩ | ⟨-, hu⟩
    · cases hc
      exact ⟨Nat.le_refl _, fun _ => ⟨rfl, rfl⟩⟩
    · have hadmits := t.admits hu hc
      cases c with
      | start g =>
        refine ⟨Nat.le_succ_of_le hadmits.1, fun hg => ?_⟩
        have hs := (hadmits.2 hg).2
        rcases h with h | h <;> rw [h] at hs <;> cases hs
      | stop =>
        have hs : o.status = .stopping := hadmits
        rcases h with h | h <;> rw [h] at hs <;> cases hs
  case owned =>
    intro c hc
    cases hc
    exact ⟨i, _, getElem?_set_at hr _, rfl⟩
  case calledOff =>
    intro g hg
    refine .inl (Nat.lt_succ_of_le ?_)
    rcases t.calledOff hg with hlt | ⟨heq, -⟩
    · exact Nat.le_of_lt hlt
    · exact Nat.le_of_eq heq
  case watches =>
    intro j x hx
    have hle := (t.watches hx).1
    exact ⟨Nat.le_succ_of_le hle, fun _ _ => .inl (Nat.lt_succ_of_le hle)⟩

/-- The end of a stop. -/
theorem endStop (t : Tenure o) (hr : o.roles[i]? = some r) (hclaim : r.claim? = some .stop) :
    Tenure ({ o with status := .notStarted }.setRole i .bystander) := by
  have hstop : o.status = .stopping := t.admits hr hclaim
  constructor
  case inside => exact t.inside_set (by simp)
  case alone =>
    intro j k u v c hj hk hu hv
    exact t.alone (t.left hr hclaim hj hu).2 (t.left hr hclaim hk hv).2 hu hv
  case admits =>
    intro j u c hu hc
    obtain ⟨hne, hu⟩ := t.left hr hclaim hu hc
    have hadmits := t.admits hu hc
    cases c with
    | start g =>
      refine ⟨hadmits.1, fun hg => ?_⟩
      have hs := (hadmits.2 hg).2
      rw [hstop] at hs
      cases hs
    | stop => exact absurd rfl hne
  case owned =>
    intro c hc
    cases hc
  case calledOff =>
    intro g hg
    exact (t.calledOff hg).imp id fun h => ⟨h.1, .inr rfl⟩
  case watches =>
    intro j x hx
    obtain ⟨hle, hspent⟩ := t.watches hx
    exact ⟨hle, fun grip hgrip => (hspent grip hgrip).imp id fun h => ⟨h.1, .inr (.inr rfl)⟩⟩

/-- The end of the start that the status speaks of. -/
theorem endStart (t : Tenure o) (hr : o.roles[i]? = some r)
    (hclaim : r.claim? = some (.start o.generation)) (hs : o.status = .starting)
    {target : Status} (ht : target = .running ∨ target = .failed) :
    Tenure ({ o with status := target }.setRole i .bystander) := by
  constructor
  case inside => exact t.inside_set (by simp)
  case alone =>
    intro j k u v c hj hk hu hv
    exact t.alone (t.left hr hclaim hj hu).2 (t.left hr hclaim hk hv).2 hu hv
  case admits =>
    intro j u c hu hc
    obtain ⟨hne, hu⟩ := t.left hr hclaim hu hc
    have hadmits := t.admits hu hc
    cases c with
    | start g =>
      refine ⟨hadmits.1, fun hg => ?_⟩
      exact absurd (by rw [(hadmits.2 hg).1]) hne
    | stop =>
      rw [show o.status = .stopping from hadmits] at hs
      cases hs
  case owned =>
    intro c hc
    rcases ht with rfl | rfl <;> cases hc
  case calledOff =>
    intro g hg
    rcases t.calledOff hg with hlt | ⟨-, h | h⟩
    · exact .inl hlt
    all_goals
      rw [h] at hs
      cases hs
  case watches =>
    intro j x hx
    obtain ⟨hle, hspent⟩ := t.watches hx
    refine ⟨hle, fun grip hgrip => ?_⟩
    rcases hspent grip hgrip with hlt | ⟨-, h | h | h⟩
    · exact .inl hlt
    all_goals
      rw [h] at hs
      cases hs

/-- A disposal does not concern the tenure. -/
theorem dispose (t : Tenure o) (p : Nat) : Tenure (o.dispose p) := by
  obtain ⟨processes, consoles, h⟩ := o.dispose_eq p
  rw [h]
  exact t.of_eq rfl rfl (fun _ => Iff.rfl) rfl t.watches

/-- A change of the session, processes, consoles and clients does not concern the tenure. -/
theorem of_furniture (t : Tenure o) (session : Session) (processes : List ServerProcess)
    (consoles : List Console) (stops : List Nat) :
    Tenure { o with
      session := session, processes := processes, consoles := consoles, stops := stops } :=
  t.of_eq rfl rfl (fun _ => Iff.rfl) rfl t.watches

/-- Calling a debug session off does not concern the tenure. -/
theorem callOff (t : Tenure o) (p : Nat) : Tenure (o.cancel (.debug p)) :=
  t.of_eq rfl rfl (by simp [Outline.cancel]) rfl t.watches

/-- A new watch is over the exit of the present generation's process. -/
theorem watchExit (t : Tenure o) {g : Nat} (hg : g ≤ o.generation) (p : Nat)
    (q : ServerProcess) : Tenure (o.watchExit g p q) := by
  unfold Outline.watchExit
  split
  · exact t
  · refine t.of_eq rfl rfl (fun _ => Iff.rfl) rfl fun {j x} hx => ?_
    rcases getElem?_append_cases hx with hx | ⟨-, rfl⟩
    · exact t.watches hx
    · exact ⟨hg, fun _ h => nomatch h⟩

end Tenure

/-! ## Every rule keeps the tenure -/

/-- A role that changes by itself keeps its claim or gives up one that is over. -/
theorem Turn.tenure {o : Outline} {i : Nat} {r s : Role} (h : Turn o r s) (t : Tenure o)
    (hr : o.roles[i]? = some r) (hd : o.Upheld) : Tenure (o.setRole i s) := by
  cases h with
  | giveUp hs hq h =>
    refine t.giveUp hr fun g hg => ?_
    subst hg
    obtain ⟨hpurpose, hoff⟩ := hd hr hq
    rw [hpurpose] at h
    exact h.elim hoff id
  | quit h => exact t.quit hr rfl h
  | _ => exact t.setRole hr (by simp) rfl

/-- Giving a process up keeps a claim, or gives up one that is over. -/
theorem Drop.tenure {o : Outline} {i p : Nat} {r s : Role} (h : Drop o r p s) (t : Tenure o)
    (hr : o.roles[i]? = some r) : Tenure ((o.dispose p).setRole i s) := by
  obtain ⟨processes, consoles, hp⟩ := o.dispose_eq p
  have t' := t.dispose p
  have hr' : (o.dispose p).roles[i]? = some r := by rwa [hp]
  cases h with
  | unadopted h => exact t'.quit hr' rfl (by rwa [hp])
  | _ => exact t'.setRole hr' (by simp) rfl

/-- Every rule keeps the tenure. -/
theorem Rule.tenure {a : Actor} {o o' : Outline} (h : Rule a o o') (t : Tenure o)
    (hd : o.Upheld) : Tenure o' := by
  cases h with
  | ask => exact t.ask
  | turn hr h => exact h.tenure t hr hd
  | drop hr h => exact h.tenure t hr
  | claimStop hr h h' => exact t.claimStop hr h'
  | endStop hr =>
    have hs : o.status = .stopping := t.admits hr rfl
    rw [show o.transition o.generation [.stopping] .notStarted = { o with status := .notStarted }
      from if_pos ⟨rfl, by simp [hs]⟩]
    exact t.endStop hr rfl
  | claimStart hr h => exact t.claimStart hr h
  | @adopt _ i g p q hr hq h =>
    have t' := (t.of_furniture { o.session with process := some ⟨g, p⟩ } o.processes o.consoles
      o.stops).watchExit (t.admits hr rfl).1 p q
    have hr' : ({ o with session := { o.session with process := some ⟨g, p⟩ } }.watchExit g p
        q).roles[i]? = some (.bringing (.main g) p .fresh) := by
      rwa [Outline.watchExit_roles]
    exact t'.setRole hr' (by simp) rfl
  | conclude hr h v =>
    obtain ⟨rfl, hs⟩ := (t.admits hr rfl).2 h
    rw [Outline.transition, if_pos ⟨rfl, by simp [hs]⟩]
    have t' := t.of_furniture { o.session with version := some ⟨o.generation, v⟩ } o.processes
      o.consoles o.stops
    exact t'.endStart hr rfl hs (.inl rfl)
  | @endFailed _ i g hr =>
    by_cases hg : o.generation = g ∧ o.status = .starting
    · obtain ⟨rfl, hs⟩ := hg
      rw [Outline.transition, if_pos ⟨rfl, by simp [hs]⟩]
      exact t.endStart hr rfl hs (.inr rfl)
    · rw [Outline.transition, if_neg (by simpa using hg)]
      refine t.resign hr (by simp) rfl fun c hc hclaim => ?_
      cases hc
      exact hg (Outline.claim?_eq_start hclaim)
  | dismiss hr hq h =>
    exact (t.of_furniture _ _ _ _).giveUp hr fun g hg => (hd (hg ▸ hr) hq).2 h
  | callOff p => exact t.callOff p
  | endDebug h => exact (t.dispose _).of_furniture _ _ _ _
  | fall hx hv hq he hr hg hs =>
    exact (t.moveLive hs (.inr (.inr rfl))).setVigil hx fun _ _ => .inr ⟨hg.symm, .inl rfl⟩
  | ignore hx hv hq he h => exact t.setVigil hx fun _ h => nomatch h
  | passWatch hx hv h => exact t.setVigil hx fun _ _ => (t.watches hx).2 _ hv
  | seize hx hv h =>
    exact (t.of_furniture _ _ _ _).setVigil hx fun _ _ => (t.watches hx).2 _ hv
  | dropWatch hx hv =>
    refine (t.dispose _).setVigil (by rwa [Outline.dispose_lookouts]) fun _ _ => ?_
    obtain ⟨processes, consoles, hp⟩ := o.dispose_eq _
    rw [hp]
    exact (t.watches hx).2 _ hv
  | endWatch hx hv => exact t.setVigil hx fun _ h => nomatch h
  | busy h => exact t.moveLive (by rw [h]; rfl) (.inr (.inl rfl))
  | idle h => exact t.moveLive (by rw [h]; rfl) (.inl rfl)
  | choose => exact t.of_furniture _ _ _ _
  | write c h => exact t.of_furniture _ _ _ _
  | answer hk h => exact t.of_furniture _ _ _ _
  | ending hk h => exact t.of_furniture _ _ _ _
  | passOn hk hq he hw hp => exact t.of_furniture _ _ _ _
  | install hr =>
    split <;> exact (t.of_furniture _ _ _ _).setRole hr (by simp) rfl
  | withdraw hr =>
    split <;> exact (t.of_furniture _ _ _ _).setRole hr (by simp) rfl
  | empty hr | clear hr h | retract hr h | createMain hr hq | createDebug hr hq | note hr h d
  | connect hr | keep hr h | launch hr hq h | hold hr hq h hk ha =>
    exact (t.of_furniture _ _ _ _).setRole hr (by simp) rfl

/-! ## Generations that are over -/

/-- Whether a generation is over depends on the status. -/
theorem Outline.Spent.of_eq {o o' : Outline} {g : Nat} (h : o.Spent g)
    (hs : o'.status = o.status) (hg : o'.generation = o.generation) : o'.Spent g := by
  rw [Outline.Spent, hs, hg]
  exact h

/-- A generation that is over is an earlier one while a start or a live session has the
status. -/
theorem Outline.Spent.lt {o : Outline} {g : Nat} (h : o.Spent g)
    (hs : o.status = .starting ∨ o.status.isLive = true) : g < o.generation := by
  rcases h with h | ⟨-, h | h | h⟩
  · exact h
  all_goals
    rw [h] at hs
    rcases hs with hs | hs <;> cases hs

/-- A generation that is over stays over. -/
theorem Rule.spent {a : Actor} {o o' : Outline} (h : Rule a o o') (t : Tenure o) {g : Nat}
    (hg : o.Spent g) : o'.Spent g := by
  have hle : g ≤ o.generation := hg.elim Nat.le_of_lt fun h => Nat.le_of_eq h.1
  cases h with
  | claimStop hr h h' =>
    exact (Nat.lt_or_eq_of_le hle).imp id fun h => ⟨h, .inr (.inl rfl)⟩
  | claimStart hr h => exact .inl (Nat.lt_succ_of_le hle)
  | endStop hr =>
    rw [Outline.transition]
    split
    · exact (Nat.lt_or_eq_of_le hle).imp id fun h => ⟨h, .inr (.inr rfl)⟩
    · exact hg.of_eq rfl rfl
  | conclude hr h v =>
    obtain ⟨rfl, hs⟩ := (t.admits hr rfl).2 h
    rw [Outline.transition, if_pos ⟨rfl, by simp [hs]⟩]
    exact .inl (hg.lt (.inl hs))
  | endFailed hr =>
    rw [Outline.transition]
    split
    · exact (Nat.lt_or_eq_of_le hle).imp id fun h => ⟨h, .inl rfl⟩
    · exact hg.of_eq rfl rfl
  | fall hx hv hq he hr hg' hs => exact .inl (hg.lt (.inr hs))
  | busy h => exact .inl (hg.lt (.inr (by rw [h]; rfl)))
  | idle h => exact .inl (hg.lt (.inr (by rw [h]; rfl)))
  | drop hr h =>
    obtain ⟨_, _, hd⟩ := o.dispose_eq _
    rw [hd]
    exact hg.of_eq rfl rfl
  | endDebug h =>
    obtain ⟨_, _, hd⟩ := o.dispose_eq _
    rw [hd]
    exact hg.of_eq rfl rfl
  | dropWatch hx hv =>
    obtain ⟨_, _, hd⟩ := o.dispose_eq _
    rw [hd]
    exact hg.of_eq rfl rfl
  | adopt hr hq h =>
    rw [Outline.watchExit]
    split <;> exact hg.of_eq rfl rfl
  | withdraw hr => split <;> exact hg.of_eq rfl rfl
  | _ => exact hg.of_eq rfl rfl

end SessionHost
