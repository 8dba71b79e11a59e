import SessionHost.Proofs.Lifecycle.Tenure

/-!
# The slots of the session

What the session holds of a running server follows from the status and from the role of the call
that has the claim to it: nothing before a start has stored anything, everything once the
session is live, and nothing again when a stop or a failure has come to its end.

Main definitions:

- `Session.Vacant`, `Session.Complete`: nothing, or everything, of a running server.
- `Role.Fits`: what the session holds while a call plays a role.
- `Slots`: the slots at every status.

Main results:

- Theorem `Rule.slots`: every rule keeps the slots.
-/

namespace SessionHost

/-- Nothing of a running server is in the session. -/
def Session.Vacant (s : Session) : Prop :=
  s.process = none ∧ s.client = none ∧ s.details = none ∧ s.version = none

/-- Everything of a running server is in the session, and one generation has stored it. -/
def Session.Complete (s : Session) (generation : Nat) : Prop :=
  ∃ p c d v, s.process = some ⟨generation, p⟩ ∧ s.client = some ⟨generation, c⟩ ∧
    s.details = some ⟨generation, d⟩ ∧ s.version = some ⟨generation, v⟩

/-- What the session holds after the last thing that a start has stored. -/
def Milestone.Fits (generation : Nat) (s : Session) : Milestone → Prop
  | .nothing => s.Vacant
  | .process => (∃ p, s.process = some ⟨generation, p⟩) ∧ s.client = none
  | .details =>
    (∃ p d, s.process = some ⟨generation, p⟩ ∧ s.details = some ⟨generation, d⟩) ∧
      s.client = none
  | .opening _ =>
    (∃ p d, s.process = some ⟨generation, p⟩ ∧ s.details = some ⟨generation, d⟩) ∧
      s.client = none
  | .client =>
    ∃ p c d, s.process = some ⟨generation, p⟩ ∧ s.client = some ⟨generation, c⟩ ∧
      s.details = some ⟨generation, d⟩

/-- What the session holds while a start brings its process up. -/
def Upbringing.Fits (generation process : Nat) (s : Session) : Upbringing → Prop
  | .fresh => s.Vacant
  | _ => s.process = some ⟨generation, process⟩ ∧ s.client = none

/-- What the session holds while the call with the claim to the status plays a role. -/
def Role.Fits (s : Session) : Role → Prop
  | .emptying _ _ => s.Vacant
  | .clearing _ (.holding _) => s.Vacant
  | .failing _ (.holding _) => s.Vacant
  | .starting g m => m.Fits g s
  | .bringing (.main g) p x => x.Fits g p s
  | _ => True

/-- A role asks for nothing but the parts of a running server. -/
theorem Role.Fits.of_eq {s s' : Session} {r : Role} (h : r.Fits s)
    (hp : s'.process = s.process) (hc : s'.client = s.client) (hd : s'.details = s.details)
    (hv : s'.version = s.version) : r.Fits s' := by
  unfold Role.Fits Milestone.Fits Upbringing.Fits Session.Vacant at *
  rw [hp, hc, hd, hv]
  exact h

/-- A stop asks for nothing but an empty session. -/
theorem Role.Fits.of_stop {s : Session} {r : Role} (hr : r.claim? = some .stop)
    (h : s.Vacant) : r.Fits s := by
  cases r with
  | stopping => trivial
  | emptying p d => exact h
  | bringing u p x => cases u <;> cases hr
  | _ => cases hr

theorem Session.withoutLive_vacant (s : Session) : s.withoutLive.Vacant :=
  ⟨rfl, rfl, rfl, rfl⟩

/-- The slots of the session at every status. -/
structure Slots (o : Outline) : Prop where
  idle : o.status = .notStarted → o.session.Vacant
  fits : ∀ {i : Nat} {r : Role} {c : Claim}, o.roles[i]? = some r → r.claim? = some c →
    o.claim? = some c → r.Fits o.session
  live : o.status.isLive = true → o.session.Complete o.generation
  /-- A session that has failed is empty, or its watch is about to empty it. -/
  failed : o.status = .failed → o.session.Vacant ∨
    ∃ (j : Nat) (x : Lookout), o.lookouts[j]? = some x ∧
      x.generation = o.generation ∧ x.vigil = .releasing .reaching

namespace Slots

variable {o o' : Outline} {i : Nat} {r s : Role}

/-! ## What does not concern the slots -/

/-- The slots depend on the status, the parts of a running server, roles and watches. -/
theorem of_eq (l : Slots o) (hs : o'.status = o.status) (hg : o'.generation = o.generation)
    (hp : o'.session.process = o.session.process) (hc : o'.session.client = o.session.client)
    (hd : o'.session.details = o.session.details)
    (hv : o'.session.version = o.session.version) (hr : o'.roles = o.roles)
    (hl : ∀ {j : Nat} {x : Lookout}, o.lookouts[j]? = some x → o'.lookouts[j]? = some x) :
    Slots o' where
  idle h := by
    simpa only [Session.Vacant, hp, hc, hd, hv] using l.idle (hs ▸ h)
  fits {j u c} hj hu h := by
    have hclaim : o.claim? = some c := by simpa only [Outline.claim?, hs, hg] using h
    exact (l.fits (hr ▸ hj) hu hclaim).of_eq hp hc hd hv
  live h := by
    simpa only [Session.Complete, hp, hc, hd, hv, hg] using l.live (hs ▸ h)
  failed h := by
    rcases l.failed (hs ▸ h) with h | ⟨j, x, hx, hxg, hxv⟩
    · exact .inl (by simpa only [Session.Vacant, hp, hc, hd, hv] using h)
    · exact .inr ⟨j, x, hl hx, by rw [hxg, hg], hxv⟩

/-- A change of processes, consoles and clients does not concern the slots. -/
theorem of_furniture (l : Slots o) (processes : List ServerProcess) (consoles : List Console)
    (stops : List Nat) :
    Slots { o with processes := processes, consoles := consoles, stops := stops } :=
  l.of_eq rfl rfl rfl rfl rfl rfl rfl id

theorem dispose (l : Slots o) (p : Nat) : Slots (o.dispose p) := by
  obtain ⟨processes, consoles, h⟩ := o.dispose_eq p
  rw [h]
  exact l.of_furniture processes consoles o.stops

theorem cancel (l : Slots o) (token : Token) : Slots (o.cancel token) :=
  l.of_eq rfl rfl rfl rfl rfl rfl rfl id

theorem setDebug (l : Slots o) (debug : Option Nat) :
    Slots { o with session := { o.session with debug := debug } } :=
  l.of_eq rfl rfl rfl rfl rfl rfl rfl id

theorem watchExit (l : Slots o) (g p : Nat) (q : ServerProcess) :
    Slots (o.watchExit g p q) := by
  unfold Outline.watchExit
  split
  · exact l
  · exact l.of_eq rfl rfl rfl rfl rfl rfl rfl fun h => getElem?_append_of_some h _

/-- A call may play another role that fits the session as it is. -/
theorem setRole (l : Slots o)
    (h : ∀ c, s.claim? = some c → o.claim? = some c → s.Fits o.session) :
    Slots (o.setRole i s) where
  idle := l.idle
  fits {j u c} hj hu hclaim := by
    rcases getElem?_set_cases hj with ⟨-, rfl⟩ | ⟨-, hj⟩
    · exact h c hu hclaim
    · exact l.fits hj hu hclaim
  live := l.live
  failed := l.failed

/-- A call without a claim may play any role. -/
theorem setRole_of_none (l : Slots o) (h : s.claim? = none) : Slots (o.setRole i s) := by
  refine l.setRole fun c hc => ?_
  rw [h] at hc
  cases hc

/-- A watch that is not about to empty the session may come to another stage. -/
theorem setVigil (l : Slots o) {j : Nat} {x : Lookout} {v : Vigil} (hx : o.lookouts[j]? = some x)
    (h : ¬(x.generation = o.generation ∧ x.vigil = .releasing .reaching)) :
    Slots (o.setVigil j x v) where
  idle := l.idle
  fits := l.fits
  live := l.live
  failed hs := by
    rcases l.failed hs with hv | hex
    · exact .inl hv
    · exact .inr (exists_getElem?_set hx hex fun hP => absurd hP h)

/-! ## Moves of the status -/

/-- An empty session that is not live. -/
theorem of_vacant (hv : o.session.Vacant) (hlive : o.status.isLive = false)
    (hfits : ∀ {j : Nat} {u : Role} {c : Claim}, o.roles[j]? = some u → u.claim? = some c →
      o.claim? = some c → u.Fits o.session) : Slots o where
  idle _ := hv
  fits := hfits
  live h := by
    rw [hlive] at h
    cases h
  failed _ := .inl hv

/-- An empty session with no transition under way. -/
theorem of_settled (hv : o.session.Vacant) (hlive : o.status.isLive = false)
    (h : o.claim? = none) : Slots o := by
  refine of_vacant hv hlive fun _ _ hc => ?_
  rw [h] at hc
  cases hc

/-- A session that is being stopped. -/
theorem of_stopping (hs : o.status = .stopping)
    (hfits : ∀ {j : Nat} {u : Role}, o.roles[j]? = some u → u.claim? = some .stop →
      u.Fits o.session) : Slots o where
  idle h := by
    rw [hs] at h
    cases h
  fits hj hu hc := by
    rw [Outline.claim?_of_stopping hs, Option.some.injEq] at hc
    subst hc
    exact hfits hj hu
  live h := by
    rw [hs] at h
    cases h
  failed h := by
    rw [hs] at h
    cases h

/-- A session that has failed. -/
theorem of_failed (hs : o.status = .failed)
    (h : ∃ (j : Nat) (x : Lookout), o.lookouts[j]? = some x ∧ x.generation = o.generation ∧
      x.vigil = .releasing .reaching) : Slots o where
  idle h := by
    rw [hs] at h
    cases h
  fits _ _ hc := by
    rw [Outline.claim?, hs] at hc
    cases hc
  live h := by
    rw [hs] at h
    cases h
  failed _ := .inr h

/-- While the status speaks of a start, its role alone says what the session holds. -/
theorem of_starting (h : o.status = .starting)
    (hfits : ∀ {j : Nat} {u : Role}, o.roles[j]? = some u →
      u.claim? = some (.start o.generation) → u.Fits o.session) : Slots o where
  idle h' := by
    rw [h] at h'
    cases h'
  fits {j u c} hj hu hc := by
    rw [Outline.claim?, h] at hc
    cases hc
    exact hfits hj hu
  live h' := by
    rw [h] at h'
    cases h'
  failed h' := by
    rw [h] at h'
    cases h'

/-- A live session holds everything. -/
theorem of_live (h : o.status.isLive = true) (hc : o.session.Complete o.generation) :
    Slots o where
  idle h' := by
    rw [h'] at h
    cases h
  fits {j u c} hj hu hclaim := by
    unfold Outline.claim? at hclaim
    split at hclaim <;> rename_i hs
    · rw [hs] at h
      cases h
    · rw [hs] at h
      cases h
    · cases hclaim
  live _ := hc
  failed h' := by
    rw [h'] at h
    cases h

/-- A start that has not been called off stores something. -/
theorem store (t : Tenure o) {g : Nat} (hr : o.roles[i]? = some r)
    (hclaim : r.claim? = some (.start g)) (h : .start g ∉ o.cancelled) {session : Session}
    (hs : s.Fits session) : Slots ({ o with session := session }.setRole i s) := by
  obtain ⟨rfl, hstarting⟩ := (t.admits hr hclaim).2 h
  refine of_starting hstarting fun {j u} hj hu => ?_
  rcases getElem?_set_cases hj with ⟨-, rfl⟩ | ⟨hji, hj⟩
  · exact hs
  · exact absurd (t.alone hj hr hu hclaim) hji

/-- A start empties the session of its own generation. -/
theorem vacate (t : Tenure o) (hr : o.roles[i]? = some r)
    (hclaim : r.claim? = some (.start o.generation)) (hs : s.Fits o.session.withoutLive) :
    Slots (o.takeLive.setRole i s) := by
  have hlive : o.status.isLive = false := t.isLive_eq_false hr hclaim
  refine of_vacant o.session.withoutLive_vacant hlive fun {j u c} hj hu hc => ?_
  rcases getElem?_set_cases hj with ⟨-, rfl⟩ | ⟨hji, hj⟩
  · exact hs
  · cases c with
    | start g =>
      obtain ⟨rfl, -⟩ := Outline.claim?_eq_start (o := o) hc
      exact absurd (t.alone hj hr hu hclaim) hji
    | stop => exact .of_stop hu o.session.withoutLive_vacant

end Slots

/-! ## Every rule keeps the slots -/

/-- A role that changes by itself asks for no more than before. -/
theorem Turn.fits {o : Outline} {r s : Role} (h : Turn o r s) {c : Claim}
    (hs : s.claim? = some c) (hr : r.claim? = some c → r.Fits o.session)
    (hg : o.claim? = some c) : s.Fits o.session := by
  cases h with
  | passClearing h | passFailing h =>
    cases hs
    exact absurd (Outline.claim?_eq_start hg).1 h
  | refused hk h =>
    rename_i u p k e c
    cases u with
    | main g => exact hr hs
    | debug => cases hs
    | lone => cases hs
  | landed =>
    obtain ⟨hp, hc⟩ := hr hs
    exact ⟨⟨_, hp⟩, hc⟩
  | cleared => exact hr hs
  | fail h => trivial
  | giveUp | quit | debugStarted => cases hs

/-- Giving a process up asks for no more than before. -/
theorem Drop.fits {o : Outline} {p : Nat} {r s : Role} (h : Drop o r p s) {c : Claim}
    (hs : s.claim? = some c) (hr : r.claim? = some c → r.Fits o.session) :
    s.Fits o.session := by
  cases h with
  | emptyingDebug | emptying | clearing | failing => exact hr hs
  | unadopted | replaced | debugFailed => cases hs

/-- Every rule keeps the slots. -/
theorem Rule.slots {a : Actor} {o o' : Outline} (h : Rule a o o') (t : Tenure o)
    (l : Slots o) : Slots o' := by
  cases h with
  | ask =>
    refine ⟨l.idle, fun {j u c} hj hu hc => ?_, l.live, l.failed⟩
    rcases getElem?_append_cases hj with hj | ⟨-, rfl⟩
    · exact l.fits hj hu hc
    · cases hu
  | turn hr h => exact l.setRole fun c hs hc => h.fits hs (fun hrc => l.fits hr hrc hc) hc
  | @drop _ i p r s hr h =>
    have l' : Slots (o.setRole i s) :=
      l.setRole fun c hs hc => h.fits hs fun hrc => l.fits hr hrc hc
    simpa using l'.dispose p
  | claimStop hr h h' =>
    refine .of_stopping rfl fun {j u} hj hu => ?_
    rcases getElem?_set_cases hj with ⟨-, rfl⟩ | ⟨-, hj⟩
    · trivial
    · exact absurd (t.admits hj hu) h'
  | empty hr =>
    have hs : o.status = .stopping := t.admits hr rfl
    have hlive : o.status.isLive = false := by rw [hs]; rfl
    refine .of_vacant ⟨rfl, rfl, rfl, rfl⟩ hlive fun {j u c} hj hu hc => ?_
    rcases getElem?_set_cases hj with ⟨-, rfl⟩ | ⟨hji, hj⟩
    · exact ⟨rfl, rfl, rfl, rfl⟩
    · have hc : o.claim? = some c := hc
      rw [Outline.claim?, hs] at hc
      cases hc
      exact absurd (t.alone hj hr hu rfl) hji
  | endStop hr =>
    have hs : o.status = .stopping := t.admits hr rfl
    rw [show o.transition o.generation [.stopping] .notStarted = { o with status := .notStarted }
      from if_pos ⟨rfl, by simp [hs]⟩]
    have hv : o.session.Vacant := l.fits hr rfl (Outline.claim?_of_stopping hs)
    exact .of_settled hv rfl rfl
  | claimStart hr h =>
    refine .of_starting rfl fun {j u} hj hu => ?_
    rcases getElem?_set_cases hj with ⟨-, rfl⟩ | ⟨-, hj⟩
    · trivial
    · have hle := (t.admits hj hu).1
      exact absurd hle (Nat.not_succ_le_self _)
  | clear hr h =>
    subst h
    exact Slots.vacate t hr rfl o.session.withoutLive_vacant
  | retract hr h =>
    subst h
    exact Slots.vacate t hr rfl o.session.withoutLive_vacant
  | @adopt _ i g p q hr hq h =>
    obtain ⟨rfl, hs⟩ := (t.admits hr rfl).2 h
    have hv : o.session.Vacant := l.fits hr rfl (Outline.claim?_of_starting hs)
    have l' : Slots ({ o with session := { o.session with process := some ⟨o.generation, p⟩ }
        }.setRole i (.bringing (.main o.generation) p .installed)) :=
      Slots.store t hr rfl h ⟨rfl, hv.2.1⟩
    simpa using l'.watchExit o.generation p q
  | note hr h d =>
    obtain ⟨rfl, hs⟩ := (t.admits hr rfl).2 h
    obtain ⟨⟨p, hp⟩, hc⟩ := l.fits hr rfl (Outline.claim?_of_starting hs)
    exact Slots.store t hr rfl h ⟨⟨p, d, hp, rfl⟩, hc⟩
  | keep hr h =>
    obtain ⟨rfl, hs⟩ := (t.admits hr rfl).2 h
    obtain ⟨⟨p, d, hp, hd⟩, -⟩ := l.fits hr rfl (Outline.claim?_of_starting hs)
    exact Slots.store t hr rfl h ⟨p, _, d, hp, rfl, hd⟩
  | conclude hr h v =>
    obtain ⟨rfl, hs⟩ := (t.admits hr rfl).2 h
    obtain ⟨p, c, d, hp, hc, hd⟩ := l.fits hr rfl (Outline.claim?_of_starting hs)
    rw [Outline.transition, if_pos ⟨rfl, by simp [hs]⟩]
    exact .of_live rfl ⟨p, c, d, v, hp, hc, hd, rfl⟩
  | @endFailed _ i g hr =>
    by_cases hg : o.generation = g ∧ o.status = .starting
    · obtain ⟨rfl, hs⟩ := hg
      have hv : o.session.Vacant := l.fits hr rfl (Outline.claim?_of_starting hs)
      rw [Outline.transition, if_pos ⟨rfl, by simp [hs]⟩]
      exact .of_settled hv rfl rfl
    · rw [Outline.transition, if_neg (by simpa using hg)]
      exact l.setRole_of_none rfl
  | createMain hr hq | connect hr =>
    refine (l.of_furniture _ _ _).setRole fun c hs hc => ?_
    have hfits := l.fits hr hs hc
    exact hfits
  | @launch _ i p u q hr hq h =>
    refine (l.of_furniture _ _ _).setRole fun c hs hc => ?_
    have hfits := l.fits hr hs hc
    cases u with
    | main g => exact hfits
    | debug | lone => cases hs
  | @hold _ i p c u q k n hr hq h hk ha =>
    refine (l.of_furniture _ _ _).setRole fun c hs hc => ?_
    have hfits := l.fits hr hs hc
    cases u with
    | main g => exact hfits
    | debug | lone => cases hs
  | dismiss hr hq h => exact (l.of_furniture _ _ _).setRole_of_none rfl
  | createDebug hr hq => exact (l.of_furniture _ _ _).setRole_of_none rfl
  | @install _ i p hr =>
    have l' := l.setDebug (some p)
    split <;> exact l'.setRole_of_none rfl
  | withdraw hr =>
    split
    · exact (l.setDebug none).setRole_of_none rfl
    · exact l.setRole_of_none rfl
  | endDebug h => exact (l.dispose _).setDebug none
  | callOff p => exact l.cancel _
  | choose exe => exact l.of_eq rfl rfl rfl rfl rfl rfl rfl id
  | fall hx hv hq he hr hg hs =>
    exact .of_failed rfl ⟨_, _, getElem?_set_at hx _, hg.symm, rfl⟩
  | ignore hx hv hq he h => exact l.setVigil hx fun h => by simp [hv] at h
  | passWatch hx hv h => exact l.setVigil hx fun h' => h h'.1.symm
  | seize hx hv h =>
    refine .of_vacant ⟨rfl, rfl, rfl, rfl⟩ ?_ fun {j u c} hj hu hc => ?_
    · exact (t.watches hx).isLive_eq_false hv h
    · cases c with
      | start g => exact absurd hc ((t.watches hx).claim?_ne_start hv h g)
      | stop => exact .of_stop hu o.session.withoutLive_vacant
  | dropWatch hx hv =>
    refine (l.dispose _).setVigil (by rwa [Outline.dispose_lookouts]) fun h => ?_
    simp [hv] at h
  | endWatch hx hv => exact l.setVigil hx fun h => by simp [hv] at h
  | busy h => exact .of_live rfl (l.live (by rw [h]; rfl))
  | idle h => exact .of_live rfl (l.live (by rw [h]; rfl))
  | write c h => exact l.of_furniture _ _ _
  | answer hk h => exact l.of_furniture _ _ _
  | ending hk h => exact l.of_furniture _ _ _
  | passOn hk hq he hw hp => exact l.of_furniture _ _ _

end SessionHost
