import SessionHost.Proofs.Lifecycle.Sound

/-!
# What a lost session leaves behind

A session that has lost its console stands until somebody clears it away: its watch, or the next
start.  The process that is found then knows of its exit already.  The clearing is therefore never
in the way of another server.

Main definitions:

- `Outline.KnowsExit`: a process that knows of its exit.
- `Outline.Lost`: a session that is to be cleared away.
- `Outline.Salvaged`: a process that was found in such a session.
- `Wrecks`: what is found there knows of its exit.

Main results:

- Theorem `Rule.wrecks`: every rule keeps the wrecks.
- Theorem `World.Life.wrecks`: what a lost session leaves behind knows of its exit.
-/

namespace SessionHost

namespace Outline

/-- The process knows of its exit. -/
def KnowsExit (o : Outline) (p : Nat) : Prop :=
  ∃ (q : ServerProcess) (e : ConsoleExit), o.processes[p]? = some q ∧ q.exit = some e

/-- A process does not forget its exit. -/
theorem KnowsExit.lasts {o o' : Outline} {p : Nat} (h : o.KnowsExit p) (hl : o.Lasts o') :
    o'.KnowsExit p := by
  obtain ⟨q, e, hq, he⟩ := h
  obtain ⟨q', hq', -, hexit⟩ := hl p q hq
  exact ⟨q', e, hq', hexit e he⟩

/-- The session has lost its console, and what it holds is to be cleared away. -/
inductive Lost (o : Outline) : Prop where
  | failed (h : o.status = .failed)
  | start {i : Nat} (h : o.roles[i]? = some (.clearing o.generation .reaching))
  | watch {j : Nat} {x : Lookout} (hx : o.lookouts[j]? = some x)
      (hv : x.vigil = .releasing .reaching) (hg : x.generation = o.generation)

/-- The process was found in a lost session, and is about to be disposed of. -/
inductive Salvaged (o : Outline) (p : Nat) : Prop where
  | start {i g : Nat} (h : o.roles[i]? = some (.clearing g (.holding (some p))))
  | watch {j : Nat} {x : Lookout} (hx : o.lookouts[j]? = some x) (h : x.Drops p)

end Outline

/-- What a lost session leaves behind knows of its exit. -/
structure Wrecks (o : Outline) : Prop where
  seated : ∀ {g p : Nat}, o.Lost → o.session.process = some ⟨g, p⟩ → o.KnowsExit p
  salvaged : ∀ {p : Nat}, o.Salvaged p → o.KnowsExit p

/-- The call is about to clear something away. -/
def Role.clears : Role → Bool
  | .clearing _ .reaching => true
  | .clearing _ (.holding (some _)) => true
  | _ => false

/-- The watch is about to clear something away. -/
def Vigil.clears : Vigil → Bool
  | .releasing .reaching => true
  | .releasing (.holding (some _)) => true
  | _ => false

theorem Turn.clears_eq {o : Outline} {r s : Role} (h : Turn o r s) : s.clears = false := by
  cases h <;> rfl

theorem Drop.clears_eq {o : Outline} {p : Nat} {r s : Role} (h : Drop o r p s) :
    s.clears = false := by
  cases h <;> rfl

namespace Wrecks

variable {o o' : Outline}

/-- Nothing has been lost when no status fails and nobody begins to clear anything away. -/
theorem lost_of_move (hs : o'.status = .failed → o.status = .failed)
    (hg : o'.generation = o.generation)
    (hr : ∀ {i : Nat} {r : Role}, o'.roles[i]? = some r → r.clears = true → o.roles[i]? = some r)
    (hl : ∀ {j : Nat} {x : Lookout}, o'.lookouts[j]? = some x → x.vigil.clears = true →
      o.lookouts[j]? = some x) (h : o'.Lost) : o.Lost := by
  cases h with
  | failed h => exact .failed (hs h)
  | start h => exact .start (hg ▸ hr h rfl)
  | watch hx hv hxg => exact .watch (hl hx (by rw [hv]; rfl)) hv (hxg.trans hg)

/-- When nobody begins to clear anything away, only the session itself has to be looked at. -/
theorem of_seated (k : Wrecks o) (hlasts : o.Lasts o')
    (hr : ∀ {i : Nat} {r : Role}, o'.roles[i]? = some r → r.clears = true → o.roles[i]? = some r)
    (hl : ∀ {j : Nat} {x : Lookout}, o'.lookouts[j]? = some x → x.vigil.clears = true →
      o.lookouts[j]? = some x)
    (hseated : ∀ {g p : Nat}, o'.Lost → o'.session.process = some ⟨g, p⟩ → o.KnowsExit p) :
    Wrecks o' where
  seated hlost hp := (hseated hlost hp).lasts hlasts
  salvaged h := by
    refine (k.salvaged ?_).lasts hlasts
    cases h with
    | start h => exact .start (hr h rfl)
    | watch hx h => exact .watch (hl hx (by rw [h]; rfl)) h

/-- The wrecks do not change when no status fails, nobody begins to clear anything away, and no
process comes into the session. -/
theorem move (k : Wrecks o) (hlasts : o.Lasts o') (hs : o'.status = .failed → o.status = .failed)
    (hg : o'.generation = o.generation)
    (hp : ∀ {g p : Nat}, o'.session.process = some ⟨g, p⟩ → o.session.process = some ⟨g, p⟩)
    (hr : ∀ {i : Nat} {r : Role}, o'.roles[i]? = some r → r.clears = true → o.roles[i]? = some r)
    (hl : ∀ {j : Nat} {x : Lookout}, o'.lookouts[j]? = some x → x.vigil.clears = true →
      o.lookouts[j]? = some x) : Wrecks o' :=
  k.of_seated hlasts hr hl fun hlost hprocess =>
    k.seated (lost_of_move hs hg hr hl hlost) (hp hprocess)

/-- A call that is not about to clear anything away stood where it stands. -/
theorem role_of_set {i j : Nat} {r s : Role} (hroles : o'.roles = o.roles.set i s)
    (hs : s.clears = false) (hj : o'.roles[j]? = some r) (hr : r.clears = true) :
    o.roles[j]? = some r := by
  rw [hroles] at hj
  refine getElem?_of_set_ne hj fun h => ?_
  rw [h, hs] at hr
  cases hr

/-- A watch comes to another stage, at which it clears nothing away. -/
theorem watch (k : Wrecks o) {j : Nat} {x : Lookout} {v : Vigil} (hlasts : o.Lasts o')
    (hs : o'.status = o.status) (hg : o'.generation = o.generation)
    (hp : o'.session = o.session) (hr : o'.roles = o.roles)
    (hl : o'.lookouts = o.lookouts.set j { x with vigil := v }) (hv : v.clears = false) :
    Wrecks o' := by
  refine k.move hlasts (fun h => hs ▸ h) hg (fun h => hp ▸ h) (fun hj _ => hr ▸ hj)
    fun hj hclears => ?_
  rw [hl] at hj
  refine getElem?_of_set_ne hj fun h => ?_
  rw [h, hv] at hclears
  cases hclears

/-- A new watch is not about to clear anything away. -/
theorem lookout_of_append {j p g : Nat} {x : Lookout} {l : List Lookout}
    (hj : (l ++ [⟨p, g, .waiting⟩])[j]? = some x) (hx : x.vigil.clears = true) :
    l[j]? = some x := by
  rcases getElem?_append_cases hj with hj | ⟨-, rfl⟩
  · exact hj
  · cases hx

/-- A call plays another role, in which it clears nothing away. -/
theorem play (k : Wrecks o) {i : Nat} {s : Role} (hlasts : o.Lasts o')
    (hs : o'.status = .failed → o.status = .failed) (hg : o'.generation = o.generation)
    (hp : ∀ {g p : Nat}, o'.session.process = some ⟨g, p⟩ → o.session.process = some ⟨g, p⟩)
    (hroles : o'.roles = o.roles.set i s) (hc : s.clears = false)
    (hl : o'.lookouts = o.lookouts) : Wrecks o' :=
  k.move hlasts hs hg hp (role_of_set hroles hc) fun hj _ => hl ▸ hj

/-- A start fills a session that has not been lost. -/
theorem fill (k : Wrecks o) (hnot : ¬o.Lost) {i : Nat} {s : Role} (hlasts : o.Lasts o')
    (hs : o'.status = o.status) (hg : o'.generation = o.generation)
    (hroles : o'.roles = o.roles.set i s) (hc : s.clears = false)
    (hl : ∀ {j : Nat} {x : Lookout}, o'.lookouts[j]? = some x → x.vigil.clears = true →
      o.lookouts[j]? = some x) : Wrecks o' :=
  k.of_seated hlasts (role_of_set hroles hc) hl fun hlost _ =>
    absurd (lost_of_move (fun h => hs ▸ h) hg (role_of_set hroles hc) hl hlost) hnot

/-- The session is emptied, and what was in a lost session is salvaged. -/
theorem take (k : Wrecks o) (hlasts : o.Lasts o') (hp : o'.session.process = none)
    (hsalvaged : ∀ {p : Nat}, o'.Salvaged p →
      o.Salvaged p ∨ o.Lost ∧ o.process? = some p) : Wrecks o' where
  seated _ h := by
    rw [hp] at h
    cases h
  salvaged h := by
    rcases hsalvaged h with h | ⟨hlost, h⟩
    · exact (k.salvaged h).lasts hlasts
    · obtain ⟨⟨g, p⟩, hprocess, rfl⟩ := Option.map_eq_some_iff.1 h
      exact (k.seated hlost hprocess).lasts hlasts

end Wrecks

/-! ## Every rule keeps the wrecks -/

/-- While a start stores its process nothing is lost: no other start has the generation, and no
watch is about to release it. -/
theorem Tenure.not_lost {o : Outline} (t : Tenure o) {i : Nat} {r : Role}
    (hr : o.roles[i]? = some r) (hclaim : r.claim? = some (.start o.generation))
    (hs : o.status = .starting) (hc : r.clears = false) : ¬o.Lost := by
  rintro (h | h | ⟨hx, hv, hg⟩)
  · rw [hs] at h
    cases h
  · obtain rfl := t.alone hr h hclaim rfl
    rw [hr, Option.some.injEq] at h
    rw [h] at hc
    cases hc
  · exact (t.watches hx).claim?_ne_start hv hg.symm _ (Outline.claim?_of_starting hs)

/-- The watch of a live session is over the process in the session. -/
theorem Sound.process_of_watch {o : Outline} (s : Sound o) {j : Nat} {x : Lookout}
    (hx : o.lookouts[j]? = some x) (hg : o.generation = x.generation)
    (hs : o.status.isLive = true) : o.session.process = some ⟨x.generation, x.process⟩ := by
  obtain ⟨p, -, -, -, hprocess, -⟩ := s.slots.live hs
  obtain ⟨q, hq, hstanding⟩ := Outline.exists_of_standing? (s.custody.seated hprocess)
  have hpurpose : q.purpose = .main o.generation := congrArg Standing.purpose hstanding
  have hsame : p = x.process :=
    s.lineage.single (g := o.generation) (by simp [Outline.purposes, hq, hpurpose])
      (hg ▸ s.watched.main (Outline.mem_watches hx))
  rw [hprocess, hsame, hg]

/-- Every rule keeps the wrecks. -/
theorem Rule.wrecks {a : Actor} {o o' : Outline} (h : Rule a o o') (s : Sound o)
    (k : Wrecks o) : Wrecks o' := by
  have hlasts : o.Lasts o' := h.lasts s.exits
  cases h with
  | ask =>
    refine k.move hlasts id rfl id (fun hj hc => ?_) fun hj _ => hj
    rcases getElem?_append_cases hj with hj | ⟨-, rfl⟩
    · exact hj
    · cases hc
  | turn hr h => exact k.play hlasts id rfl id rfl h.clears_eq rfl
  | drop hr h =>
    obtain ⟨_, _, hd⟩ := o.dispose_eq _
    rw [hd] at hlasts ⊢
    exact k.play hlasts id rfl id rfl h.clears_eq rfl
  | claimStop hr h h' => exact k.play hlasts (fun h => by cases h) rfl id rfl rfl rfl
  | empty hr | retract hr h => exact k.play hlasts id rfl (fun h => by cases h) rfl rfl rfl
  | @claimStart _ i hr h =>
    -- What a start finds in the session was left there by a failure.
    have hlost {g p : Nat} (hp : o.session.process = some ⟨g, p⟩) : o.Lost := by
      rcases h with h | h
      · rw [(s.slots.idle h).1] at hp
        cases hp
      · exact .failed h
    refine ⟨fun _ hp => (k.seated (hlost hp) hp).lasts hlasts, fun h => ?_⟩
    refine (k.salvaged ?_).lasts hlasts
    cases h with
    | start h => exact .start (getElem?_of_set_ne h (by simp))
    | watch hx h => exact .watch hx h
  | @clear _ i g hr h =>
    subst h
    refine k.take hlasts rfl fun h => ?_
    cases h with
    | start h =>
      rcases getElem?_set_cases h with ⟨-, h⟩ | ⟨-, h⟩
      · rw [Role.clearing.injEq, Grip.holding.injEq] at h
        exact .inr ⟨.start hr, h.2.symm⟩
      · exact .inl (.start h)
    | watch hx h => exact .inl (.watch hx h)
  | @adopt _ i g p q hr hq h =>
    obtain ⟨rfl, hs⟩ := (s.tenure.admits hr rfl).2 h
    have hnot : ¬o.Lost := s.tenure.not_lost hr rfl hs rfl
    rw [Outline.watchExit] at hlasts ⊢
    split at hlasts
    · rename_i hn
      rw [if_pos hn]
      exact k.fill hnot hlasts rfl rfl rfl rfl fun hj _ => hj
    · rename_i hn
      rw [if_neg hn]
      exact k.fill hnot hlasts rfl rfl rfl rfl Wrecks.lookout_of_append
  | @endFailed _ i g hr =>
    rw [Outline.transition] at hlasts ⊢
    split at hlasts
    · rename_i hc
      rw [if_pos hc]
      obtain ⟨rfl, hs⟩ := hc
      have hv : o.session.Vacant :=
        s.slots.fits hr rfl (Outline.claim?_of_starting (by simpa using hs))
      refine k.of_seated hlasts (Wrecks.role_of_set rfl rfl) (fun hj _ => hj) fun _ hp => ?_
      cases hv.1.symm.trans hp
    · rename_i hc
      rw [if_neg hc]
      exact k.play hlasts id rfl id rfl rfl rfl
  | endStop hr | conclude hr h v =>
    rw [Outline.transition] at hlasts ⊢
    split at hlasts
    · rename_i hc
      rw [if_pos hc]
      exact k.play hlasts (fun h => by cases h) rfl id rfl rfl rfl
    · rename_i hc
      rw [if_neg hc]
      exact k.play hlasts id rfl id rfl rfl rfl
  | @fall _ j x q e hx hv hq he hr hg hs =>
    refine ⟨fun _ hp => ?_, fun h => (k.salvaged ?_).lasts hlasts⟩
    · have hprocess := (s.process_of_watch hx hg hs).symm.trans hp
      rw [Option.some.injEq, Stored.mk.injEq] at hprocess
      exact Outline.KnowsExit.lasts ⟨q, e, hprocess.2 ▸ hq, he⟩ hlasts
    · cases h with
      | start h => exact .start h
      | watch hy h =>
        refine .watch (getElem?_of_set_ne hy ?_) h
        rintro rfl
        cases h
  | @seize _ j x hx hv h =>
    refine k.take hlasts rfl fun h' => ?_
    cases h' with
    | start h => exact .inl (.start h)
    | watch hy h' =>
      rcases getElem?_set_cases hy with ⟨-, rfl⟩ | ⟨-, hy⟩
      · have hprocess : o.process? = some _ := Grip.holding.inj (Vigil.releasing.inj h')
        exact .inr ⟨.watch hx hv h.symm, hprocess⟩
      · exact .inl (.watch hy h')
  | withdraw hr =>
    split at hlasts <;> rename_i hd
    · rw [if_pos hd]
      exact k.play hlasts id rfl id rfl rfl rfl
    · rw [if_neg hd]
      exact k.play hlasts id rfl id rfl rfl rfl
  | @install _ i p hr =>
    refine k.play hlasts id rfl id rfl ?_ rfl
    split <;> rfl
  | ignore hx hv | passWatch hx hv | endWatch hx hv =>
    exact k.watch hlasts rfl rfl rfl rfl rfl rfl
  | dropWatch hx hv =>
    obtain ⟨_, _, hd⟩ := o.dispose_eq _
    rw [hd] at hlasts ⊢
    exact k.watch hlasts rfl rfl rfl rfl rfl rfl
  | busy h | idle h =>
    exact k.move hlasts (fun h => by cases h) rfl id (fun hj _ => hj) fun hj _ => hj
  | endDebug h =>
    obtain ⟨_, _, hd⟩ := o.dispose_eq _
    rw [hd] at hlasts ⊢
    exact k.move hlasts id rfl id (fun hj _ => hj) fun hj _ => hj
  | createMain hr | note hr | connect hr | keep hr | launch hr | hold hr | dismiss hr
  | createDebug hr => exact k.play hlasts id rfl id rfl rfl rfl
  | _ => exact k.move hlasts id rfl id (fun hj _ => hj) fun hj _ => hj

namespace World

variable {start w : World} {ms : List Move}

/-- What a lost session leaves behind knows of its exit, at every moment of a session's life. -/
theorem Life.wrecks (h : Life start ms w) : Wrecks w.outline := by
  refine (play?_keeps (fun hs hk hrule => hrule.wrecks hs hk) h.play h.ofSession h.fresh.sound
    ?_).2
  rw [h.fresh.outline_eq]
  constructor
  case seated =>
    intro _ _ _ hp
    cases hp
  case salvaged =>
    intro _ hsalvaged
    rcases hsalvaged with h | ⟨h, -⟩ <;> cases h

end World

end SessionHost
