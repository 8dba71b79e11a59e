import SessionHost.Proofs.Lifecycle.Slots

/-!
# The client of the session

A client is stopped by whoever takes it out of the session, so the client that the session holds
was never stopped.  Neither was one that a start is about to store: while that start may still
store it, the session holds no client that could be stopped.

Main definitions:

- `Clients`: the clients that were not stopped.

Main results:

- Theorem `Rule.clients`: every rule keeps them.
-/

namespace SessionHost

/-- The client that a start is about to store, with the generation of the start. -/
def Role.opens? : Role → Option (Nat × Nat)
  | .starting g (.opening c) => some (g, c)
  | _ => none

/-- The clients that were not stopped. -/
structure Clients (o : Outline) : Prop where
  stored : ∀ {g c : Nat}, o.session.client = some ⟨g, c⟩ → o.stops[c]? = some 0
  opened : ∀ {i : Nat} {r : Role} {g c : Nat}, o.roles[i]? = some r → r.opens? = some (g, c) →
    .start g ∉ o.cancelled → o.stops[c]? = some 0

namespace Clients

variable {o o' : Outline} {i : Nat} {r s : Role}

/-- The clients depend on the session's client, the clients' stops, and who opens one. -/
theorem of_eq (k : Clients o) (hc : o'.session.client = o.session.client)
    (hst : o'.stops = o.stops) (hcan : ∀ g, .start g ∈ o.cancelled → .start g ∈ o'.cancelled)
    (hroles : ∀ {j : Nat} {t : Role}, o'.roles[j]? = some t → t.opens? ≠ none →
      o.roles[j]? = some t) : Clients o' where
  stored h := by
    rw [hst]
    exact k.stored (hc ▸ h)
  opened hj ht h := by
    rw [hst]
    exact k.opened (hroles hj (by simp [ht])) ht fun h' => h (hcan _ h')

/-- A call that opens no client may play any role. -/
theorem play (k : Clients o) (hroles : o'.roles = o.roles.set i s) (hs : s.opens? = none)
    (hc : o'.session.client = o.session.client) (hst : o'.stops = o.stops)
    (hcan : ∀ g, .start g ∈ o.cancelled → .start g ∈ o'.cancelled) : Clients o' :=
  k.of_eq hc hst hcan fun hj ht =>
    getElem?_of_set_ne (hroles ▸ hj) fun h => ht (h ▸ hs)

theorem dispose (k : Clients o) (p : Nat) : Clients (o.dispose p) := by
  obtain ⟨processes, consoles, h⟩ := o.dispose_eq p
  rw [h]
  exact k.of_eq rfl rfl (fun _ => id) fun hj _ => hj

/-- Taking the session's client stops no client that a start may still store. -/
theorem takeLive (k : Clients o) (t : Tenure o) (l : Slots o) : Clients o.takeLive where
  stored := nofun
  opened {j u g c} hj hu h := by
    have hopen : u = .starting g (.opening c) := by
      unfold Role.opens? at hu
      split at hu <;> cases hu
      rfl
    subst hopen
    obtain ⟨rfl, hs⟩ := (t.admits hj rfl).2 h
    obtain ⟨-, hnone⟩ := l.fits hj rfl (Outline.claim?_of_starting hs)
    rw [Outline.takeLive, hnone]
    exact k.opened hj rfl h

end Clients

/-! ## Every rule keeps the clients -/

theorem Turn.opens? {o : Outline} {r s : Role} (h : Turn o r s) : s.opens? = none := by
  cases h <;> rfl

theorem Drop.opens? {o : Outline} {p : Nat} {r s : Role} (h : Drop o r p s) :
    s.opens? = none := by
  cases h <;> rfl

/-- Every rule keeps the clients. -/
theorem Rule.clients {a : Actor} {o o' : Outline} (h : Rule a o o') (t : Tenure o) (l : Slots o)
    (k : Clients o) : Clients o' := by
  cases h with
  | ask =>
    refine k.of_eq rfl rfl (fun _ => id) fun hj ht => ?_
    rcases getElem?_append_cases hj with hj | ⟨-, rfl⟩
    · exact hj
    · exact absurd rfl ht
  | turn hr h => exact k.play rfl h.opens? rfl rfl fun _ => id
  | drop hr h => exact (k.dispose _).play rfl h.opens? rfl rfl fun _ => id
  | claimStop hr h h' => exact k.play rfl rfl rfl rfl fun g hg => List.mem_append_left _ hg
  | empty hr => exact (k.takeLive t l).play rfl rfl rfl rfl fun _ => id
  | clear hr h | retract hr h => exact (k.takeLive t l).play rfl rfl rfl rfl fun _ => id
  | seize hx hv h => exact (k.takeLive t l).of_eq rfl rfl (fun _ => id) fun hj _ => hj
  | endStop hr | endFailed hr | conclude hr h v =>
    rw [Outline.transition]
    split <;> exact k.play rfl rfl rfl rfl fun _ => id
  | connect hr =>
    refine ⟨fun h => getElem?_append_of_some (k.stored h) _, fun {j u g c} hj hu h => ?_⟩
    rcases getElem?_set_cases hj with ⟨-, rfl⟩ | ⟨-, hj⟩
    · cases hu
      exact List.getElem?_concat_length
    · exact getElem?_append_of_some (k.opened hj hu h) _
  | keep hr h =>
    refine ⟨fun hc => ?_, fun {j u g c} hj hu h => ?_⟩
    · cases hc
      exact k.opened hr rfl h
    · rcases getElem?_set_cases hj with ⟨-, rfl⟩ | ⟨-, hj⟩
      · cases hu
      · exact k.opened hj hu h
  | adopt hr hq h =>
    rw [Outline.watchExit]
    split <;> exact k.play rfl rfl rfl rfl fun _ => id
  | install hr => exact k.play rfl (by split <;> rfl) rfl rfl fun _ => id
  | withdraw hr =>
    split <;> exact k.play rfl rfl rfl rfl fun _ => id
  | endDebug h => exact (k.dispose _).of_eq rfl rfl (fun _ => id) fun hj _ => hj
  | callOff p =>
    exact k.of_eq rfl rfl (fun g hg => List.mem_append_left _ hg) fun hj _ => hj
  | dropWatch hx hv => exact (k.dispose _).of_eq rfl rfl (fun _ => id) fun hj _ => hj
  | claimStart | createMain | createDebug | note | launch | hold | dismiss =>
    exact k.play rfl rfl rfl rfl fun _ => id
  | choose | fall | ignore | passWatch | endWatch | busy | idle | answer | ending | passOn
  | write => exact k.of_eq rfl rfl (fun _ => id) fun hj _ => hj

end SessionHost
