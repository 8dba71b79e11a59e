import SessionHost.Proofs.Lifecycle.Dialogue
import SessionHost.Proofs.Lifecycle.Rule

/-!
# Conduct of a call

A piece of a call takes the outline from one suspension point to the next by rules alone, and
the call plays at the new point the role that belongs to it.

Main definitions:

- `Conduct`: a call leads from one outline to another one, by rules.
- `Progress.Obeys`: wherever a piece of a call leads, it was led there by rules.
- `Releases`: how an activity takes the live parts of its generation away.

Main results:

- Theorem `Progress.Obeys.andThen`: an activity obeys the rules if its parts do.
- Theorem `World.release_leads`: so does taking the live parts away.
-/

namespace SessionHost

/-! ## Chains of rules of one call -/

/-- A call leads from one outline to another one, and from one role to another one. -/
def Conduct (i : Nat) (o : Outline) (r : Role) (o' : Outline) (s : Role) : Prop :=
  i < o.roles.length →
    i < o'.roles.length ∧ Leads (.call i) (o.setRole i r) (o'.setRole i s)

namespace Conduct

variable {i : Nat} {o o' o'' x : Outline} {r s t : Role}

theorem refl : Conduct i o r o r :=
  fun hi => ⟨hi, .refl _ _⟩

/-- Nothing that the rules speak of has changed. -/
theorem of_eq (h : o' = o) : Conduct i o r o' r :=
  h ▸ refl

/-- Conduct after conduct is conduct. -/
theorem trans (h : Conduct i o r o' s) (h' : Conduct i o' s o'' t) : Conduct i o r o'' t := by
  intro hi
  obtain ⟨hi', hleads⟩ := h hi
  obtain ⟨hi'', hleads'⟩ := h' hi'
  exact ⟨hi'', hleads.trans hleads'⟩

/-- One rule is a conduct.  The rule may be stated for a change of the outline in which the call
still plays its old role. -/
theorem of_rule (hx : x = o'.setRole i r) (hlen : o'.roles.length = o.roles.length)
    (h : (o.setRole i r).roles[i]? = some r → Rule (.call i) (o.setRole i r) (x.setRole i s)) :
    Conduct i o r o' s := by
  intro hi
  have hr : (o.setRole i r).roles[i]? = some r := List.getElem?_set_self hi
  have hrule := h hr
  rw [hx, Outline.setRole_setRole] at hrule
  exact ⟨hlen ▸ hi, .rule hrule⟩

/-- A rule that asks for no role leaves the role as it is. -/
theorem of_rule_at (hx : x = o'.setRole i r) (hlen : o'.roles.length = o.roles.length)
    (h : Rule (.call i) (o.setRole i r) x) : Conduct i o r o' r :=
  fun hi => ⟨hlen ▸ hi, .rule (hx ▸ h)⟩

/-- A turn is conduct. -/
theorem turn (h : Turn o r s) : Conduct i o r o s :=
  of_rule rfl rfl fun hr => .turn hr (h.of_setRole i r)

/-- Dropping a process by disposing of it is conduct. -/
theorem drop {p : Nat} (h : Drop o r p s) : Conduct i o r (o.dispose p) s :=
  of_rule (o.dispose_setRole i r p) (by rw [Outline.dispose_roles]) fun hr =>
    .drop hr (h.of_setRole i r)

end Conduct

/-! ## Pieces of activities -/

/-- Wherever a piece of a call leads, rules lead there; the places and the results of the
activity have their roles. -/
def Progress.Obeys {σ α : Type} (p : Progress World σ α) (i : Nat) (o : Outline) (r : Role)
    (going : σ → Role) (done : α → Role) : Prop :=
  match p with
  | .blocked => True
  | .going w s => Conduct i o r w.outline (going s)
  | .finished w a => Conduct i o r w.outline (done a)

namespace Progress.Obeys

variable {σ τ α β : Type} {p : Progress World σ α} {i : Nat} {o o' : Outline} {r s : Role}
  {going : σ → Role} {done : α → Role}

/-- What goes on where rules have led obeys the rules. -/
theorem after (h : Conduct i o r o' s) (hp : p.Obeys i o' s going done) :
    p.Obeys i o r going done := by
  cases p with
  | blocked => trivial
  | going w x => exact h.trans hp
  | finished w a => exact h.trans hp

/-- An activity obeys the rules if its parts do. -/
theorem andThen (hp : p.Obeys i o r going done) {wrap : σ → τ}
    {next : World → α → Progress World τ β} {going' : τ → Role} {done' : β → Role}
    (hwrap : ∀ x, going' (wrap x) = going x)
    (hnext : ∀ w a, (next w a).Obeys i w.outline (done a) going' done') :
    (p.andThen wrap next).Obeys i o r going' done' := by
  cases p with
  | blocked => trivial
  | going w x =>
    have hgoing : Conduct i o r w.outline (going x) := hp
    rw [← hwrap] at hgoing
    exact hgoing
  | finished w a => exact after hp (hnext w a)

/-- An activity that leaves the outline as it is obeys the rules, whatever its call is at. -/
theorem of_ends (h : p.Ends (·.outline = o)) : p.Obeys i o r (fun _ => r) fun _ => r := by
  cases p with
  | blocked => trivial
  | going w x => exact .of_eq h
  | finished w a => exact .of_eq h

end Progress.Obeys

/-! ## Waiting -/

namespace World

/-- A wait for the status leaves the outline alone. -/
theorem wait_ends (w : World) (place : Wait) : (w.wait place).Ends (·.outline = w.outline) := by
  unfold wait look
  split
  · split
    · rfl
    · split <;> rfl
  · trivial

/-! ## Taking the live parts away -/

/-- The session is emptied while nobody stops its client. -/
theorem outline_takeLive (w : World) (s : Session)
    (h : ∀ c, w.session.client.map Stored.value = some c → w.clients[c]? = none) :
    { w with session := s }.outline = { w.outline.takeLive with session := s } := by
  have hstops : w.outline.takeLive.stops = w.outline.stops := by
    simp only [Outline.takeLive]
    rw [show w.outline.session = w.session from rfl]
    cases hc : w.session.client with
    | none => rfl
    | some c =>
      have hnone : w.clients[c.value]? = none := h c.value (by rw [hc]; rfl)
      refine List.modify_eq_self ?_
      simpa [outline] using hnone
  calc { w with session := s }.outline
      = { w.outline.takeLive with session := s, stops := w.outline.stops } := rfl
    _ = { w.outline.takeLive with session := s } := by rw [← hstops]

/-- The session is emptied, and its client is about to be stopped. -/
theorem outline_takeLive_setClient (w : World) (s : Session) {c : Nat} {k k' : Client}
    (hc : w.session.client.map Stored.value = some c) (hk : w.clients[c]? = some k)
    (hk' : k'.stops = k.stops + 1) :
    ({ w with session := s }.setClient c k').outline =
      { w.outline.takeLive with session := s } := by
  obtain ⟨x, hx, rfl⟩ := Option.map_eq_some_iff.1 hc
  have hstops : w.outline.stops[x.value]? = some k.stops := by simp [outline, hk]
  simp only [Outline.takeLive]
  rw [show w.outline.session = w.session from rfl, hx]
  simp only [modify_eq_set_of_some hstops]
  simp [outline, setClient, List.map_set, hk']

@[simp]
theorem outline_disposeAny (w : World) (p : Option Nat) :
    (w.disposeAny p).outline = match p with
      | some p => w.outline.dispose p
      | none => w.outline := by
  cases p with
  | none => rfl
  | some p => exact w.outline_dispose p

end World

/-- How an activity may take the live parts of a generation away. -/
structure Releases (g : Nat) (R : Outline → Grip → Outline → Grip → Prop) : Prop where
  refl : ∀ o x, R o x o x
  trans : ∀ {o o' o'' x x' x''}, R o x o' x' → R o' x' o'' x'' → R o x o'' x''
  pass : ∀ o, o.generation ≠ g → R o .reaching o (.holding none)
  take : ∀ o, o.generation = g → R o .reaching o.takeLive (.holding o.process?)
  drop : ∀ o p, R o (.holding (some p)) (o.dispose p) (.holding none)

namespace World

/-- What was taken is disposed of. -/
theorem disposeAny_releases {g : Nat} {R : Outline → Grip → Outline → Grip → Prop}
    (h : Releases g R) (w : World) (p : Option Nat) :
    R w.outline (.holding p) (w.disposeAny p).outline (.holding none) := by
  rw [outline_disposeAny]
  cases p with
  | none => exact h.refl _ _
  | some p => exact h.drop _ p

/-- Taking the live parts away obeys the rules for it. -/
theorem release_leads {g : Nat} {R : Outline → Grip → Outline → Grip → Prop}
    (h : Releases g R) (w : World) (place : Release) :
    match w.release g place with
    | .blocked => True
    | .going v place' => R w.outline place.grip v.outline place'.grip
    | .finished v _ => R w.outline place.grip v.outline (.holding none) := by
  cases place with
  | taking =>
    by_cases hg : w.generation = g
    · have htake := h.take w.outline hg
      have hnobody : (∀ c, w.session.client.map Stored.value = some c → w.clients[c]? = none) →
          R w.outline .reaching ({ w with session := w.session.withoutLive }.disposeAny
            (w.session.process.map Stored.value)).outline (.holding none) := by
        intro hnone
        have hdrop := disposeAny_releases h { w with session := w.session.withoutLive }
          (w.session.process.map Stored.value)
        rw [w.outline_takeLive w.session.withoutLive hnone] at hdrop
        exact h.trans htake hdrop
      simp only [release, ne_eq, if_neg (not_not_intro hg)]
      cases hc : w.session.client.map Stored.value with
      | none => exact hnobody (by simp [hc])
      | some c =>
        simp only []
        cases hk : w.clients[c]? with
        | none =>
          refine hnobody fun d hd => ?_
          rw [hc, Option.some.injEq] at hd
          rwa [← hd]
        | some k =>
          have hout : ({ w with session := w.session.withoutLive }.setClient c
              (k.beginClosing w.now w.config.timings.clientStop).1).outline =
              w.outline.takeLive :=
            w.outline_takeLive_setClient w.session.withoutLive hc hk rfl
          rw [← hout] at htake
          exact htake
    · simp only [release, ne_eq, if_pos hg]
      exact h.pass w.outline hg
  | closing c p s =>
    have hends : (w.onClient c fun k => s.step w.now k).Ends (·.outline = w.outline) :=
      w.onClient_outline c fun k => s.step_stops w.now rfl
    simp only [release]
    cases hs : w.onClient c fun k => s.step w.now k with
    | blocked => trivial
    | going v s' =>
      rw [hs] at hends
      have hv : v.outline = w.outline := hends
      change R w.outline (.holding p) v.outline (.holding p)
      rw [hv]
      exact h.refl _ _
    | finished v _ =>
      rw [hs] at hends
      have hv : v.outline = w.outline := hends
      have hdrop := disposeAny_releases h v p
      rw [hv] at hdrop
      exact hdrop

/-- A call that takes the live parts away obeys the rules if they let it. -/
theorem release_obeys {i g : Nat} {f : Grip → Role}
    (h : Releases g fun o x o' x' => Conduct i o (f x) o' (f x')) (w : World) (place : Release) :
    (w.release g place).Obeys i w.outline (f place.grip) (fun p => f p.grip)
      fun _ => f (.holding none) := by
  have hleads := release_leads h w place
  cases hp : w.release g place with
  | blocked => trivial
  | going v p =>
    rw [hp] at hleads
    exact hleads
  | finished v u =>
    rw [hp] at hleads
    exact hleads

end World

end SessionHost
