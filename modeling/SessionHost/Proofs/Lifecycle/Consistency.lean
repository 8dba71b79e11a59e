import SessionHost.Proofs.Lifecycle.Sound

/-!
# What a status promises

The status of a session and what the session holds change at different moments and behind
different locks.  Still, a live session has everything that a start stores, all of it from the
start of the present generation, and a session that was stopped has nothing.  A status that stands
for a transition always has the one call that is going to end it.

Main definitions:

- `Starting.attempt?`, `Stopping.isClaimed`: the calls that have claimed a transition.

Main results:

- Theorem `World.Life.session_of_status`: what the session holds follows from the status.
- Theorem `World.Life.owner_of_status`: a transition has exactly one owner.
-/

namespace SessionHost

namespace World

variable {start w : World} {ms : List Move}

/-! ## The session and its status -/

/-- A live session has its process, client, details and version, all stored by the start of the
present generation, which has not been called off; the process has not been disposed of, and the
client was never stopped.  A session that was not started, or was stopped, has none of them. -/
theorem Life.session_of_status (h : Life start ms w) :
    (w.status.isLive = true →
      ∃ p c d v q k, w.session.process = some ⟨w.generation, p⟩ ∧
        w.session.client = some ⟨w.generation, c⟩ ∧
        w.session.details = some ⟨w.generation, d⟩ ∧
        w.session.version = some ⟨w.generation, v⟩ ∧
        w.processes[p]? = some q ∧ q.purpose = .main w.generation ∧ q.disposed = false ∧
        w.clients[c]? = some k ∧ k.stops = 0 ∧ .start w.generation ∉ w.cancelled) ∧
      (w.status = .notStarted →
        w.session.process = none ∧ w.session.client = none ∧ w.session.details = none ∧
          w.session.version = none) := by
  have s := h.sound
  constructor
  · intro hlive
    obtain ⟨p, c, d, v, hp, hc, hd, hv⟩ := s.slots.live hlive
    obtain ⟨q, hq, hstanding⟩ := Outline.exists_of_standing? (s.custody.seated hp)
    have hstops : w.outline.stops[c]? = some 0 := s.clients.stored hc
    obtain ⟨k, hk, hzero⟩ : ∃ k, w.clients[c]? = some k ∧ k.stops = 0 := by
      simpa [outline] using hstops
    refine ⟨p, c, d, v, q, k, hp, hc, hd, hv, hq, congrArg Standing.purpose hstanding,
      congrArg Standing.disposed hstanding, hk, hzero, fun hcancelled => ?_⟩
    rcases s.tenure.calledOff hcancelled with hlt | ⟨-, hs | hs⟩
    · exact absurd hlt (Nat.lt_irrefl _)
    · rw [show w.status = .stopping from hs] at hlive
      cases hlive
    · rw [show w.status = .notStarted from hs] at hlive
      cases hlive
  · exact fun hs => s.slots.idle hs

/-- A session that runs after a start has everything, and nothing once the start was stopped. -/
theorem session_of_status_trial :
    (∃ w, Trial.start.Life (Trial.launching ++ Trial.connecting) w ∧ w.status = .running ∧
      ∃ p c d v q k, w.session.process = some ⟨w.generation, p⟩ ∧
        w.session.client = some ⟨w.generation, c⟩ ∧ w.session.details = some ⟨w.generation, d⟩ ∧
        w.session.version = some ⟨w.generation, v⟩ ∧ w.processes[p]? = some q ∧
        q.purpose = .main w.generation ∧ q.disposed = false ∧ w.clients[c]? = some k ∧
        k.stops = 0 ∧ .start w.generation ∉ w.cancelled) ∧
      ∃ w, Trial.start.Life (Trial.launching ++ Trial.claimingStop ++ [.run (.call 1)]) w ∧
        w.status = .notStarted ∧ w.session.process = none ∧ w.session.client = none ∧
        w.session.details = none ∧ w.session.version = none := by
  constructor
  · have hrun : (Trial.start.play? (Trial.launching ++ Trial.connecting)).map World.status =
        some .running := by decide +kernel
    obtain ⟨w, hplay, hs⟩ := Option.map_eq_some_iff.1 hrun
    have hlife := Trial.life hplay (by decide)
    exact ⟨w, hlife, hs, hlife.session_of_status.1 (by rw [hs]; rfl)⟩
  · have hrun : (Trial.start.play? (Trial.launching ++ Trial.claimingStop ++
        [.run (.call 1)])).map World.status = some .notStarted := by decide +kernel
    obtain ⟨w, hplay, hs⟩ := Option.map_eq_some_iff.1 hrun
    have hlife := Trial.life hplay (by decide)
    exact ⟨w, hlife, hs, hlife.session_of_status.2 hs⟩

end World

/-! ## Claims -/

/-- The attempt of a start, from its claim on. -/
def Starting.attempt? : Starting → Option Attempt
  | .joining _ => none
  | .awaiting _ _ => none
  | .clearing a _ _ => some a
  | .preparing a _ _ => some a
  | .recording a _ => some a
  | .adopting a _ _ => some a
  | .launching a _ _ _ => some a
  | .diagnosing a _ => some a
  | .noting a _ => some a
  | .connecting a _ _ _ => some a
  | .opening a _ _ => some a
  | .keeping a _ => some a
  | .asking a _ _ => some a
  | .concluding a _ => some a
  | .failing a _ _ => some a

/-- The stop is past its claim. -/
def Stopping.isClaimed : Stopping → Bool
  | .waiting _ => false
  | .endingDebug => false
  | .taking => true
  | .closing _ _ _ _ => true

namespace World

/-- The call is a start under way that has claimed the generation. -/
def StartsFor (w : World) (g i : Nat) : Prop :=
  ∃ place next a, w.calls[i]? = some (.active (.phased (.starting place) next)) ∧
    place.attempt? = some a ∧ a.generation = g

/-- The call is a stop under way, past its claim. -/
def Stops (w : World) (i : Nat) : Prop :=
  ∃ place next, w.calls[i]? = some (.active (.phased (.stopping place) next)) ∧
    place.isClaimed = true

/-- No call is under way. -/
def Idle (w : World) : Prop := ∀ c ∈ w.calls, ∃ r, c = .over r

theorem idle_of_results {w : World} (h : ∀ c ∈ w.calls, c.result?.isSome = true) : w.Idle := by
  intro c hc
  have hresult := h c hc
  rcases c with job | r
  · cases hresult
  · exact ⟨r, rfl⟩

end World

@[simp]
theorem Starting.claim?_role (place : Starting) :
    place.role.claim? = place.attempt?.map fun a => .start a.generation := by
  cases place <;> rfl

@[simp]
theorem Stopping.claim?_role (place : Stopping) :
    place.role.claim? = if place.isClaimed then some .stop else none := by
  cases place <;> rfl

@[simp]
theorem Debugging.claim?_role (place : Debugging) : place.role.claim? = none := by
  cases place <;> rfl

/-- The claim of a call is the claim of the start or the stop that it is at. -/
theorem Call.exists_of_claim? {call : Call} {c : Claim} (h : call.role.claim? = some c) :
    ∃ place next, call = .active (.phased place next) ∧ place.role.claim? = some c := by
  rcases call with job | r
  · cases job with
    | phased place next => exact ⟨place, next, rfl, h⟩
    | fresh command =>
      have hnone : (Job.fresh command).role.claim? = none := by
        by_cases hsession : command.ofSession = true
        · rw [show (Job.fresh command).role = .bystander from if_pos hsession]
          rfl
        · rw [show (Job.fresh command).role = .outsider from if_neg hsession]
          rfl
      rw [Call.role, hnone] at h
      cases h
    | debugging place =>
      rw [Call.role, Job.role, Debugging.claim?_role] at h
      cases h
    | _ => cases h
  · cases h

namespace World

variable {start w : World} {ms : List Move}

/-- Who has claimed a generation plays a role with that claim. -/
theorem startsFor_iff (w : World) (g i : Nat) :
    w.StartsFor g i ↔ ∃ r, w.outline.roles[i]? = some r ∧ r.claim? = some (.start g) := by
  constructor
  · rintro ⟨place, next, a, hi, ha, rfl⟩
    exact ⟨place.role, roles_of_active hi, by rw [Starting.claim?_role, ha]; rfl⟩
  · rintro ⟨r, hr, hclaim⟩
    obtain ⟨call, hcall, rfl⟩ : ∃ call, w.calls[i]? = some call ∧ call.role = r := by
      simpa [outline] using hr
    obtain ⟨place, next, rfl, hplace⟩ := Call.exists_of_claim? hclaim
    cases place with
    | stopping place => simp [PhasePlace.role] at hplace
    | starting place =>
      rw [PhasePlace.role, Starting.claim?_role] at hplace
      obtain ⟨a, ha, hg⟩ := Option.map_eq_some_iff.1 hplace
      exact ⟨place, next, a, hcall, ha, by simpa using hg⟩

theorem stops_iff (w : World) (i : Nat) :
    w.Stops i ↔ ∃ r, w.outline.roles[i]? = some r ∧ r.claim? = some .stop := by
  constructor
  · rintro ⟨place, next, hi, hclaimed⟩
    exact ⟨place.role, roles_of_active hi, by rw [Stopping.claim?_role, if_pos hclaimed]⟩
  · rintro ⟨r, hr, hclaim⟩
    obtain ⟨call, hcall, rfl⟩ : ∃ call, w.calls[i]? = some call ∧ call.role = r := by
      simpa [outline] using hr
    obtain ⟨place, next, rfl, hplace⟩ := Call.exists_of_claim? hclaim
    cases place with
    | stopping place =>
      refine ⟨place, next, hcall, ?_⟩
      simpa [PhasePlace.role] using hplace
    | starting place => simp [PhasePlace.role] at hplace

/-- The claim that the status stands for has exactly one owner. -/
theorem existsUnique_claim (s : Sound w.outline) {c : Claim} (h : w.outline.claim? = some c) :
    ∃! i : Nat, ∃ r : Role, w.outline.roles[i]? = some r ∧ r.claim? = some c := by
  obtain ⟨i, r, hi, hr⟩ := s.tenure.owned h
  refine ⟨i, ⟨r, hi, hr⟩, ?_⟩
  rintro j ⟨r', hj, hr'⟩
  exact s.tenure.alone hj hi hr' hr

/-- While a start has the status, exactly one call has claimed the present generation, and it has
not been called off; while a stop has the status, exactly one call is past its claim.  A
generation launches at most one main console.  When no call is under way, no transition is. -/
theorem Life.owner_of_status (h : Life start ms w) :
    (w.status = .starting →
      (∃! i, w.StartsFor w.generation i) ∧ .start w.generation ∉ w.cancelled) ∧
    (w.status = .stopping → ∃! i, w.Stops i) ∧
    (∀ (g c c' : Nat) (k k' : Console) (q q' : ServerProcess),
      w.consoles[c]? = some k → w.consoles[c']? = some k' →
      w.processes[k.owner]? = some q → w.processes[k'.owner]? = some q' →
      q.purpose = .main g → q'.purpose = .main g → c = c') ∧
    (w.Idle → w.status ∈ [.notStarted, .running, .busy, .failed]) := by
  have s := h.sound
  have hstarting : w.status = .starting →
      (∃! i, w.StartsFor w.generation i) ∧ .start w.generation ∉ w.cancelled := by
    intro hs
    constructor
    · simp only [startsFor_iff]
      exact existsUnique_claim s (Outline.claim?_of_starting hs)
    · intro hcancelled
      rcases s.tenure.calledOff hcancelled with hlt | ⟨-, h | h⟩
      · exact absurd hlt (Nat.lt_irrefl _)
      · rw [show w.status = .stopping from h] at hs
        cases hs
      · rw [show w.status = .notStarted from h] at hs
        cases hs
  have hstopping : w.status = .stopping → ∃! i, w.Stops i := by
    intro hs
    simp only [stops_iff]
    exact existsUnique_claim s (Outline.claim?_of_stopping hs)
  refine ⟨hstarting, hstopping, ?_, ?_⟩
  · intro g c c' k k' q q' hc hc' hq hq' hg hg'
    have howner : k.owner = k'.owner :=
      s.lineage.single (g := g) (by simp [Outline.purposes, outline, hq, hg])
        (by simp [Outline.purposes, outline, hq', hg'])
    exact s.supervision.single (Outline.marks_of_some (o := w.outline) hc)
      (Outline.marks_of_some (o := w.outline) hc') howner
  · intro hidle
    cases hs : w.status with
    | starting =>
      obtain ⟨⟨i, ⟨place, next, a, hi, -⟩, -⟩, -⟩ := hstarting hs
      obtain ⟨r, hr⟩ := hidle _ (List.mem_of_getElem? hi)
      cases hr
    | stopping =>
      obtain ⟨i, ⟨place, next, hi, -⟩, -⟩ := hstopping hs
      obtain ⟨r, hr⟩ := hidle _ (List.mem_of_getElem? hi)
      cases hr
    | _ => simp

/-- A start owns its transition, and so does the stop that calls it off; nobody needs to own
anything once the start has come to its end. -/
theorem owner_of_status_trial :
    (∃ w, Trial.start.Life Trial.launching w ∧ w.status = .starting ∧
      (∃! i, w.StartsFor w.generation i) ∧ .start w.generation ∉ w.cancelled) ∧
    (∃ w, Trial.start.Life (Trial.launching ++ Trial.claimingStop) w ∧ w.status = .stopping ∧
      ∃! i, w.Stops i) ∧
    ∃ w, Trial.start.Life (Trial.launching ++ Trial.connecting) w ∧ w.Idle ∧
      w.status ∈ [.notStarted, .running, .busy, .failed] := by
  refine ⟨?_, ?_, ?_⟩
  · have hrun : (Trial.start.play? Trial.launching).map World.status = some .starting := by
      decide +kernel
    obtain ⟨w, hplay, hs⟩ := Option.map_eq_some_iff.1 hrun
    have hlife := Trial.life hplay (by decide)
    exact ⟨w, hlife, hs, hlife.owner_of_status.1 hs⟩
  · have hrun : (Trial.start.play? (Trial.launching ++ Trial.claimingStop)).map World.status =
        some .stopping := by decide +kernel
    obtain ⟨w, hplay, hs⟩ := Option.map_eq_some_iff.1 hrun
    have hlife := Trial.life hplay (by decide)
    exact ⟨w, hlife, hs, hlife.owner_of_status.2.1 hs⟩
  · have hrun : (Trial.start.play? (Trial.launching ++ Trial.connecting)).map
        (fun w => w.calls.all fun c => c.result?.isSome) = some true := by decide +kernel
    obtain ⟨w, hplay, hcalls⟩ := Option.map_eq_some_iff.1 hrun
    have hlife := Trial.life hplay (by decide)
    have hidle : w.Idle := idle_of_results (List.all_eq_true.1 hcalls)
    exact ⟨w, hlife, hidle, hlife.owner_of_status.2.2.2 hidle⟩

end World

end SessionHost
