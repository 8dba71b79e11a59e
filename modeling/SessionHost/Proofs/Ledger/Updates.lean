import SessionHost.Proofs.Ledger.Suggestions
import SessionHost.Proofs.Settings.Comparing

/-!
# Changed settings are noticed

While a session is live, whoever gives it new settings compares them with the ones before.  The
settings are changed in no other way, unless somebody changes the default runtime, so what is
compared is a chain, and what differs at its ends is told on the way.

A call that changes the default runtime keeps all others quiet until it settles.  One that breaks
off does not settle: after it nobody is told anything, until another change of the default runtime
has settled.

Main definitions:

- `World.update?`, `World.updates`: the settings that are compared.
- `World.LiveBetween`: the session is live, and nobody changes the default runtime.
- `World.BrokenOff`: a change of the default runtime has broken off, and none has settled since.

Main results:

- Theorem `World.settings_of_move?`: who changes the settings.
- Theorem `World.Life.changing_iff`: when all are kept quiet although nothing is changed.
- Theorem `World.LiveBetween.course`: what is compared and told while a session is live.
- Theorem `World.Life.changes_noticed`: which changes of the settings are told.
-/

namespace SessionHost

/-! ## Who changes the settings -/

/-- The settings that a call is about to give. -/
def Job.given? : Job → Option Settings
  | .fresh (.updateSettings s) => some s
  | _ => none

theorem Job.eq_of_given? {job : Job} {s : Settings} (h : job.given? = some s) :
    job = .fresh (.updateSettings s) := by
  unfold given? at h
  split at h <;> cases h
  rfl

/-- A call that is in order has announced its runtime, if it has one to announce. -/
theorem Job.Orderly.announce_notMem {place : PhasePlace} {next : List Phase}
    (h : (Job.phased place next).Orderly) (name : String) : .announce name ∉ next := by
  intro hmem
  rcases h with hnext | ⟨rest, hrest, rfl⟩
  · cases hnext _ hmem
  · rcases List.mem_append.1 hmem with hmem | hmem
    · cases hrest _ hmem
    · cases List.mem_singleton.1 hmem

namespace World

variable {w v : World} {m : Move} {i : Nat}

/-- A piece of a call leaves the settings alone, unless it gives new ones or announces a default
runtime. -/
theorem call_settings {job : Job} (h : job.Orderly)
    (hupdate : ∀ s, job ≠ .fresh (.updateSettings s))
    (hchange : ∀ name, job ≠ .fresh (.changeDefault name)) :
    (w.call job).Ends (·.settings = w.settings) := by
  by_cases hphased : job.isPhased = false
  · exact (w.call_works (P := True) hphased hupdate fun _ _ _ => trivial).imp fun _ =>
      Work.settings
  · cases job with
    | fresh command =>
      cases command with
      | start | stop | restart =>
        exact (w.runPhases_steady (A := False) (by simp)).imp fun _ hu => hu.settings
      | changeDefault name => exact absurd rfl (hchange name)
      | _ => exact absurd rfl hphased
    | phased place next =>
      have hphase : (w.phase place).Ends (·.settings = w.settings) :=
        (w.phase_works (P := True) place).imp fun _ => Work.settings
      refine w.call_phased_ends hphase fun u hu => ?_
      exact (u.runPhases_steady (A := False) h.announce_notMem).imp fun _ hv =>
        hv.settings.trans hu
    | _ => exact absurd rfl hphased

/-- The old and the new settings that a move compares. -/
def update? (w : World) : Move → Option (Settings × Settings)
  | .run (.call i) =>
    ((w.calls[i]?.bind Call.job?).bind Job.given?).map fun s => (w.settings, s)
  | _ => none

/-- The old and the new settings that are compared, in the course of some moves. -/
def updates (w : World) : List Move → List (Settings × Settings)
  | [] => []
  | m :: rest => (w.update? m).toList ++ (w.after m).updates rest

theorem update?_eq_some_iff {p : Settings × Settings} : w.update? m = some p ↔
    ∃ i s, m = .run (.call i) ∧ w.calls[i]? = some (.active (.fresh (.updateSettings s))) ∧
      p = (w.settings, s) := by
  constructor
  · intro h
    unfold update? at h
    split at h
    · next i =>
      obtain ⟨s, hs, rfl⟩ := Option.map_eq_some_iff.1 h
      obtain ⟨job, hjob, hgiven⟩ := Option.bind_eq_some_iff.1 hs
      obtain ⟨c, hc, hactive⟩ := Option.bind_eq_some_iff.1 hjob
      obtain rfl := Call.eq_of_job? hactive
      obtain rfl := Job.eq_of_given? hgiven
      exact ⟨i, s, rfl, hc, rfl⟩
    · cases h
  · rintro ⟨i, s, rfl, hi, rfl⟩
    simp only [update?, hi]
    rfl

/-- Settings are changed by those who give new ones, and by those who announce a default runtime. -/
theorem settings_of_move? (h : w.move? m = some v) (hm : m.ofSession = true) (ho : w.Orderly) :
    v.settings = ((w.update? m).map Prod.snd).getD w.settings ∨
      ∃ i name, m = .run (.call i) ∧
        w.calls[i]? = some (.active (.fresh (.changeDefault name))) := by
  by_cases hcall : ∃ i, m = .run (.call i)
  · obtain ⟨i, rfl⟩ := hcall
    obtain ⟨job, hjob, hpiece⟩ := call?_cases h
    by_cases hupdate : ∃ s, job = .fresh (.updateSettings s)
    · obtain ⟨s, rfl⟩ := hupdate
      rw [update?_eq_some_iff.2 ⟨i, s, rfl, hjob, rfl⟩]
      rcases hpiece with ⟨u, job', hpiece, -⟩ | ⟨u, r, hpiece, rfl⟩
      · cases hpiece
      · cases hpiece
        exact .inl (congrArg Ledger.settings (w.ledger_updateSettings s))
    by_cases hchange : ∃ name, job = .fresh (.changeDefault name)
    · obtain ⟨name, rfl⟩ := hchange
      exact .inr ⟨i, name, rfl, hjob⟩
    · have hnone : w.update? (.run (.call i)) = none := by
        rw [Option.eq_none_iff_forall_ne_some]
        intro p hp
        obtain ⟨j, s, hj, hjob', -⟩ := update?_eq_some_iff.1 hp
        cases hj
        cases hjob.symm.trans hjob'
        exact hupdate ⟨s, rfl⟩
      have hends := call_settings (w := w) (ho i job hjob) (fun s hs => hupdate ⟨s, hs⟩)
        fun name hname => hchange ⟨name, hname⟩
      rw [hnone]
      rcases hpiece with ⟨u, job', hpiece, rfl⟩ | ⟨u, r, hpiece, rfl⟩ <;>
        (rw [hpiece] at hends; exact .inl hends)
  · have hnone : w.update? m = none := by
      unfold update?
      split
      · exact absurd ⟨_, rfl⟩ hcall
      · rfl
    rw [hnone]
    exact .inl ((move?_change h hm).steady (not_exists.1 hcall)).settings

/-! ## Changes that break off -/

/-- Unless the session is being stopped, a change of the default runtime that has announced it goes
on; otherwise it may break off at once. -/
theorem call_change_gives (w : World) (name : String) :
    (w.call (.fresh (.changeDefault name))).Gives (fun _ job => job.Settles)
      fun _ r => w.status = .stopping ∧ r = .aborted := by
  have hstatus : (w.announceDefault name).status = w.status :=
    congrArg Ledger.status (w.ledger_announceDefault name)
  have hstop : (w.announceDefault name).beginStop.Gives (fun _ _ => True)
      fun _ r => w.status = .stopping ∧ r = .aborted := by
    unfold beginStop
    rw [hstatus]
    cases w.status with
    | stopping =>
      cases (w.announceDefault name).beginWait? with
      | none => exact ⟨rfl, rfl⟩
      | some place => trivial
    | _ => trivial
  have hcall : w.call (.fresh (.changeDefault name)) =
      (w.announceDefault name).runPhases [.stop, .start (some name), .settle] := rfl
  rw [hcall]
  unfold runPhases
  simp only [beginPhase]
  cases hpiece : (w.announceDefault name).beginStop with
  | blocked => trivial
  | going v place => exact List.mem_cons_of_mem _ (List.mem_singleton_self _)
  | finished v result =>
    rw [hpiece] at hstop
    obtain ⟨hs, rfl⟩ := hstop
    exact ⟨hs, rfl⟩

/-- A call that has announced a default runtime goes on, unless it breaks off at once. -/
theorem changes_of_announces {name : String} (h : w.call? i = some v)
    (hi : w.calls[i]? = some (.active (.fresh (.changeDefault name)))) :
    v.Changes i ∨ (w.status = .stopping ∧ v.calls[i]? = some (.over .aborted)) := by
  have hgives := w.call_change_gives name
  rcases piece_of_call? h hi with ⟨u, job, hpiece, -, hjob⟩ | ⟨u, r, hpiece, -, hover⟩ <;>
    rw [hpiece] at hgives
  · exact .inl ⟨job, hjob, hgives⟩
  · obtain ⟨hs, rfl⟩ := hgives
    exact .inr ⟨hs, hover⟩

/-- A change of the default runtime goes on, settles, or breaks off. -/
theorem Changes.move (hi : w.Changes i) (ho : w.Orderly) (h : w.move? m = some v)
    (hm : m.ofSession = true) :
    v.Changes i ∨ v.calls[i]? = some (.over .aborted) ∨
      (m = .run (.call i) ∧ v.calls[i]? = some (.over .done)) := by
  obtain ⟨job, hjob, hsettles⟩ := hi
  rcases calls_of_move? h hm hjob with hsame | rfl | rfl
  · exact .inl ⟨job, hsame, hsettles⟩
  · obtain ⟨place, next, rfl, hmem⟩ := hsettles.exists_phased
    obtain ⟨rest, hrest, rfl⟩ :=
      (ho i _ hjob).resolve_left fun hnext => hnext.settle_notMem hmem
    have hgives := w.call_settle place hrest
    rcases piece_of_call? h hjob with ⟨u, job', hpiece, -, hjob'⟩ | ⟨u, r, hpiece, -, hover⟩ <;>
      rw [hpiece] at hgives
    · obtain ⟨-, place', rest', -, rfl⟩ := hgives
      exact .inl ⟨_, hjob', List.mem_append_right rest' (List.mem_singleton_self _)⟩
    · rcases hgives with ⟨rfl, -⟩ | ⟨rfl, -⟩
      · exact .inr (.inr ⟨rfl, hover⟩)
      · exact .inr (.inl hover)
  · obtain ⟨job', u, job'', hjob', hperform, rfl⟩ := perform?_cases h
    cases hjob.symm.trans hjob'
    have hcalls : u.calls = w.calls := congrArg Ledger.calls (performJob_ledger hperform)
    have hlt : i < u.calls.length := hcalls ▸ (List.getElem?_eq_some_iff.1 hjob).1
    have hsettles' : job''.Settles := by
      cases performJob_prepares hperform <;> exact hsettles
    exact .inl ⟨job'', List.getElem?_set_self hlt, hsettles'⟩

/-- A change of the default runtime has broken off, and no change has settled since it has
announced its runtime. -/
def BrokenOff (start : World) (ms : List Move) (n : Nat) : Prop :=
  ∃ k x v, k < n ∧ start.Announced ms k x ∧ start.Moment ms n v ∧
    v.calls[x.call]? = some (.over .aborted) ∧ ∀ d i, k < d → d < n → ¬start.SettledAt ms d i

variable {start a b : World} {ms : List Move} {k n : Nat} {x : Naming}

namespace Life

/-- While the flag is up, no change has settled since one of them has announced its runtime. -/
theorem announced_of_changing (h : Life start ms w) (hn : start.Moment ms n v)
    (hv : v.changing = true) :
    ∃ k x, k < n ∧ start.Announced ms k x ∧ ∀ d i, k < d → d < n → ¬start.SettledAt ms d i := by
  induction n generalizing v with
  | zero =>
    obtain rfl : start = v := Option.some.inj hn.2
    rw [h.fresh.changing] at hv
    cases hv
  | succ n ih =>
    obtain ⟨a, ha⟩ := hn.pred
    by_cases hannounced : ∃ x, start.Announced ms n x
    · obtain ⟨x, hx⟩ := hannounced
      exact ⟨n, x, Nat.lt_succ_self n, hx, fun d i hd hd' => by omega⟩
    · have hsettled : ∀ i, ¬start.SettledAt ms n i := by
        intro i hi
        rw [h.changing_of_settled hi hn] at hv
        cases hv
      rw [h.changing_stays ha hn (not_exists.1 hannounced) hsettled] at hv
      obtain ⟨k, x, hk, hx, hnone⟩ := ih ha hv
      refine ⟨k, x, Nat.lt_succ_of_lt hk, hx, fun d i hd hd' => ?_⟩
      rcases Nat.lt_or_eq_of_le (Nat.le_of_lt_succ hd') with hlt | rfl
      · exact hnone d i hd hlt
      · exact hsettled i

/-- As long as no change settles, the flag stays up, and the change that has announced its runtime
goes on or breaks off. -/
theorem unsettled (h : Life start ms w) (hx : start.Announced ms k x) (hk : k < n)
    (hnone : ∀ d i, k < d → d < n → ¬start.SettledAt ms d i) (hn : start.Moment ms n v) :
    v.changing = true ∧ (v.Changes x.call ∨ v.calls[x.call]? = some (.over .aborted)) := by
  induction n generalizing v with
  | zero => cases hk
  | succ n ih =>
    obtain ⟨a, ha⟩ := hn.pred
    obtain ⟨m, hm, hmove⟩ := ha.step hn
    have hof := h.ofSession m (List.mem_of_getElem? hm)
    rcases Nat.lt_or_eq_of_le (Nat.le_of_lt_succ hk) with hlt | rfl
    · obtain ⟨hflag, hcall⟩ := ih hlt (fun d i hd hd' => hnone d i hd (Nat.lt_succ_of_lt hd')) ha
      have hsettled := fun i => hnone n i hlt (Nat.lt_succ_self n)
      constructor
      · by_cases hannounced : ∃ y, start.Announced ms n y
        · exact changing_of_announced hannounced.choose_spec hn
        · rw [h.changing_stays ha hn (not_exists.1 hannounced) hsettled]
          exact hflag
      · rcases hcall with hchanges | hover
        · rcases hchanges.move (h.moment ha).orderly hmove hof with
            hchanges' | hover | ⟨rfl, hover⟩
          · exact .inl hchanges'
          · exact .inr hover
          · exact absurd ⟨a, v, ha, hn, hm, hchanges, hover⟩ (hsettled _)
        · exact .inr (over_of_move? hmove hof hover)
    · obtain ⟨u, hu, hm', hi⟩ := id hx
      obtain rfl := ha.unique hu
      obtain rfl : m = .run (.call x.call) := Option.some.inj (hm.symm.trans hm')
      exact ⟨changing_of_announced hx hn, (changes_of_announces hmove hi).imp id And.right⟩

/-- While nobody changes the default runtime, the flag is up exactly if a change has broken off and
none has settled since. -/
theorem changing_iff (h : Life start ms w) (hn : start.Moment ms n v) (hv : ∀ i, ¬v.Changes i) :
    v.changing = true ↔ start.BrokenOff ms n := by
  constructor
  · intro hflag
    obtain ⟨k, x, hk, hx, hnone⟩ := h.announced_of_changing hn hflag
    exact ⟨k, x, v, hk, hx, hn, (h.unsettled hx hk hnone hn).2.resolve_left (hv _), hnone⟩
  · rintro ⟨k, x, u, hk, hx, -, -, hnone⟩
    exact (h.unsettled hx hk hnone hn).1

end Life

/-! ## A live session -/

/-- What is compared from one moment on begins with what the next move compares. -/
theorem updates_succ (ha : start.Moment ms k a) (hb : start.Moment ms (k + 1) b)
    (hm : ms[k]? = some m) (hk : k < n) (hn : n ≤ ms.length) :
    a.updates ((ms.take n).drop k) =
      (a.update? m).toList ++ b.updates ((ms.take n).drop (k + 1)) := by
  obtain ⟨m', hm', hmove⟩ := ha.step hb
  obtain rfl : m' = m := Option.some.inj (hm'.symm.trans hm)
  obtain ⟨hlength, rfl⟩ := List.getElem?_eq_some_iff.1 hm
  have hmoves : (ms.take n).drop k = ms[k] :: (ms.take n).drop (k + 1) := by
    rw [List.drop_eq_getElem_cons (by rw [List.length_take]; omega), List.getElem_take]
  rw [hmoves, updates, after, hmove, Option.getD_some]

/-- What a move compares stands in front of a chain from the settings after it. -/
theorem chained_update {changes : List (Settings × Settings)} {s : Settings}
    (h : Chained b.settings changes s)
    (hb : b.settings = ((a.update? m).map Prod.snd).getD a.settings) :
    Chained a.settings ((a.update? m).toList ++ changes) s := by
  cases hupdate : a.update? m with
  | none =>
    rw [hupdate] at hb
    rw [← show b.settings = a.settings from hb]
    exact h
  | some p =>
    obtain ⟨i, s', -, -, rfl⟩ := update?_eq_some_iff.1 hupdate
    rw [hupdate] at hb
    obtain rfl : b.settings = s' := hb
    exact .cons h

/-- From one moment to a later one the session is live, and nobody changes the default runtime. -/
structure LiveBetween (start : World) (ms : List Move) (k n : Nat) : Prop where
  le : k ≤ n
  live : ∀ j v, k ≤ j → j ≤ n → start.Moment ms j v → v.status.isLive = true
  unchanging : ∀ j v, k ≤ j → j ≤ n → start.Moment ms j v → ∀ i, ¬v.Changes i

namespace LiveBetween

theorem later (hs : start.LiveBetween ms k n) (hk : k < n) : start.LiveBetween ms (k + 1) n where
  le := hk
  live j v hj := hs.live j v (Nat.le_of_succ_le hj)
  unchanging j v hj := hs.unchanging j v (Nat.le_of_succ_le hj)

/-- Nobody announces a default runtime: that would stop the session. -/
theorem not_announced (h : Life start ms w) (hs : start.LiveBetween ms k n) (hk : k < n)
    (ha : start.Moment ms k a) {i : Nat} {name : String} (hm : ms[k]? = some (.run (.call i)))
    (hi : a.calls[i]? = some (.active (.fresh (.changeDefault name)))) : False := by
  obtain ⟨b, hb⟩ := h.exists_moment (n := k + 1) (List.getElem?_eq_some_iff.1 hm).1
  obtain ⟨m, hm', hmove⟩ := ha.step hb
  obtain rfl : m = .run (.call i) := Option.some.inj (hm'.symm.trans hm)
  rcases changes_of_announces hmove hi with hchanges | ⟨hstopping, -⟩
  · exact hs.unchanging (k + 1) b (Nat.le_succ k) hk hb i hchanges
  · have hlive := hs.live k a (Nat.le_refl k) hs.le ha
    rw [hstopping] at hlive
    cases hlive

/-- One move: the settings are those that are given, if any are, and what differs is told, unless
all are kept quiet. -/
theorem step (h : Life start ms w) (hs : start.LiveBetween ms k n) (hk : k < n)
    (ha : start.Moment ms k a) (hb : start.Moment ms (k + 1) b) (hm : ms[k]? = some m) :
    b.changing = a.changing ∧ b.settings = ((a.update? m).map Prod.snd).getD a.settings ∧
      b.suggestions = a.suggestions ++
        if a.changing then [] else ((a.update? m).bind fun p => coldChange? p.1 p.2).toList := by
  obtain ⟨m', hm', hmove⟩ := ha.step hb
  obtain rfl : m' = m := Option.some.inj (hm'.symm.trans hm)
  have hof := h.ofSession m' (List.mem_of_getElem? hm)
  have horderly := (h.moment ha).orderly
  have hlive := hs.live k a (Nat.le_refl k) hs.le ha
  have hsettings : b.settings = ((a.update? m').map Prod.snd).getD a.settings := by
    rcases settings_of_move? hmove hof horderly with hsettings | ⟨i, name, rfl, hi⟩
    · exact hsettings
    · exact (not_announced h hs hk ha hm hi).elim
  cases hupdate : a.update? m' with
  | some p =>
    obtain ⟨i, s, rfl, hi, rfl⟩ := update?_eq_some_iff.1 hupdate
    rw [hupdate] at hsettings
    have hprompting := prompting_of_update hmove hi
    cases hflag : a.changing with
    | true =>
      rw [a.prompting_updateSettings_of_quiet (.inl hflag)] at hprompting
      refine ⟨(congrArg Prompting.changing hprompting).trans hflag, hsettings, ?_⟩
      exact (congrArg Prompting.suggested hprompting).trans (List.append_nil _).symm
    | false =>
      rw [a.prompting_updateSettings_of_live hflag hlive] at hprompting
      exact ⟨(congrArg Prompting.changing hprompting).trans hflag, hsettings,
        congrArg Prompting.suggested hprompting⟩
  | none =>
    rw [hupdate] at hsettings
    rcases prompting_of_move? hmove hof horderly with hsame | ⟨i, rfl, hprompts⟩
    · refine ⟨congrArg Prompting.changing hsame, hsettings, ?_⟩
      exact (congrArg Prompting.suggested hsame).trans (by simp [prompting, suggestions])
    · cases hprompts with
      | suggest hi =>
        have hsome := update?_eq_some_iff.2 ⟨i, _, rfl, hi, rfl⟩
        cases hupdate.symm.trans hsome
      | raise hi => exact (not_announced h hs hk ha hm hi).elim
      | lower hi => exact absurd hi (hs.unchanging k a (Nat.le_refl k) hs.le ha i)

/-- The whole course: what is compared is a chain, and what differs is told, unless all are kept
quiet. -/
theorem course (h : Life start ms w) (hs : start.LiveBetween ms k n) (ha : start.Moment ms k a)
    (hb : start.Moment ms n b) :
    Chained a.settings (a.updates ((ms.take n).drop k)) b.settings ∧
      b.suggestions = a.suggestions ++ if a.changing then [] else
        (a.updates ((ms.take n).drop k)).filterMap fun p => coldChange? p.1 p.2 := by
  -- The induction is on the number of moves that are left.
  induction hd : n - k generalizing k a with
  | zero =>
    obtain rfl : k = n := Nat.le_antisymm hs.le (Nat.le_of_sub_eq_zero hd)
    obtain rfl := ha.unique hb
    rw [List.drop_eq_nil_of_le (by rw [List.length_take]; exact Nat.min_le_left _ _)]
    exact ⟨.nil _, by cases a.changing <;> simp [updates]⟩
  | succ d ih =>
    have hk : k < n := by omega
    have hlength : k < ms.length := Nat.lt_of_lt_of_le hk hb.1
    have hm : ms[k]? = some ms[k] := List.getElem?_eq_getElem hlength
    obtain ⟨c, hc⟩ := h.exists_moment (n := k + 1) hlength
    obtain ⟨hflag, hsettings, htold⟩ := step h hs hk ha hc hm
    obtain ⟨hchained, htoldLater⟩ := ih (hs.later hk) hc (by omega)
    rw [updates_succ ha hc hm hk hb.1]
    rw [hflag] at htoldLater
    constructor
    · exact chained_update hchained hsettings
    · rw [htoldLater, htold, List.append_assoc, List.filterMap_append]
      cases a.changing with
      | true => rfl
      | false =>
        cases a.update? ms[k] with
        | none => rfl
        | some p => cases hcold : coldChange? p.1 p.2 <;> simp [hcold]

end LiveBetween

/-- **Changed settings are noticed.**  While a session is live and nobody changes the default
runtime, what is compared is a chain from the settings before to the settings after.  Each change
that concerns a setting that needs a restart is told by the name of the first such setting, and no
other change is; so what differs at the ends is told at least once.  Only after a change of the
default runtime that has broken off, until another one settles, nothing is told at all. -/
theorem Life.changes_noticed (h : Life start ms w) (hs : start.LiveBetween ms k n)
    (ha : start.Moment ms k a) (hb : start.Moment ms n b) :
    Chained a.settings (a.updates ((ms.take n).drop k)) b.settings ∧
      ∃ names, b.suggestions = a.suggestions ++ names ∧
        (¬start.BrokenOff ms k → Prompted (a.updates ((ms.take n).drop k)) names) ∧
        (start.BrokenOff ms k → names = []) ∧
        (¬ColdAlike a.settings b.settings → (names ≠ [] ↔ ¬start.BrokenOff ms k)) ∧
        ((∀ p ∈ a.updates ((ms.take n).drop k), ColdAlike p.1 p.2) → names = []) ∧
        ∀ name ∈ names, ∃ p ∈ a.updates ((ms.take n).drop k), FirstChanged p.1 p.2 name := by
  obtain ⟨hchained, htold⟩ := hs.course h ha hb
  have hflag := h.changing_iff ha (hs.unchanging k a (Nat.le_refl k) hs.le ha)
  refine ⟨hchained, ?_⟩
  cases hchanging : a.changing with
  | true =>
    have hbroken := hflag.1 hchanging
    rw [hchanging, if_pos rfl] at htold
    exact ⟨[], htold, fun hnot => absurd hbroken hnot, fun _ => rfl,
      fun _ => iff_of_false (fun hne => hne rfl) fun hnot => hnot hbroken, fun _ => rfl, nofun⟩
  | false =>
    have hsound : ¬start.BrokenOff ms k := fun hbroken => by
      rw [hflag.2 hbroken] at hchanging
      cases hchanging
    rw [hchanging, if_neg Bool.false_ne_true] at htold
    have hprompted := prompted_iff.2 (Eq.refl
      ((a.updates ((ms.take n).drop k)).filterMap fun p => coldChange? p.1 p.2))
    refine ⟨_, htold, fun _ => hprompted, fun hbroken => absurd hbroken hsound, fun hne => ?_,
      hprompted.eq_nil_iff.2, fun name => hprompted.exists_change⟩
    refine iff_of_true (fun hnil => ?_) hsound
    obtain ⟨p, hp, hchanged⟩ := hchained.exists_changed hne
    exact hchanged (hprompted.eq_nil_iff.1 hnil p hp)

/-! ## Trials -/

/-- The session is live, and nobody changes the default runtime. -/
def isStill (w : World) : Bool :=
  w.status.isLive && w.calls.all fun c => c.job?.all fun job => !decide job.Settles

theorem not_changes_of_isStill (h : w.isStill = true) (i : Nat) : ¬w.Changes i := by
  rintro ⟨job, hi, hsettles⟩
  have hcalls := List.all_eq_true.1 (Bool.and_eq_true_iff.1 h).2 _ (List.mem_of_getElem? hi)
  have hjob : (!decide job.Settles) = true := hcalls
  rw [decide_eq_true hsettles] at hjob
  cases hjob

/-- From one moment to the end of a life the session is still, the flag is up or not, and the first
setting that differs at the end is this one. -/
def endsStill (start : World) (ms : List Move) (k : Nat) (flag : Bool) (name : String) : Bool :=
  ((List.range' k (ms.length + 1 - k)).all fun j => (start.play? (ms.take j)).any isStill) &&
    (start.play? (ms.take k)).any fun a => a.changing == flag &&
      (start.play? ms).any fun b => coldChange? a.settings b.settings == some name

theorem Fresh.exists_still (hfresh : start.Fresh) (ms : List Move) (k : Nat) (flag : Bool)
    (name : String) (hof : ms.all Move.ofSession = true) (hk : k ≤ ms.length)
    (h : start.endsStill ms k flag name = true) :
    ∃ a b, start.Life ms b ∧ start.LiveBetween ms k ms.length ∧ start.Moment ms k a ∧
      start.Moment ms ms.length b ∧ a.changing = flag ∧
        FirstChanged a.settings b.settings name := by
  obtain ⟨hstill, hends⟩ := Bool.and_eq_true_iff.1 h
  obtain ⟨a, ha, hends⟩ := (Option.any_eq_true _ _).1 hends
  obtain ⟨hflag, hends⟩ := Bool.and_eq_true_iff.1 hends
  obtain ⟨b, hb, hcold⟩ := (Option.any_eq_true _ _).1 hends
  have hlife : start.Life ms b := ⟨hfresh, List.all_eq_true.1 hof, hb⟩
  have hmoment : ∀ j v, k ≤ j → j ≤ ms.length → start.Moment ms j v → v.isStill = true := by
    intro j v hj hj' hv
    have hany := List.all_eq_true.1 hstill j (List.mem_range'_1.2 (by omega))
    rwa [hv.2] at hany
  refine ⟨a, b, hlife, ⟨hk, fun j v hj hj' hv => ?_, fun j v hj hj' hv => ?_⟩, ⟨hk, ha⟩,
    hlife.last, beq_iff_eq.1 hflag, coldChange?_eq_some_iff.1 (beq_iff_eq.1 hcold)⟩
  · exact (Bool.and_eq_true_iff.1 (hmoment j v hj hj' hv)).1
  · exact not_changes_of_isStill (hmoment j v hj hj' hv)

end World

namespace Trial

/-- A session starts, and somebody gives it new settings. -/
def noticing : List Move :=
  launching ++ connecting ++
    [.ask (.updateSettings { developer := { traceLanguage := true } }), .run (.call 1)]

/-- The time for a handshake is the longest one that can be set, and the time for the end of a
transition is beyond what can be computed. -/
def endless : World :=
  { start with settings := { developer := { handshakeTimeoutSeconds := Text.maxUInt64 } } }

/-- The moves of the first call are those of another one. -/
def ofCall (i : Nat) : Move → Move
  | .run (.call 0) => .run (.call i)
  | .perform 0 => .perform i
  | m => m

/-- While a start is being stopped, somebody changes the default runtime, which breaks off.  Another
start comes to its end, and then somebody gives new settings. -/
def breakingOff : List Move :=
  [.ask .start, goOn, .ask .stop, .run (.call 1), .ask (.changeDefault "PowerShell Snap"),
      .run (.call 2), .run (.call 1)] ++
    (launching ++ connecting).map (ofCall 3) ++
    [.ask (.updateSettings { developer := { traceLanguage := true } }), .run (.call 4)]

end Trial

namespace World

/-- The same change is told, but not after a change of the default runtime that has broken off. -/
theorem changes_noticed_trial :
    (∃ a b, Trial.start.Life Trial.noticing b ∧ Trial.start.LiveBetween Trial.noticing 30 32 ∧
      Trial.start.Moment Trial.noticing 30 a ∧ ¬Trial.start.BrokenOff Trial.noticing 30 ∧
      FirstChanged a.settings b.settings "developer.traceLsp" ∧
      b.suggestions ≠ a.suggestions) ∧
    ∃ a b, Trial.endless.Life Trial.breakingOff b ∧
      Trial.endless.LiveBetween Trial.breakingOff 37 39 ∧
      Trial.endless.Moment Trial.breakingOff 37 a ∧ Trial.endless.BrokenOff Trial.breakingOff 37 ∧
      FirstChanged a.settings b.settings "developer.traceLsp" ∧
      b.suggestions = a.suggestions := by
  constructor
  · obtain ⟨a, b, hlife, hs, ha, hb, hflag, hchanged⟩ := Trial.fresh_start.exists_still
      Trial.noticing 30 false "developer.traceLsp" (by decide) (by decide) (by decide +kernel)
    have hsound : ¬Trial.start.BrokenOff Trial.noticing 30 := by
      rw [← hlife.changing_iff ha (hs.unchanging 30 a (Nat.le_refl _) hs.le ha), hflag]
      exact Bool.false_ne_true
    obtain ⟨-, names, htold, -, -, hiff, -⟩ := hlife.changes_noticed hs ha hb
    refine ⟨a, b, hlife, hs, ha, hsound, hchanged, fun hsame => ?_⟩
    have hne := (hiff hchanged.not_coldAlike).2 hsound
    exact hne (List.append_right_eq_self.1 (htold.symm.trans hsame))
  · have hfresh : Trial.endless.Fresh := by constructor <;> rfl
    obtain ⟨a, b, hlife, hs, ha, hb, hflag, hchanged⟩ := hfresh.exists_still
      Trial.breakingOff 37 true "developer.traceLsp" (by decide) (by decide) (by decide +kernel)
    have hbroken : Trial.endless.BrokenOff Trial.breakingOff 37 :=
      (hlife.changing_iff ha (hs.unchanging 37 a (Nat.le_refl _) hs.le ha)).1 hflag
    obtain ⟨-, names, htold, -, hquiet, -⟩ := hlife.changes_noticed hs ha hb
    refine ⟨a, b, hlife, hs, ha, hbroken, hchanged, ?_⟩
    rw [htold, hquiet hbroken, List.append_nil]

end World

end SessionHost
