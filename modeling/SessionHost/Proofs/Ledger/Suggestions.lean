import SessionHost.Proofs.Ledger.Defaults
import SessionHost.Proofs.Ledger.Work

/-!
# Suggestions while the default runtime is being changed

A call that changes the default runtime raises a flag when it announces the runtime, restarts the
session, and lowers the flag when it settles.  While the flag is up, nobody is told to restart the
session for other settings.  All calls share the flag.  When two of them overlap, the first one to
settle lowers it, although the other one is still under way, and a suggestion can be made again.

Main definitions:

- `Prompting`, `World.prompting`: the flag, and the suggestions that were made.
- `World.Changes`: a call has announced its runtime and has not settled.
- `World.SettledAt`: a call settles.
- `World.suggestions`: the suggestions that were made.

Main results:

- Theorem `World.Work.prompting`: work that takes no settings over leaves both alone.
- Theorem `World.prompting_of_move?`: what a move does to the flag and to the suggestions.
- Theorem `World.Life.suggested_iff`: when a suggestion is made during a change of the default.
-/

namespace SessionHost

deriving instance DecidableEq for Phase

/-- Whether the default runtime is being changed, and the suggestions made so far. -/
structure Prompting where
  changing : Bool
  suggested : List String

/-- All parts of the call are parts of a restart. -/
def Restarts (next : List Phase) : Prop := ∀ p ∈ next, p.isRestart = true

/-- The parts that follow are those of a restart, and at most the settling after them. -/
def Job.Orderly : Job → Prop
  | .phased _ next => Restarts next ∨ ∃ rest, Restarts rest ∧ next = rest ++ [.settle]
  | _ => True

/-- The call has yet to settle. -/
def Job.Settles : Job → Prop
  | .phased _ next => .settle ∈ next
  | _ => False

instance : DecidablePred Job.Settles
  | .phased _ next => inferInstanceAs (Decidable (.settle ∈ next))
  | .fresh _ => isFalse id
  | .debugging _ => isFalse id
  | .endingDebug => isFalse id
  | .launching _ _ => isFalse id
  | .opening _ _ => isFalse id
  | .asking _ _ => isFalse id
  | .closing _ _ => isFalse id

/-- How far a call is that is not over. -/
def Call.job? : Call → Option Job
  | .active job => some job
  | .over _ => none

/-- A call with a place is under way. -/
theorem Call.eq_of_job? {c : Call} {job : Job} (h : c.job? = some job) : c = .active job := by
  cases c with
  | active job' => exact congrArg Call.active (Option.some.inj h)
  | «over» r => cases h

theorem Restarts.nil : Restarts [] := nofun

theorem Restarts.cons {p : Phase} {next : List Phase} (hp : p.isRestart = true)
    (h : Restarts next) : Restarts (p :: next) :=
  List.forall_mem_cons.2 ⟨hp, h⟩

/-- A restart does not settle anything. -/
theorem Restarts.settle_notMem {next : List Phase} (h : Restarts next) : .settle ∉ next :=
  fun hp => by cases h _ hp

/-- A call that settles is carried out in parts. -/
theorem Job.Settles.exists_phased {job : Job} (h : job.Settles) :
    ∃ place next, job = .phased place next ∧ .settle ∈ next := by
  cases job with
  | phased place next => exact ⟨place, next, rfl, h⟩
  | _ => cases h

namespace World

def prompting (w : World) : Prompting := ⟨w.changing, w.log.filterMap Event.suggestion?⟩

/-- The suggestions that were made so far. -/
def suggestions (w : World) : List String := w.log.filterMap Event.suggestion?

/-- The call has announced a new default runtime, and has not settled. -/
def Changes (w : World) (i : Nat) : Prop :=
  ∃ job, w.calls[i]? = some (.active job) ∧ job.Settles

/-- The call settles, and is over. -/
def SettledAt (start : World) (ms : List Move) (n i : Nat) : Prop :=
  ∃ a b, start.Moment ms n a ∧ start.Moment ms (n + 1) b ∧ ms[n]? = some (.run (.call i)) ∧
    a.Changes i ∧ b.calls[i]? = some (.over .done)

variable (w : World)

/-! ## The parts of a call -/

/-- What takes no settings over leaves the flag as it is, and suggests nothing. -/
theorem Work.prompting {w v : World} (h : w.Work True v) : v.prompting = w.prompting := by
  obtain ⟨es, hes, hquiet⟩ := h.log
  have hnone : es.filterMap Event.suggestion? = [] := List.filterMap_eq_nil_iff.2 hquiet
  simp [World.prompting, hes, hnone, h.changing]

/-- The parts of a restart make no suggestion and leave the flag alone. -/
theorem runPhases_restart {next : List Phase} (h : Restarts next) :
    (w.runPhases next).Gives
      (fun v job => v.prompting = w.prompting ∧
        ∃ place rest, Restarts rest ∧ job = .phased place rest)
      fun v _ => v.prompting = w.prompting := by
  induction next generalizing w with
  | nil => rfl
  | cons p rest ih =>
    have hrest : Restarts rest := fun q hq => h q (List.mem_cons_of_mem _ hq)
    have hbegin : (w.beginPhase p).Ends (·.prompting = w.prompting) :=
      (w.beginPhase_works (h p List.mem_cons_self)).imp fun _ => Work.prompting
    rw [runPhases_cons]
    refine .andThen hbegin.gives (fun v place hv => ⟨hv, place, rest, hrest, rfl⟩) fun v r hv => ?_
    cases r with
    | aborted => exact hv
    | done =>
      have hnext := ih v hrest
      rwa [hv] at hnext

/-- What follows a restart that settles: it goes on, lowers the flag and is done, or breaks off. -/
def EndsChange (w v : World) (r : CallResult) : Prop :=
  (r = .done ∧ v.prompting = { w.prompting with changing := false }) ∨
    (r = .aborted ∧ v.prompting = w.prompting)

/-- The parts of a change go on, or end it. -/
theorem runPhases_settle {next : List Phase} (h : Restarts next) :
    (w.runPhases (next ++ [.settle])).Gives
      (fun v job => v.prompting = w.prompting ∧
        ∃ place rest, Restarts rest ∧ job = .phased place (rest ++ [.settle]))
      fun v r => w.EndsChange v r := by
  induction next generalizing w with
  | nil => exact .inl ⟨rfl, rfl⟩
  | cons p rest ih =>
    have hrest : Restarts rest := fun q hq => h q (List.mem_cons_of_mem _ hq)
    have hbegin : (w.beginPhase p).Ends (·.prompting = w.prompting) :=
      (w.beginPhase_works (h p List.mem_cons_self)).imp fun _ => Work.prompting
    rw [List.cons_append, runPhases_cons]
    refine .andThen hbegin.gives (fun v place hv => ⟨hv, place, rest, hrest, rfl⟩) fun v r hv => ?_
    cases r with
    | aborted => exact .inr ⟨rfl, hv⟩
    | done =>
      have hnext := ih v hrest
      simp only [EndsChange, hv] at hnext
      exact hnext

/-- Pieces of a restart leave the flag alone. -/
theorem phase_prompting (place : PhasePlace) :
    (w.phase place).Ends (·.prompting = w.prompting) :=
  (w.phase_works place).imp fun _ => Work.prompting

/-- A piece of a call that restarts the session. -/
theorem call_restart (place : PhasePlace) {next : List Phase} (h : Restarts next) :
    (w.call (.phased place next)).Gives
      (fun v job => v.prompting = w.prompting ∧
        ∃ place' rest, Restarts rest ∧ job = .phased place' rest)
      fun v _ => v.prompting = w.prompting := by
  rw [call_phased]
  refine .andThen (w.phase_prompting place).gives
    (fun v place' hv => ⟨hv, place', next, h, rfl⟩) fun v r hv => ?_
  cases r with
  | aborted => exact hv
  | done =>
    have hnext := v.runPhases_restart h
    rwa [hv] at hnext

/-- A piece of a call that has announced a runtime. -/
theorem call_settle (place : PhasePlace) {next : List Phase} (h : Restarts next) :
    (w.call (.phased place (next ++ [.settle]))).Gives
      (fun v job => v.prompting = w.prompting ∧
        ∃ place' rest, Restarts rest ∧ job = .phased place' (rest ++ [.settle]))
      fun v r => w.EndsChange v r := by
  rw [call_phased]
  refine .andThen (w.phase_prompting place).gives
    (fun v place' hv => ⟨hv, place', next, h, rfl⟩) fun v r hv => ?_
  cases r with
  | aborted => exact .inr ⟨rfl, hv⟩
  | done =>
    have hnext := v.runPhases_settle h
    simp only [EndsChange, hv] at hnext
    exact hnext

/-! ## Taking settings over -/

/-- During a change of the default, or while the session does not run, nothing is suggested. -/
theorem prompting_updateSettings_of_quiet {s : Settings}
    (h : w.changing = true ∨ w.status.isLive = false) :
    (w.updateSettings s).prompting = w.prompting := by
  unfold updateSettings
  simp only []
  split
  · rfl
  · rename_i hloud
    rcases h with h | h <;> simp [h] at hloud

/-- Otherwise a restart is suggested for a setting that needs one. -/
theorem prompting_updateSettings_of_live {s : Settings} (h : w.changing = false)
    (hs : w.status.isLive = true) :
    (w.updateSettings s).prompting =
      { w.prompting with
        suggested := w.suggestions ++ (coldChange? w.settings s).toList } := by
  unfold updateSettings
  simp only [h, hs, Bool.not_true, Bool.or_self, Bool.false_eq_true, if_false]
  cases coldChange? w.settings s with
  | none => simp [prompting, suggestions, h]
  | some setting =>
    simp [prompting, suggestions, record, Event.suggestion?, List.filterMap_append, h]

/-- A new default raises the flag. -/
theorem announceDefault_prompting (name : String) :
    (w.announceDefault name).prompting = { w.prompting with changing := true } := by
  have hpersist : ({ w with changing := true }.persistDefault name).prompting =
      { w.prompting with changing := true } :=
    (chore_persistDefault _ name).work.prompting
  have hraised : ({ w with changing := true }.persistDefault name).changing = true :=
    congrArg Prompting.changing hpersist
  exact (prompting_updateSettings_of_quiet _ (.inl hraised)).trans hpersist

/-- A stop does not end at once. -/
theorem beginStop_gives : w.beginStop.Gives (fun v _ => v.prompting = w.prompting)
    fun v r => r = .aborted ∧ v.prompting = w.prompting := by
  unfold beginStop
  cases w.status with
  | notStarted => rfl
  | stopping => cases w.beginWait? <;> first | rfl | exact ⟨rfl, rfl⟩
  | _ => exact (w.setStatus_work .stopping).prompting

/-- The first piece of a change of the default runtime raises the flag. -/
theorem call_change (name : String) :
    (w.call (.fresh (.changeDefault name))).Gives
      (fun v job => v.prompting = { w.prompting with changing := true } ∧
        ∃ place rest, Restarts rest ∧ job = .phased place (rest ++ [.settle]))
      fun v _ => v.prompting = { w.prompting with changing := true } := by
  have hannounce := w.announceDefault_prompting name
  have hstop := (w.announceDefault name).beginStop_gives
  rw [hannounce] at hstop
  have hcall : w.call (.fresh (.changeDefault name)) =
      (w.announceDefault name).runPhases [.stop, .start (some name), .settle] := rfl
  rw [hcall]
  unfold runPhases
  simp only [beginPhase]
  cases hpiece : (w.announceDefault name).beginStop with
  | blocked => trivial
  | going v place =>
    rw [hpiece] at hstop
    exact ⟨hstop, .stopping place, [.start (some name)], .cons rfl .nil, rfl⟩
  | finished v result =>
    rw [hpiece] at hstop
    obtain ⟨rfl, hv⟩ := hstop
    exact hv

/-! ## Moves -/

variable {w} {v : World} {i : Nat}

/-- A piece of a call that neither takes settings over nor changes the default. -/
theorem call_prompting {job : Job} (h : job.Orderly)
    (hupdate : ∀ s, job ≠ .fresh (.updateSettings s))
    (hchange : ∀ name, job ≠ .fresh (.changeDefault name))
    (hsettle : ¬job.Settles) :
    (w.call job).Ends (·.prompting = w.prompting) := by
  have hends {x : CallProgress} {P : Job → Prop}
      (hx : x.Gives (fun v job => v.prompting = w.prompting ∧ P job)
        fun v _ => v.prompting = w.prompting) : x.Ends (·.prompting = w.prompting) := by
    cases x with
    | blocked => trivial
    | going v job => exact hx.1
    | finished v r => exact hx
  have hplain {ps : List Phase} (hps : Restarts ps) :
      (w.runPhases ps).Ends (·.prompting = w.prompting) := hends (w.runPhases_restart hps)
  by_cases hphased : job.isPhased = false
  · exact (w.call_works hphased hupdate fun _ _ _ => trivial).imp fun _ =>
      Work.prompting
  · cases job with
    | fresh command =>
      cases command with
      | start => exact hplain (.cons rfl .nil)
      | stop => exact hplain (.cons rfl .nil)
      | restart name => exact hplain (.cons rfl (.cons rfl .nil))
      | changeDefault name => exact absurd rfl (hchange name)
      | _ => exact absurd rfl hphased
    | phased place next =>
      rcases h with hnext | ⟨rest, hrest, rfl⟩
      · exact hends (w.call_restart place hnext)
      · exact absurd (List.mem_append_right rest (List.mem_singleton_self _)) hsettle
    | _ => exact absurd rfl hphased

/-- What a piece of a call does to the flag or to the suggestions. -/
inductive Prompts (w : World) (i : Nat) (v : World) : Prop where
  | suggest {s : Settings} {setting : String}
      (hi : w.calls[i]? = some (.active (.fresh (.updateSettings s)))) (hc : w.changing = false)
      (hs : w.status.isLive = true) (hcold : coldChange? w.settings s = some setting)
      (h : v.prompting = { w.prompting with suggested := w.suggestions ++ [setting] })
  | raise {name : String} (hi : w.calls[i]? = some (.active (.fresh (.changeDefault name))))
      (h : v.prompting = { w.prompting with changing := true })
  | lower (hi : w.Changes i) (hover : v.calls[i]? = some (.over .done))
      (h : v.prompting = { w.prompting with changing := false })

/-- Everything that is under way is in order. -/
def Orderly (w : World) : Prop :=
  ∀ (i : Nat) (job : Job), w.calls[i]? = some (.active job) → job.Orderly

/-- What a piece of a call does with the flag and the suggestions is done by the move. -/
theorem prompting_of_ends {x : Prompting} {job : Job} (h : w.call? i = some v)
    (hi : w.calls[i]? = some (.active job)) (hends : (w.call job).Ends (·.prompting = x)) :
    v.prompting = x := by
  obtain ⟨job', hjob, hpiece⟩ := call?_cases h
  cases hi.symm.trans hjob
  rcases hpiece with ⟨u, job', hpiece, rfl⟩ | ⟨u, r, hpiece, rfl⟩ <;>
    (rw [hpiece] at hends; exact hends)

/-- A call that announces a default runtime raises the flag. -/
theorem prompting_of_change {name : String} (h : w.call? i = some v)
    (hi : w.calls[i]? = some (.active (.fresh (.changeDefault name)))) :
    v.prompting = { w.prompting with changing := true } := by
  refine prompting_of_ends h hi ?_
  have hgives := w.call_change name
  generalize w.call (.fresh (.changeDefault name)) = x at hgives ⊢
  cases x with
  | blocked => trivial
  | going u job => exact hgives.1
  | finished u r => exact hgives

/-- Settings that are taken over during a change of the default, or while the session does not run,
lead to no suggestion; otherwise they do if the session has to be restarted for them. -/
theorem prompting_of_update {s : Settings} (h : w.call? i = some v)
    (hi : w.calls[i]? = some (.active (.fresh (.updateSettings s)))) :
    v.prompting = (w.updateSettings s).prompting :=
  prompting_of_ends h hi rfl

/-- A call that has announced a runtime lowers the flag where it is done. -/
theorem prompting_of_settle (h : w.call? i = some v) (hi : w.Changes i) (ho : w.Orderly) :
    (v.prompting = w.prompting ∧ v.calls[i]? ≠ some (.over .done)) ∨
      (v.prompting = { w.prompting with changing := false } ∧
        v.calls[i]? = some (.over .done)) := by
  obtain ⟨job, hjob, hsettles⟩ := hi
  obtain ⟨place, next, rfl, hmem⟩ := hsettles.exists_phased
  obtain ⟨rest, hrest, rfl⟩ := (ho i _ hjob).resolve_left fun hnext => hnext.settle_notMem hmem
  have hgives := w.call_settle place hrest
  rcases piece_of_call? h hjob with ⟨u, job', hpiece, rfl, hcall⟩ | ⟨u, r, hpiece, rfl, hcall⟩ <;>
    rw [hpiece] at hgives
  · exact .inl ⟨hgives.1, by rw [hcall]; nofun⟩
  · rcases hgives with ⟨rfl, hu⟩ | ⟨rfl, hu⟩
    · exact .inr ⟨hu, hcall⟩
    · exact .inl ⟨hu, by rw [hcall]; nofun⟩

/-- What a piece of a call leads to. -/
theorem prompting_of_call? (h : w.call? i = some v) (ho : w.Orderly) :
    v.prompting = w.prompting ∨ w.Prompts i v := by
  obtain ⟨job, hjob, -⟩ := call?_cases h
  by_cases hupdate : ∃ s, job = .fresh (.updateSettings s)
  · obtain ⟨s, rfl⟩ := hupdate
    have hends := prompting_of_update h hjob
    by_cases hquiet : w.changing = true ∨ w.status.isLive = false
    · exact .inl (hends.trans (w.prompting_updateSettings_of_quiet hquiet))
    · simp only [not_or, Bool.not_eq_true, Bool.not_eq_false] at hquiet
      rw [w.prompting_updateSettings_of_live hquiet.1 hquiet.2] at hends
      cases hcold : coldChange? w.settings s with
      | none =>
        rw [hcold] at hends
        exact .inl (hends.trans (by simp [prompting, suggestions]))
      | some setting =>
        rw [hcold] at hends
        exact .inr (.suggest hjob hquiet.1 hquiet.2 hcold hends)
  by_cases hchange : ∃ name, job = .fresh (.changeDefault name)
  · obtain ⟨name, rfl⟩ := hchange
    exact .inr (.raise hjob (prompting_of_change h hjob))
  by_cases hsettle : job.Settles
  · have hchanges : w.Changes i := ⟨job, hjob, hsettle⟩
    rcases prompting_of_settle h hchanges ho with ⟨hv, -⟩ | ⟨hv, hover⟩
    · exact .inl hv
    · exact .inr (.lower hchanges hover hv)
  · refine .inl (prompting_of_ends h hjob ?_)
    exact call_prompting (ho i job hjob) (fun s hs => hupdate ⟨s, hs⟩)
      (fun name hname => hchange ⟨name, hname⟩) hsettle

/-- What a move does to the flag and to the suggestions. -/
theorem prompting_of_move? {m : Move} (h : w.move? m = some v) (hm : m.ofSession = true)
    (ho : w.Orderly) :
    v.prompting = w.prompting ∨ ∃ i, m = .run (.call i) ∧ w.Prompts i v := by
  cases moves_of_move? h with
  | @run r _ hstep =>
    cases r with
    | call i => exact (prompting_of_call? hstep ho).imp id fun hp => ⟨i, rfl, hp⟩
    | exit c =>
      obtain ⟨k, q, e, -, -, -, -, -, rfl⟩ := passOn?_cases hstep
      exact .inl rfl
    | watch j => exact .inl (watch?_work hstep).prompting
    | reading c | writing c =>
      obtain ⟨a, k, b, k', -, -, -, rfl⟩ := onWire?_cases hstep
      exact .inl rfl
    | pump k => exact .inl (pump?_work hstep).prompting
  | perform hperform =>
    obtain ⟨job, u, job', -, hwork, rfl⟩ := perform?_cases hperform
    have hu : u.prompting = w.prompting := (performJob_work hwork).prompting
    exact .inl hu
  | heed => exact .inl (w.chore_heed _ _).work.prompting
  | ask | answerLaunch | endConsole | answerConnection | answerInquiry | take | send | silence
  | sever | writeFile | elapse | changeStore | letGo => exact .inl rfl
  | dissolve => cases hm

/-! ## Everything is in order -/

/-- A piece of anything but a restart or a change of the default does not come to a part of one. -/
theorem call_unphased {job : Job} (h : job.isPhased = false) :
    (w.call job).Goes (·.isPhased = false) := by
  have hwrap {σ α : Type} {x : Progress World σ α} {wrap : σ → Job}
      {next : World → α → CallProgress} (hw : ∀ s, (wrap s).isPhased = false)
      (hnext : ∀ u a, (next u a).Goes (·.isPhased = false)) :
      (x.andThen wrap next).Goes (·.isPhased = false) := by
    cases x with
    | blocked => trivial
    | going u s => exact hw s
    | finished u a => exact hnext u a
  cases job with
  | fresh command =>
    cases command with
    | start | stop | restart | changeDefault => cases h
    | startDebug | launch =>
      simp only [call, beginCall]
      exact hwrap (fun _ => rfl) fun _ _ => trivial
    | openClient | askVersion | closeClient =>
      simp only [call, beginCall, beginExchange]
      split
      · trivial
      · rfl
    | stopDebug => exact (rfl : Job.endingDebug.isPhased = false)
    | _ => trivial
  | phased place next => cases h
  | endingDebug => trivial
  | opening c place =>
    simp only [call]
    refine hwrap (fun _ => rfl) fun u r => ?_
    unfold endOpening
    split <;> trivial
  | debugging | launching | asking | closing =>
    simp only [call]
    exact hwrap (fun _ => rfl) fun _ _ => trivial

/-- A piece of a call leaves the parts that follow in order, and only a change of the default comes
to a settling. -/
theorem call_orderly {job : Job} (h : job.Orderly) :
    (w.call job).Goes fun job' => job'.Orderly ∧ (job'.Settles →
      (∃ name, job = .fresh (.changeDefault name)) ∨ job.Settles) := by
  have hplain {x : CallProgress} {P : Prop} {Q : World → Prop} {R : World → CallResult → Prop}
      (hx : x.Gives (fun v job' => Q v ∧ ∃ place rest, Restarts rest ∧ job' = .phased place rest)
        R) : x.Goes fun job' => job'.Orderly ∧ (job'.Settles → P) := by
    cases x with
    | going v job' =>
      obtain ⟨-, place, rest, hrest, rfl⟩ := hx
      exact ⟨.inl hrest, fun hmem => absurd hmem hrest.settle_notMem⟩
    | _ => trivial
  have hsettling {x : CallProgress} {P : Prop} {Q : World → Prop}
      {R : World → CallResult → Prop} (hP : P)
      (hx : x.Gives (fun v job' => Q v ∧
        ∃ place rest, Restarts rest ∧ job' = .phased place (rest ++ [Phase.settle])) R) :
      x.Goes fun job' => job'.Orderly ∧ (job'.Settles → P) := by
    cases x with
    | going v job' =>
      obtain ⟨-, place, rest, hrest, rfl⟩ := hx
      exact ⟨.inr ⟨rest, hrest, rfl⟩, fun _ => hP⟩
    | _ => trivial
  by_cases hphased : job.isPhased = false
  · refine (call_unphased hphased).imp fun job' hjob' => ?_
    cases job' with
    | phased place next => cases hjob'
    | _ => exact ⟨trivial, False.elim⟩
  cases job with
  | fresh command =>
    cases command with
    | start | stop => exact hplain (w.runPhases_restart (.cons rfl .nil))
    | restart name => exact hplain (w.runPhases_restart (.cons rfl (.cons rfl .nil)))
    | changeDefault name => exact hsettling (.inl ⟨name, rfl⟩) (w.call_change name)
    | _ => exact absurd rfl hphased
  | phased place next =>
    rcases h with hnext | ⟨rest, hrest, rfl⟩
    · exact hplain (w.call_restart place hnext)
    · refine hsettling (.inr ?_) (w.call_settle place hrest)
      exact List.mem_append_right rest (List.mem_singleton_self _)
  | _ => exact absurd rfl hphased

/-- The file system's work leaves the parts that follow as they are. -/
theorem performJob_orderly {job job' : Job} {u : World} (h : w.performJob job = some (u, job'))
    (ho : job.Orderly) : job'.Orderly ∧ (job'.Settles → job.Settles) := by
  cases performJob_prepares h <;> exact ⟨ho, id⟩

/-- What is under way stays in order. -/
theorem Orderly.move {m : Move} (ho : w.Orderly) (h : w.move? m = some v)
    (hm : m.ofSession = true) : v.Orderly := by
  intro i job hi
  rcases job_of_move? h hm hi with hsame | ⟨command, -, rfl, -⟩ | ⟨job₀, hjob₀, hpiece⟩
  · exact ho i job hsame
  · trivial
  · rcases hpiece with ⟨u, -, hgoes⟩ | ⟨u, hperform⟩
    · have hnext := call_orderly (w := w) (ho i job₀ hjob₀)
      rw [hgoes] at hnext
      exact hnext.1
    · exact (performJob_orderly hperform (ho i job₀ hjob₀)).1

/-- What will settle would have before, or has just announced a runtime. -/
theorem Changes.back {m : Move} (hi : v.Changes i) (ho : w.Orderly) (h : w.move? m = some v)
    (hm : m.ofSession = true) :
    w.Changes i ∨
      ∃ name, m = .run (.call i) ∧ w.calls[i]? = some (.active (.fresh (.changeDefault name))) := by
  obtain ⟨job, hjob, hsettles⟩ := hi
  rcases job_of_move? h hm hjob with hsame | ⟨command, -, rfl, -⟩ | ⟨job₀, hjob₀, hpiece⟩
  · exact .inl ⟨job, hsame, hsettles⟩
  · cases hsettles
  · rcases hpiece with ⟨u, hrun, hgoes⟩ | ⟨u, hperform⟩
    · have hnext := call_orderly (w := w) (ho i job₀ hjob₀)
      rw [hgoes] at hnext
      rcases hnext.2 hsettles with ⟨name, rfl⟩ | hbefore
      · exact .inr ⟨name, hrun, hjob₀⟩
      · exact .inl ⟨job₀, hjob₀, hbefore⟩
    · exact .inl ⟨job₀, hjob₀, (performJob_orderly hperform (ho i job₀ hjob₀)).2 hsettles⟩

/-! ## The flag and the changes under way -/

variable {start a b : World} {ms : List Move} {n k j : Nat}

namespace Life

/-- All through a life the calls are orderly. -/
theorem orderly (h : Life start ms w) : w.Orderly := by
  have hstart : start.Orderly := by
    intro i job hi
    rw [h.fresh.calls] at hi
    cases hi
  exact h.induction (P := Orderly) (fun hm hmove _ ho => ho.move hmove hm)
    ⟨Nat.zero_le _, rfl⟩ h.last (Nat.zero_le _) hstart

/-- An announcement raises the flag. -/
theorem changing_of_announced {x : Naming} (hx : start.Announced ms n x)
    (hb : start.Moment ms (n + 1) b) : b.changing = true := by
  obtain ⟨v, hv, hm, hi⟩ := hx
  obtain ⟨m, hm', hmove⟩ := hv.step hb
  obtain rfl : m = .run (.call x.call) := Option.some.inj (hm'.symm.trans hm)
  exact congrArg Prompting.changing (prompting_of_change hmove hi)

/-- A settling lowers it. -/
theorem changing_of_settled (h : Life start ms w) (hi : start.SettledAt ms n i)
    (hb : start.Moment ms (n + 1) b) : b.changing = false := by
  obtain ⟨v, u, hv, hu, hm, hchanges, hover⟩ := hi
  obtain rfl := hb.unique hu
  obtain ⟨m, hm', hmove⟩ := hv.step hb
  obtain rfl : m = .run (.call i) := Option.some.inj (hm'.symm.trans hm)
  rcases prompting_of_settle hmove hchanges (h.moment hv).orderly with ⟨-, hnot⟩ | ⟨hv', -⟩
  · exact absurd hover hnot
  · exact congrArg Prompting.changing hv'

/-- Nothing else changes it. -/
theorem changing_stays (h : Life start ms w) (ha : start.Moment ms n a)
    (hb : start.Moment ms (n + 1) b) (hannounced : ∀ x, ¬start.Announced ms n x)
    (hsettled : ∀ i, ¬start.SettledAt ms n i) : b.changing = a.changing := by
  obtain ⟨m, hm, hmove⟩ := ha.step hb
  rcases prompting_of_move? hmove (h.ofSession m (List.mem_of_getElem? hm)) (h.moment ha).orderly
    with hsame | ⟨i, rfl, hprompts⟩
  · exact congrArg Prompting.changing hsame
  · cases hprompts with
    | suggest hi hc hs hcold hv => exact congrArg Prompting.changing hv
    | @raise name hi hv => exact absurd ⟨a, ha, hm, hi⟩ (hannounced ⟨i, name⟩)
    | lower hi hover hv => exact absurd ⟨a, b, ha, hb, hm, hi, hover⟩ (hsettled i)

/-- A call that is to settle has announced a runtime. -/
theorem announced_of_changes (h : Life start ms w) (hn : start.Moment ms n v)
    (hi : v.Changes i) : ∃ k x, k < n ∧ x.call = i ∧ start.Announced ms k x := by
  induction n generalizing v with
  | zero =>
    obtain rfl : start = v := Option.some.inj hn.2
    obtain ⟨job, hjob, -⟩ := hi
    rw [h.fresh.calls] at hjob
    cases hjob
  | succ n ih =>
    obtain ⟨a, ha⟩ := hn.pred
    obtain ⟨m, hm, hmove⟩ := ha.step hn
    rcases hi.back (h.moment ha).orderly hmove (h.ofSession m (List.mem_of_getElem? hm)) with
      hbefore | ⟨name, rfl, hfresh⟩
    · obtain ⟨k, x, hk, hx, hannounced⟩ := ih ha hbefore
      exact ⟨k, x, Nat.lt_succ_of_lt hk, hx, hannounced⟩
    · exact ⟨n, ⟨i, name⟩, Nat.lt_succ_self n, rfl, a, ha, hm, hfresh⟩

/-- When the flag is down after an announcement, a call has settled, and none has announced
anything since. -/
theorem settled_since (h : Life start ms w) {x : Naming} (hx : start.Announced ms k x) (hk : k < n)
    (hn : start.Moment ms n v) (hv : v.changing = false) :
    ∃ d i, k < d ∧ d < n ∧ start.SettledAt ms d i ∧
      ∀ d' y, d < d' → d' < n → ¬start.Announced ms d' y := by
  induction n generalizing v with
  | zero => cases hk
  | succ n ih =>
    obtain ⟨a, ha⟩ := hn.pred
    have hnone : ∀ y, ¬start.Announced ms n y := by
      intro y hy
      rw [changing_of_announced hy hn] at hv
      cases hv
    have hkn : k < n := by
      rcases Nat.lt_or_eq_of_le (Nat.le_of_lt_succ hk) with hlt | rfl
      · exact hlt
      · exact absurd hx (hnone x)
    by_cases hsettled : ∃ i, start.SettledAt ms n i
    · obtain ⟨i, hi⟩ := hsettled
      exact ⟨n, i, hkn, Nat.lt_succ_self n, hi, fun d' _ hd hd' => by omega⟩
    · rw [h.changing_stays ha hn hnone (not_exists.1 hsettled)] at hv
      obtain ⟨d, i, hkd, hdn, hi, hlast⟩ := ih hkn ha hv
      refine ⟨d, i, hkd, Nat.lt_succ_of_lt hdn, hi, fun d' y hd hd' => ?_⟩
      rcases Nat.lt_or_eq_of_le (Nat.le_of_lt_succ hd') with hlt | rfl
      · exact hlast d' y hd hlt
      · exact hnone y

/-- When a call has settled, and none has announced anything since, the flag is down. -/
theorem lowered_since (h : Life start ms w) (hi : start.SettledAt ms k i) (hk : k < n)
    (hlast : ∀ d y, k < d → d < n → ¬start.Announced ms d y) (hn : start.Moment ms n v) :
    v.changing = false := by
  induction n generalizing v with
  | zero => cases hk
  | succ n ih =>
    obtain ⟨a, ha⟩ := hn.pred
    by_cases hsettled : ∃ j, start.SettledAt ms n j
    · obtain ⟨j, hj⟩ := hsettled
      exact h.changing_of_settled hj hn
    · have hkn : k < n := by
        rcases Nat.lt_or_eq_of_le (Nat.le_of_lt_succ hk) with hlt | rfl
        · exact hlt
        · exact absurd ⟨i, hi⟩ hsettled
      have hsame := h.changing_stays ha hn (fun y => hlast n y hkn (Nat.lt_succ_self n))
        (not_exists.1 hsettled)
      rw [hsame]
      exact ih hkn (fun d y hkd hdn => hlast d y hkd (Nat.lt_succ_of_lt hdn)) ha

/-- A call that has settled is over. -/
theorem not_changes_of_settled (h : Life start ms w) (hi : start.SettledAt ms k i) (hk : k < n)
    (hn : start.Moment ms n v) : ¬v.Changes i := by
  obtain ⟨-, b, -, hb, -, -, hover⟩ := hi
  have hstays : v.calls[i]? = some (.over .done) :=
    h.induction (P := fun u => u.calls[i]? = some (.over .done))
      (fun hm hmove _ hu => over_of_move? hmove hm hu) hb hn hk hover
  rintro ⟨job, hjob, -⟩
  cases hstays.symm.trans hjob

/-- While a call changes the default runtime, a restart is suggested only if another call that has
overlapped with it has settled, and none has announced a runtime since: then settings that a live
session has to be restarted for lead to a suggestion. -/
theorem suggested_iff (h : Life start ms w) (ha : start.Moment ms n a)
    (hb : start.Moment ms (n + 1) b) (hj : a.Changes j) :
    b.suggestions ≠ a.suggestions ↔
      (∃ i s, start.TakesPiece ms n i (.fresh (.updateSettings s)) ∧ a.status.isLive = true ∧
        (coldChange? a.settings s).isSome = true) ∧
      ∃ k d i x, k < d ∧ d < n ∧ x.call = j ∧ start.Announced ms k x ∧ i ≠ j ∧
        start.SettledAt ms d i ∧ ∀ d' y, d < d' → d' < n → ¬start.Announced ms d' y := by
  obtain ⟨m, hm, hmove⟩ := ha.step hb
  constructor
  · intro hne
    rcases prompting_of_move? hmove (h.ofSession m (List.mem_of_getElem? hm)) (h.moment ha).orderly
      with hsame | ⟨i, rfl, hprompts⟩
    · exact absurd (congrArg Prompting.suggested hsame) hne
    · cases hprompts with
      | raise hi hv => exact absurd (congrArg Prompting.suggested hv) hne
      | lower hi hover hv => exact absurd (congrArg Prompting.suggested hv) hne
      | @suggest s setting hi hc hs hcold hv =>
        obtain ⟨k, x, hk, hx, hannounced⟩ := h.announced_of_changes ha hj
        obtain ⟨d, i', hkd, hdn, hi', hlast⟩ := h.settled_since hannounced hk ha hc
        refine ⟨⟨i, s, ⟨a, ha, hm, hi⟩, hs, by rw [hcold]; rfl⟩, k, d, i', x, hkd, hdn, hx,
          hannounced, ?_, hi', hlast⟩
        rintro rfl
        exact h.not_changes_of_settled hi' hdn ha hj
  · rintro ⟨⟨i, s, ⟨v, hv, hm', hi⟩, hs, hcold⟩, k, d, i', x, -, hdn, -, -, -, hi', hlast⟩
    obtain rfl := ha.unique hv
    obtain rfl : m = .run (.call i) := Option.some.inj (hm.symm.trans hm')
    have hc := h.lowered_since hi' hdn hlast ha
    obtain ⟨setting, hsetting⟩ := Option.isSome_iff_exists.1 hcold
    have hb' := prompting_of_update hmove hi
    rw [prompting_updateSettings_of_live a hc hs, hsetting] at hb'
    intro heq
    have hlonger : b.suggestions = a.suggestions ++ [setting] :=
      congrArg Prompting.suggested hb'
    rw [heq] at hlonger
    simpa using congrArg List.length hlonger

end Life

/-- Two callers change the default runtime at once.  The second one waits for the first one's start,
which comes to its end; then somebody changes the settings. -/
def Trial.interfering : List Move :=
  Trial.changing.take 6 ++ Trial.launching.drop 2 ++ Trial.connecting ++
    [.ask (.updateSettings
      { defaultVersion := some "PowerShell Preview", developer := { traceLanguage := true } }),
      .run (.call 2)]

/-- A restart is suggested although the second change is still under way. -/
theorem suggested_iff_trial :
    ∃ w a b, Trial.start.Life Trial.interfering w ∧ Trial.start.Moment Trial.interfering 35 a ∧
      Trial.start.Moment Trial.interfering 36 b ∧ a.Changes 1 ∧ b.suggestions ≠ a.suggestions ∧
      ∃ k d i x, k < d ∧ d < 35 ∧ x.call = 1 ∧ Trial.start.Announced Trial.interfering k x ∧
        i ≠ 1 ∧ Trial.start.SettledAt Trial.interfering d i := by
  have hrun : (Trial.start.play? Trial.interfering).isSome = true := by decide +kernel
  obtain ⟨w, hplay⟩ := Option.isSome_iff_exists.1 hrun
  have hlife := Trial.life hplay (by decide)
  obtain ⟨a, ha⟩ := hlife.exists_moment (n := 35) (by decide)
  obtain ⟨b, hb⟩ := hlife.exists_moment (n := 36) (by decide)
  have hbefore : (Trial.start.play? (Trial.interfering.take 35)).any (fun a =>
      decide (a.suggestions = []) && a.calls[1]?.any fun c =>
        c.job?.any fun job => decide job.Settles) = true := by decide +kernel
  rw [ha.2, Option.any_some] at hbefore
  simp only [Bool.and_eq_true, decide_eq_true_eq, Option.any_eq_true] at hbefore
  obtain ⟨hnone, c, hc, job, hjob, hsettles⟩ := hbefore
  obtain rfl := Call.eq_of_job? hjob
  have hchanges : a.Changes 1 := ⟨job, hc, hsettles⟩
  have hafter : (Trial.start.play? (Trial.interfering.take 36)).any (fun b =>
      decide (b.suggestions ≠ [])) = true := by decide +kernel
  rw [hb.2, Option.any_some, decide_eq_true_eq, ← hnone] at hafter
  obtain ⟨-, k, d, i, x, hkd, hdn, hx, hannounced, hi, hsettled, -⟩ :=
    (hlife.suggested_iff ha hb hchanges).1 hafter
  exact ⟨w, a, b, hlife, ha, hb, hchanges, hafter, k, d, i, x, hkd, hdn, hx, hannounced, hi,
    hsettled⟩

end World

end SessionHost
