import SessionHost.Proofs.Ledger.Renewal
import SessionHost.Proofs.Lifecycle.Moments

/-!
# The default runtime and the one that runs

Every change of the default runtime writes its name into the settings at once, but a call that
finds a stop or a start of another one under way waits for it and may return without a start of
its own.  So the call that has announced its name last need not be the one whose runtime was
recorded last.

Main definitions:

- `asked`: the commands that were given, in their order.
- `Latest`: what has happened last before a moment.
- `World.Announced`, `World.Recorded`: a call announces its name, and records its runtime.

Main results:

- Theorem `World.Story.step`: a move continues the story of announcements and records.
- Theorem `World.Life.default_agrees_iff`: the session runs its default runtime if and only if the
  same runtime is chosen for the two names.
-/

namespace SessionHost

/-! ## What has happened last -/

section

variable {α : Type} {P : Nat → α → Prop} {Q R : α → Prop} {n : Nat} {a : α}

/-- Something of the kind has happened before the moment. -/
def Before (P : Nat → α → Prop) (n : Nat) : Prop := ∃ k < n, ∃ a, P k a

/-- This is what has happened last before a moment. -/
def Latest (P : Nat → α → Prop) (n : Nat) (a : α) : Prop :=
  ∃ k < n, P k a ∧ ∀ k' b, P k' b → k' < n → k' ≤ k

/-- Once anything has happened, what has happened last has the property. -/
def Reflects (P : Nat → α → Prop) (n : Nat) (Q : α → Prop) : Prop :=
  Before P n → ∃ a, Latest P n a ∧ Q a

theorem Before.later (h : Before P n) : Before P (n + 1) := by
  obtain ⟨k, hk, ha⟩ := h
  exact ⟨k, Nat.lt_succ_of_lt hk, ha⟩

/-- What happens now has happened before the next moment. -/
theorem Before.now (h : P n a) : Before P (n + 1) :=
  ⟨n, Nat.lt_succ_self n, a, h⟩

/-- What happens now is the last thing. -/
theorem Reflects.now (h : P n a) (ha : Q a) : Reflects P (n + 1) Q :=
  fun _ => ⟨a, ⟨n, Nat.lt_succ_self n, h, fun _ _ _ hk => Nat.le_of_lt_succ hk⟩, ha⟩

/-- When nothing happens, the last thing stays the same. -/
theorem Reflects.later (h : Reflects P n Q) (hn : ∀ a, ¬P n a) (hQR : ∀ a, Q a → R a) :
    Reflects P (n + 1) R := by
  have hlt : ∀ {k : Nat} {a : α}, P k a → k < n + 1 → k < n := by
    intro k a hk hle
    rcases Nat.lt_succ_iff_lt_or_eq.1 hle with hlt | rfl
    · exact hlt
    · exact absurd hk (hn a)
  rintro ⟨k, hk, b, hb⟩
  obtain ⟨a, ⟨k, hkn, hka, hlast⟩, ha⟩ := h ⟨k, hlt hb hk, b, hb⟩
  refine ⟨a, ⟨k, Nat.lt_succ_of_lt hkn, hka, fun k' b hb hk' => ?_⟩, hQR a ha⟩
  exact hlast k' b hb (hlt hb hk')

end

/-! ## What was asked for -/

/-- The command that a caller gives. -/
def Move.command? : Move → Option Command
  | .ask command => some command
  | _ => none

/-- The commands that were given, in their order. -/
def asked (ms : List Move) : List Command := ms.filterMap Move.command?

/-- Nothing but changes of the default runtime is asked for. -/
def OnlyChanges (ms : List Move) : Prop :=
  ∀ command ∈ asked ms, ∃ name, command = .changeDefault name

section

variable {ms : List Move} {m : Move} {n i : Nat} {command : Command}

theorem asked_take_succ (hm : ms[n]? = some m) :
    asked (ms.take (n + 1)) = asked (ms.take n) ++ m.command?.toList := by
  rw [asked, List.take_add_one, hm, List.filterMap_append]
  simp only [Option.toList_some, List.filterMap_cons, List.filterMap_nil]
  cases m.command? <;> rfl

/-- What was asked for so far was asked for. -/
theorem asked_of_take (h : (asked (ms.take n))[i]? = some command) :
    (asked ms)[i]? = some command := by
  rw [← List.take_append_drop n ms, asked, List.filterMap_append]
  exact (List.getElem?_append_left (List.getElem?_eq_some_iff.1 h).1).trans h

end

/-- A call, and the name that it was asked to make the default one. -/
structure Naming where
  call : Nat
  name : String

namespace World

variable {start v w : World} {ms : List Move} {m : Move} {n i : Nat} {job : Job} {name : String}

/-! ## Announcements and records -/

/-- The call takes a piece at this moment of the session. -/
def TakesPiece (start : World) (ms : List Move) (n i : Nat) (job : Job) : Prop :=
  ∃ v, start.Moment ms n v ∧ ms[n]? = some (.run (.call i)) ∧ v.calls[i]? = some (.active job)

/-- The call announces its name as the default one. -/
def Announced (start : World) (ms : List Move) (n : Nat) (x : Naming) : Prop :=
  start.TakesPiece ms n x.call (.fresh (.changeDefault x.name))

/-- The call records the runtime of its start. -/
def Recorded (start : World) (ms : List Move) (n : Nat) (x : Naming) : Prop :=
  (asked ms)[x.call]? = some (.changeDefault x.name) ∧
    ∃ job, start.TakesPiece ms n x.call job ∧ job.runtime?.isSome = true

/-- At every moment one call takes one piece. -/
theorem TakesPiece.unique {i' : Nat} {job' : Job} (h : start.TakesPiece ms n i job)
    (h' : start.TakesPiece ms n i' job') : i' = i ∧ job' = job := by
  obtain ⟨v, hv, hm, hi⟩ := h
  obtain ⟨v', hv', hm', hi'⟩ := h'
  obtain rfl := hv.unique hv'
  rw [hm] at hm'
  cases hm'
  rw [hi] at hi'
  cases hi'
  exact ⟨rfl, rfl⟩

/-! ## What calls have come to -/

/-- Calls are made by asking for them. -/
theorem length_calls_of_move? (h : w.move? m = some v) (hm : m.ofSession = true) :
    v.calls.length = w.calls.length + m.command?.toList.length := by
  by_cases hask : ∃ command, m = .ask command
  · obtain ⟨command, rfl⟩ := hask
    cases moves_of_move? h
    exact List.length_append
  · have hnone : m.command? = none := by
      cases m <;> first | rfl | exact absurd ⟨_, rfl⟩ hask
    rw [hnone]
    have hchange := move?_change h hm
    change v.ledger.calls.length = w.ledger.calls.length
    generalize v.ledger = l at hchange
    cases hchange with
    | ask command hm' => exact absurd ⟨command, hm'⟩ hask
    | call _ _ hw => rw [List.length_set, hw.calls_eq]
    | perform => exact List.length_set
    | release _ _ _ hl | report _ _ _ hl => exact congrArg List.length hl.calls_eq
    | still | fall | ignore | busy | idle | pump => rfl

/-- Before a call was where it is, it was there already, was asked for, took a piece, or had the
file system's work done. -/
theorem job_of_move? (h : w.move? m = some v) (hm : m.ofSession = true)
    (hi : v.calls[i]? = some (.active job)) :
    w.calls[i]? = some (.active job) ∨
      (∃ command, m = .ask command ∧ job = .fresh command ∧ i = w.calls.length) ∨
      ∃ job₀, w.calls[i]? = some (.active job₀) ∧
        ((∃ u, m = .run (.call i) ∧ w.call job₀ = .going u job) ∨
          ∃ u, w.performJob job₀ = some (u, job)) := by
  -- An entry that was set is the call's own one, or the call's entry is as before.
  have hset : ∀ {l : List Call} {k : Nat} {c : Call}, l = w.calls →
      (l.set k c)[i]? = some (.active job) →
        k = i ∧ c = .active job ∨ w.calls[i]? = some (.active job) := by
    intro l k c hl hc
    subst hl
    by_cases hki : k = i
    · subst hki
      rw [List.getElem?_set_self'] at hc
      cases hk : w.calls[k]? <;> rw [hk] at hc <;> cases hc
      exact .inl ⟨rfl, rfl⟩
    · exact .inr (by rwa [List.getElem?_set_ne hki] at hc)
  by_cases hcall : ∃ k, m = .run (.call k)
  · obtain ⟨k, rfl⟩ := hcall
    obtain ⟨job₀, hk, ⟨u, job', hgoes, rfl⟩ | ⟨u, r, hgoes, rfl⟩⟩ := call?_cases h
    · have hu := w.call_calls job₀
      rw [hgoes] at hu
      rcases hset hu hi with ⟨rfl, heq⟩ | hw
      · cases heq
        exact .inr (.inr ⟨job₀, hk, .inl ⟨u, rfl, hgoes⟩⟩)
      · exact .inl hw
    · have hu := w.call_calls job₀
      rw [hgoes] at hu
      rcases hset hu hi with ⟨-, heq⟩ | hw
      · cases heq
      · exact .inl hw
  by_cases hperform : ∃ k, m = .perform k
  · obtain ⟨k, rfl⟩ := hperform
    obtain ⟨job₀, u, job', hk, hwork, rfl⟩ := perform?_cases h
    have hu : u.calls = w.calls := congrArg Ledger.calls (performJob_ledger hwork)
    rcases hset hu hi with ⟨rfl, heq⟩ | hw
    · cases heq
      exact .inr (.inr ⟨job₀, hk, .inr ⟨u, hwork⟩⟩)
    · exact .inl hw
  have hchange := move?_change h hm
  change v.ledger.calls[i]? = some (.active job) at hi
  generalize v.ledger = l at hchange hi
  cases hchange with
  | call hm' => exact absurd ⟨_, hm'⟩ hcall
  | perform hm' => exact absurd ⟨_, hm'⟩ hperform
  | ask command hm' =>
    change (w.calls ++ [.active (.fresh command)])[i]? = _ at hi
    rcases Nat.lt_or_ge i w.calls.length with hlt | hge
    · exact .inl ((List.getElem?_append_left hlt).symm.trans hi)
    · rw [List.getElem?_append_right hge, List.getElem?_singleton] at hi
      split at hi <;> cases hi
      exact .inr (.inl ⟨command, hm', rfl, by omega⟩)
  | release _ _ _ hl | report _ _ _ hl =>
    have hcalls : _ = w.calls := hl.calls_eq
    exact .inl (hcalls ▸ hi)
  | still | fall | ignore | busy | idle | pump => exact .inl hi

/-! ## The story -/

/-- How far a call is that makes the name the default one: it is about to announce it, or it
restarts the session for it. -/
def Progresses (start : World) (ms : List Move) (n : Nat) (name : String) (job : Job) : Prop :=
  job = .fresh (.changeDefault name) ∨
    job.IsFor start name (Before (start.Recorded ms) n) ∧ Before (start.Announced ms) n

/-- How far all calls are that were made before a moment. -/
structure Efforts (start : World) (ms : List Move) (n : Nat) (v : World) : Prop where
  length : v.calls.length = (asked (ms.take n)).length
  active : ∀ {i : Nat} {job : Job}, v.calls[i]? = some (.active job) →
    ∃ name, (asked ms)[i]? = some (.changeDefault name) ∧ start.Progresses ms n name job

/-- What was announced and recorded before a moment, and how far the calls are. -/
structure Story (start : World) (ms : List Move) (n : Nat) (v : World) : Prop where
  choices : v.ChoosesLike start
  efforts : Efforts start ms n v
  announced : Reflects (start.Announced ms) n fun x => v.settings.defaultVersion = some x.name
  recorded : Reflects (start.Recorded ms) n fun x => v.session.executable = start.pick x.name
  process : v.session.process ≠ none → Before (start.Recorded ms) n

/-- A new call is about to announce, and the other ones go on with their restarts. -/
theorem Efforts.step (s : Efforts start ms n v) (hv : v.ChoosesLike start) (honly : OnlyChanges ms)
    (hn : start.Moment ms n v) (hm : ms[n]? = some m) (hof : m.ofSession = true)
    (hmove : v.move? m = some w) : Efforts start ms (n + 1) w where
  length := by
    rw [length_calls_of_move? hmove hof, asked_take_succ hm, List.length_append, s.length]
  active {i job} hi := by
    rcases job_of_move? hmove hof hi with hbefore | ⟨command, rfl, rfl, rfl⟩ | ⟨job₀, hjob₀, hpiece⟩
    · obtain ⟨name, hname, hjob⟩ := s.active hbefore
      exact ⟨name, hname, hjob.imp id fun ⟨hfor, hbefore⟩ => ⟨hfor.imp .later, hbefore.later⟩⟩
    · have hasked : (asked ms)[v.calls.length]? = some command := by
        refine asked_of_take (n := n + 1) ?_
        rw [asked_take_succ hm, s.length]
        exact List.getElem?_concat_length
      obtain ⟨name, rfl⟩ := honly command (List.mem_of_getElem? hasked)
      exact ⟨name, hasked, .inl rfl⟩
    · obtain ⟨name, hname, rfl | ⟨hfor, hbefore⟩⟩ := s.active hjob₀
      · rcases hpiece with ⟨u, rfl, hgoes⟩ | ⟨u, hwork⟩
        · have hnext : (v.call (.fresh (.changeDefault name))).Goes
              (Job.IsFor start name (Before (start.Recorded ms) (n + 1))) := change_isFor hv
          rw [hgoes] at hnext
          exact ⟨name, hname, .inr ⟨hnext, .now (a := ⟨i, name⟩) ⟨v, hn, hm, hjob₀⟩⟩⟩
        · cases hwork
      · rcases hpiece with ⟨u, rfl, hgoes⟩ | ⟨u, hwork⟩
        · have hnext := call_isFor (Q := Before (start.Recorded ms) (n + 1)) hv hfor .later
            fun exe hexe => .now (a := ⟨i, name⟩)
              ⟨hname, job₀, ⟨v, hn, hm, hjob₀⟩, by rw [hexe]; rfl⟩
          rw [hgoes] at hnext
          exact ⟨name, hname, .inr ⟨hnext, hbefore.later⟩⟩
        · exact ⟨name, hname, .inr ⟨(performJob_isFor hwork hfor).imp .later, hbefore.later⟩⟩

namespace Story

/-- The story goes on as it was while nothing is announced and nothing recorded. -/
theorem step_of_steady {A : Prop} (s : Story start ms n v) (he : Efforts start ms (n + 1) w)
    (h : Steady A v.ledger w.ledger) (hA : A → Before (start.Recorded ms) n)
    (hannounced : ∀ x, ¬start.Announced ms n x) (hrecorded : ∀ x, ¬start.Recorded ms n x) :
    Story start ms (n + 1) w where
  choices := s.choices.of_steady h
  efforts := he
  announced := s.announced.later hannounced fun _ hx =>
    (congrArg Settings.defaultVersion h.settings).trans hx
  recorded := s.recorded.later hrecorded fun _ hx => h.executable.trans hx
  process hp := ((h.process hp).elim s.process hA).later

/-- A call announces its name. -/
theorem step_of_announced {x : Naming} (s : Story start ms n v) (he : Efforts start ms (n + 1) w)
    (hx : start.Announced ms n x)
    (h : Steady False { v.ledger with
      changing := true, settings := { v.settings with defaultVersion := some x.name } } w.ledger) :
    Story start ms (n + 1) w where
  choices := ⟨h.config.trans s.choices.1,
    (congrArg Settings.additionalPaths h.settings).trans s.choices.2⟩
  efforts := he
  announced := .now hx (congrArg Settings.defaultVersion h.settings)
  recorded := by
    refine s.recorded.later ?_ fun _ hx => h.executable.trans hx
    rintro y ⟨-, job, htakes, hruntime⟩
    obtain ⟨-, rfl⟩ := TakesPiece.unique hx htakes
    cases hruntime
  process hp := ((h.process hp).elim s.process False.elim).later

/-- A call records the runtime that is chosen for its name. -/
theorem step_of_recorded {x : Naming} (s : Story start ms n v) (he : Efforts start ms (n + 1) w)
    (hx : start.Recorded ms n x) (hconfig : w.config = v.config)
    (hsettings : w.settings = v.settings) (hexe : w.session.executable = start.pick x.name) :
    Story start ms (n + 1) w where
  choices := ⟨hconfig.trans s.choices.1,
    (congrArg Settings.additionalPaths hsettings).trans s.choices.2⟩
  efforts := he
  announced := by
    refine s.announced.later ?_ fun _ hx =>
      (congrArg Settings.defaultVersion hsettings).trans hx
    intro y hy
    obtain ⟨-, job, htakes, hruntime⟩ := hx
    obtain ⟨-, rfl⟩ := TakesPiece.unique hy htakes
    cases hruntime
  recorded := .now hx hexe
  process _ := .now hx

/-- A move continues the story. -/
theorem step (s : Story start ms n v) (honly : OnlyChanges ms) (hn : start.Moment ms n v)
    (hm : ms[n]? = some m) (hof : m.ofSession = true) (hmove : v.move? m = some w) :
    Story start ms (n + 1) w := by
  have he := s.efforts.step s.choices honly hn hm hof hmove
  by_cases hcall : ∃ i, m = .run (.call i)
  · obtain ⟨i, rfl⟩ := hcall
    obtain ⟨job, hjob, hpiece⟩ := call?_cases hmove
    have htakes : start.TakesPiece ms n i job := ⟨v, hn, hm, hjob⟩
    -- The entry of the call is nothing that the story tells of.
    have hends : ∀ {P : Ledger → Prop}, (v.call job).Ends (fun u => P u.ledger) →
        (∀ {l : Ledger} {c : Call}, P l → P { l with calls := l.calls.set i c }) → P w.ledger := by
      intro P hP hset
      rcases hpiece with ⟨u, job', hgoes, rfl⟩ | ⟨u, r, hgoes, rfl⟩ <;> rw [hgoes] at hP <;>
        exact hset hP
    have hsteady : ∀ {A : Prop} {l : Ledger}, (v.call job).Ends (fun u => Steady A l u.ledger) →
        Steady A l w.ledger :=
      fun h => hends h fun hl => ⟨hl.config, hl.settings, hl.executable, hl.process⟩
    obtain ⟨name, hname, rfl | ⟨hfor, -⟩⟩ := s.efforts.active hjob
    · exact s.step_of_announced (x := ⟨i, name⟩) he htakes (hsteady change_steady)
    · cases hruntime : job.runtime? with
      | none =>
        refine s.step_of_steady he (hsteady (call_steady hfor hruntime)) hfor.recorded ?_ ?_
        · intro x hx
          obtain ⟨-, rfl⟩ := TakesPiece.unique hx htakes
          cases hfor
        · rintro x ⟨-, job', htakes', hruntime'⟩
          obtain ⟨-, rfl⟩ := htakes.unique htakes'
          rw [hruntime] at hruntime'
          cases hruntime'
      | some exe =>
        obtain ⟨hconfig, hsettings, hexe⟩ := hends
          (P := fun l => l.config = v.config ∧ l.settings = v.settings ∧
            l.session.executable = some exe) (call_runtime hruntime) id
        exact s.step_of_recorded (x := ⟨i, name⟩) he ⟨hname, job, htakes, by rw [hruntime]; rfl⟩
          hconfig hsettings (hexe.trans (hfor.pick_eq hruntime).symm)
  · have hnone : ∀ {i : Nat} {job : Job}, ¬start.TakesPiece ms n i job := by
      rintro i job ⟨-, -, hm', -⟩
      rw [hm] at hm'
      cases hm'
      exact hcall ⟨i, rfl⟩
    exact s.step_of_steady he ((move?_change hmove hof).steady fun i hi => hcall ⟨i, hi⟩) False.elim
      (fun _ => hnone) fun _ ⟨_, _, h, _⟩ => hnone h

/-- The story at the beginning of a life. -/
theorem init (h : start.Fresh) : Story start ms 0 start where
  choices := ⟨rfl, rfl⟩
  efforts := by
    refine ⟨by rw [h.calls]; rfl, fun hi => ?_⟩
    rw [h.calls] at hi
    cases hi
  announced := fun ⟨_, hk, _⟩ => absurd hk (Nat.not_lt_zero _)
  recorded := fun ⟨_, hk, _⟩ => absurd hk (Nat.not_lt_zero _)
  process hp := by
    rw [h.session] at hp
    exact absurd rfl hp

end Story

/-! ## The default runtime -/

namespace Life

/-- The story at every moment of a life in which nothing is asked for but changes. -/
theorem story (h : Life start ms w) (honly : OnlyChanges ms) (hn : start.Moment ms n v) :
    Story start ms n v := by
  induction n generalizing v with
  | zero =>
    obtain rfl : start = v := Option.some.inj hn.2
    exact .init h.fresh
  | succ n ih =>
    obtain ⟨u, hu⟩ := hn.pred
    obtain ⟨m, hm, hmove⟩ := hu.step hn
    exact (ih hu).step honly hu hm (h.ofSession m (List.mem_of_getElem? hm)) hmove

/-- A call announces the name that it was asked for. -/
theorem asked_of_announced {x : Naming} (h : Life start ms w) (honly : OnlyChanges ms)
    (hx : start.Announced ms n x) : (asked ms)[x.call]? = some (.changeDefault x.name) := by
  obtain ⟨v, hv, -, hi⟩ := hx
  obtain ⟨name, hname, heq | ⟨hfor, -⟩⟩ := (h.story honly hv).efforts.active hi
  · cases heq
    exact hname
  · cases hfor

/-- Before anything is recorded, something is announced. -/
theorem announced_of_recorded {x : Naming} (h : Life start ms w) (honly : OnlyChanges ms)
    (hx : start.Recorded ms n x) : Before (start.Announced ms) n := by
  obtain ⟨-, job, ⟨v, hv, -, hi⟩, hruntime⟩ := hx
  obtain ⟨name, -, rfl | ⟨-, hbefore⟩⟩ := (h.story honly hv).efforts.active hi
  · cases hruntime
  · exact hbefore

/-- While the default runtime is changed and nothing else is asked for, the settings of a live
session have the name that was announced last, and what runs is the runtime of the name that was
recorded last.  So the session runs its default runtime if and only if the same runtime is chosen
for the two names, as it is when the same call was the last one to announce and the last one to
record. -/
theorem default_agrees_iff (h : Life start ms w) (honly : OnlyChanges ms)
    (hlive : w.status.isLive = true) :
    ∃ announced recorded, Latest (start.Announced ms) ms.length announced ∧
      Latest (start.Recorded ms) ms.length recorded ∧
      w.settings.defaultVersion = some announced.name ∧
      w.session.executable = w.pick recorded.name ∧
      (w.session.executable = (w.choice w.settings none).value ↔
        w.pick recorded.name = w.pick announced.name) ∧
      (recorded.call = announced.call →
        w.session.executable = (w.choice w.settings none).value) := by
  have hstory := h.story honly h.last
  have hsome : Before (start.Recorded ms) ms.length := by
    obtain ⟨p, -, -, -, hp, -⟩ := h.sound.slots.live hlive
    refine hstory.process fun hnone => ?_
    rw [show w.outline.session = w.session from rfl, hnone] at hp
    cases hp
  obtain ⟨recorded, hlast, hexe⟩ := hstory.recorded hsome
  have hbefore : Before (start.Announced ms) ms.length := by
    obtain ⟨k, hk, hrecorded, -⟩ := hlast
    obtain ⟨j, hj, hannounced⟩ := h.announced_of_recorded honly hrecorded
    exact ⟨j, Nat.lt_trans hj hk, hannounced⟩
  obtain ⟨announced, hlast', hdefault⟩ := hstory.announced hbefore
  have hruns : w.session.executable = w.pick recorded.name :=
    hexe.trans hstory.choices.pick_eq.symm
  have hchoice : (w.choice w.settings none).value = w.pick announced.name :=
    choice_default hdefault
  refine ⟨announced, recorded, hlast', hlast, hdefault, hruns, by rw [hchoice, hruns], ?_⟩
  intro hcall
  obtain ⟨_, _, ⟨hrecorded, _⟩, _⟩ := hlast
  obtain ⟨_, _, hannounced, _⟩ := hlast'
  have hasked := h.asked_of_announced honly hannounced
  rw [← hcall, hrecorded] at hasked
  rw [hchoice, hruns, Command.changeDefault.inj (Option.some.inj hasked)]

end Life

end World

/-- Two callers change the default runtime at once; the second one finds the first one's start
under way and lets it do. -/
def Trial.changing : List Move :=
  [.ask (.changeDefault "PowerShell Snap"), goOn, .ask (.changeDefault "PowerShell Preview"),
    .run (.call 1), goOn, .run (.call 1)] ++ launching.drop 2 ++ connecting ++
    [.elapse 1000000000, .run (.call 1)]

namespace World

/-- Both calls are over and the session runs, but not its default runtime: the call that was the
last one to announce is not the one that has recorded. -/
theorem default_agrees_iff_trial :
    ∃ w announced recorded, Trial.start.Life Trial.changing w ∧ OnlyChanges Trial.changing ∧
      w.status = .running ∧ (w.calls.all fun c => c.result?.isSome) = true ∧
      Latest (Trial.start.Announced Trial.changing) Trial.changing.length announced ∧
      Latest (Trial.start.Recorded Trial.changing) Trial.changing.length recorded ∧
      announced.name = "PowerShell Preview" ∧ recorded.call ≠ announced.call ∧
      w.session.executable ≠ (w.choice w.settings none).value := by
  have hrun : (Trial.start.play? Trial.changing).any (fun w =>
      decide (w.status = .running) && (w.calls.all fun c => c.result?.isSome) &&
        decide (w.settings.defaultVersion = some "PowerShell Preview") &&
        decide (w.session.executable ≠ (w.choice w.settings none).value)) = true := by
    decide +kernel
  obtain ⟨w, hplay, hw⟩ := (Option.any_eq_true _ _).1 hrun
  simp only [Bool.and_eq_true, decide_eq_true_eq] at hw
  obtain ⟨⟨⟨hs, hover⟩, hdefault⟩, hne⟩ := hw
  have honly : OnlyChanges Trial.changing := by
    intro command hcommand
    have hcommands : asked Trial.changing =
        [.changeDefault "PowerShell Snap", .changeDefault "PowerShell Preview"] := rfl
    rw [hcommands] at hcommand
    simp only [List.mem_cons, List.not_mem_nil, or_false] at hcommand
    rcases hcommand with rfl | rfl
    · exact ⟨_, rfl⟩
    · exact ⟨_, rfl⟩
  have hlife := Trial.life hplay (by decide)
  obtain ⟨announced, recorded, hannounced, hrecorded, hname, -, -, hagrees⟩ :=
    hlife.default_agrees_iff honly (by rw [hs]; rfl)
  rw [hdefault] at hname
  exact ⟨w, announced, recorded, hlife, honly, hs, hover, hannounced, hrecorded,
    (Option.some.inj hname).symm, fun hcall => hne (hagrees hcall), hne⟩

end World

end SessionHost
