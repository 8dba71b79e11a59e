import SessionHost.Proofs.Ledger.Changes

/-!
# The course of the status

The status follows a small automaton, and every step of it is told.  Out of a start, other than
into a stop, and between running, busy and failed, only an activity of the present generation may
lead it.

Main definitions:

- `StatusStep`, `steps`: the steps of the status that events tell of.
- `Course`, `Tick`: the status with its generation, and the automaton that it follows.
- `World.Serves`: the activities that belong to a generation.

Main results:

- Theorem `World.follows_of_change`: every change of the ledger follows the automaton.
- Theorem `Ticks.tells`: what is told on the way is what happens.
-/

namespace SessionHost

/-! ## Steps of the status -/

/-- A step of the status, with the generation that was the present one after it. -/
structure StatusStep where
  generation : Nat
  source : Status
  target : Status
deriving DecidableEq

/-- The steps that events tell of, from a status on. -/
def steps (s : Status) : List Event → List StatusStep
  | [] => []
  | .statusChanged g t :: rest => ⟨g, s, t⟩ :: steps t rest
  | _ :: rest => steps s rest

/-- The status that events lead to, from a status on. -/
def Status.after (s : Status) : List Event → Status
  | [] => s
  | .statusChanged _ t :: rest => t.after rest
  | _ :: rest => s.after rest

@[simp]
theorem steps_nil (s : Status) : steps s [] = [] :=
  rfl

@[simp]
theorem steps_statusChanged (s t : Status) (g : Nat) (es : List Event) :
    steps s (.statusChanged g t :: es) = ⟨g, s, t⟩ :: steps t es :=
  rfl

/-- The status after two stretches of a log is reached over the first. -/
theorem Status.after_append (s : Status) (es fs : List Event) :
    s.after (es ++ fs) = (s.after es).after fs := by
  induction es generalizing s with
  | nil => rfl
  | cons e rest ih => cases e <;> exact ih _

/-- The steps of two stretches are put together, the second from where the first ends. -/
theorem steps_append (s : Status) (es fs : List Event) :
    steps s (es ++ fs) = steps s es ++ steps (s.after es) fs := by
  induction es generalizing s with
  | nil => rfl
  | cons e rest ih =>
    cases e with
    | statusChanged g t => exact congrArg _ (ih t)
    | _ => exact ih s

namespace StatusStep

/-- The steps that a session may take. -/
def isLegal (x : StatusStep) : Bool :=
  match x.source, x.target with
  | .notStarted, .starting => true
  | .failed, .starting => true
  | .starting, .running => true
  | .starting, .failed => true
  | .running, .busy => true
  | .busy, .running => true
  | .running, .failed => true
  | .busy, .failed => true
  | .starting, .stopping => true
  | .running, .stopping => true
  | .busy, .stopping => true
  | .failed, .stopping => true
  | .stopping, .notStarted => true
  | _, _ => false

/-- A legal step leads to another status. -/
theorem ne_of_isLegal {x : StatusStep} (h : x.isLegal = true) : x.source ≠ x.target := by
  obtain ⟨g, s, t⟩ := x
  intro heq
  obtain rfl : s = t := heq
  cases s <;> cases h

/-- A session that is live was live before, or has just begun to run. -/
theorem cases_of_isLive {x : StatusStep} (h : x.isLegal = true) (hx : x.target.isLive = true) :
    (x.source = .starting ∧ x.target = .running) ∨ x.source.isLive = true := by
  obtain ⟨g, s, t⟩ := x
  revert h hx
  cases s <;> cases t <;> simp [isLegal, Status.isLive]

/-- The steps that only an activity of the present generation may take: those out of a start,
unless a stop is claimed, and those between running, busy and failed. -/
def isPersonal (x : StatusStep) : Bool :=
  match x.source, x.target with
  | .starting, .stopping => false
  | .starting, _ => true
  | .running, .busy => true
  | .busy, .running => true
  | .running, .failed => true
  | .busy, .failed => true
  | .failed, .running => true
  | .failed, .busy => true
  | _, _ => false

/-- A generation loses its console. -/
def isFall (g : Nat) (x : StatusStep) : Bool :=
  x.generation == g && x.source.isLive && x.target == .failed

end StatusStep

namespace Event

/-- The event tells that the generation has started. -/
def isStart (g : Nat) : Event → Bool
  | .started g' => g' == g
  | _ => false

/-- The event tells that the start of the generation has failed. -/
def isFailure (g : Nat) : Event → Bool
  | .failed g' _ => g' == g
  | _ => false

/-- The event tells that the generation has lost its console. -/
def isLoss (g : Nat) : Event → Bool
  | .unexpectedExit g' _ => g' == g
  | _ => false

end Event

/-! ## The automaton -/

/-- The watch is busy with the end of its generation. -/
def WatchPlace.isReleasing : WatchPlace → Bool
  | .releasing _ _ => true
  | _ => false

/-- The watch is busy with the end of the generation. -/
def Watch.releases (g : Nat) (x : Watch) : Bool := x.generation == g && x.place.isReleasing

/-- The status with its generation, and what was told about it. -/
structure Course where
  status : Status
  generation : Nat
  /-- How many watches are busy with the end of a generation. -/
  releasing : Nat → Nat
  news : List Event

/-- The part of a ledger that the automaton is about. -/
def Ledger.course (l : Ledger) : Course where
  status := l.status
  generation := l.generation
  releasing g := l.watches.countP (Watch.releases g)
  news := l.news

/-- The steps of the status, and what is told with them; `own` is the generation of the activity
that takes the step. -/
inductive Tick (own : Option Nat) (c : Course) : Course → Prop where
  | claimStart (h : c.status = .notStarted ∨ c.status = .failed) :
      Tick own c
        { c with
          generation := c.generation + 1
          status := .starting
          news := c.news ++ [.statusChanged (c.generation + 1) .starting] }
  | claimStop (h : c.status ≠ .notStarted) (h' : c.status ≠ .stopping) :
      Tick own c
        { c with status := .stopping, news := c.news ++ [.statusChanged c.generation .stopping] }
  | endStop (h : c.status = .stopping) :
      Tick own c
        { c with
          status := .notStarted, news := c.news ++ [.statusChanged c.generation .notStarted] }
  | run (h : own = some c.generation) (hs : c.status = .starting) :
      Tick own c
        { c with
          status := .running
          news := c.news ++ [.statusChanged c.generation .running, .started c.generation] }
  | fail (h : own = some c.generation) (hs : c.status = .starting) (notice : Notice) :
      Tick own c
        { c with
          status := .failed
          news := c.news ++ [.statusChanged c.generation .failed, .failed c.generation notice] }
  | busy (h : own = some c.generation) (hs : c.status = .running) :
      Tick own c
        { c with status := .busy, news := c.news ++ [.statusChanged c.generation .busy] }
  | idle (h : own = some c.generation) (hs : c.status = .busy) :
      Tick own c
        { c with status := .running, news := c.news ++ [.statusChanged c.generation .running] }
  | fall (h : own = some c.generation) (hs : c.status.isLive = true) {releasing : Nat → Nat}
      (hr : ∀ g, releasing g = c.releasing g + if g = c.generation then 1 else 0) :
      Tick own c
        { c with
          status := .failed
          releasing := releasing
          news := c.news ++ [.statusChanged c.generation .failed] }
  | report {g : Nat} (h : 0 < c.releasing g) (notice : Notice) {releasing : Nat → Nat}
      (hr : ∀ g', releasing g' = c.releasing g' - if g' = g then 1 else 0) :
      Tick own c
        { c with releasing := releasing, news := c.news ++ [.unexpectedExit g notice] }

/-- A chain of steps. -/
def Ticks (own : Option Nat) : Course → Course → Prop := Relation.ReflTransGen (Tick own)

namespace Ticks

variable {own : Option Nat} {c c' c'' : Course}

theorem refl (own : Option Nat) (c : Course) : Ticks own c c :=
  Relation.ReflTransGen.refl

theorem of_eq (h : c' = c) : Ticks own c c' :=
  h ▸ refl own c

/-- One tick is a chain. -/
theorem tick (h : Tick own c c') : Ticks own c c' :=
  Relation.ReflTransGen.single h

/-- Chains of ticks are put together. -/
theorem trans (h : Ticks own c c') (h' : Ticks own c' c'') : Ticks own c c'' :=
  Relation.ReflTransGen.trans h h'

end Ticks

/-! ## Every change follows the automaton -/

/-- What a start stores is not told. -/
theorem Store.course_eq {l l' : Ledger} {place : Starting} (h : Store l place l') :
    l'.course = l.course := by
  cases h with
  | @adopt a exe p h watches hw =>
    have hnone (g : Nat) : watches.countP (Watch.releases g) = 0 := by
      refine List.countP_eq_zero.2 fun x hx => ?_
      simp [Watch.releases, (hw x hx).2, WatchPlace.isReleasing]
    simp [Ledger.course, List.countP_append, hnone]
  | _ => rfl

/-- A posting is a step of the automaton, or does not concern the status. -/
theorem Posting.ticks {own : Option Nat} {l l' : Ledger} (h : Posting own l l') :
    Ticks own l.course l'.course := by
  cases h with
  | claimStart h => exact .tick (.claimStart h)
  | claimStop h h' => exact .tick (.claimStop h h')
  | endStop h => exact .tick (.endStop h)
  | run h hs => exact .tick (.run h hs)
  | fail h hs notice => exact .tick (.fail h hs notice)
  | _ => exact .refl _ _

/-- Writings are ticks of the course. -/
theorem Writings.ticks {own : Option Nat} {l l' : Ledger} (h : Writings own l l') :
    Ticks own l.course l'.course :=
  h.keeps (P := fun u => Ticks own l.course u.course)
    (fun _ _ hu hposting => hu.trans hposting.ticks)
    (fun _ _ hu hamendment => by cases hamendment <;> exact hu) (.refl _ _)

/-- Postings are ticks of the course. -/
theorem Postings.ticks {own : Option Nat} {l l' : Ledger} (h : Postings own l l') :
    Ticks own l.course l'.course :=
  (Writings.of_postings h).ticks

/-- What a call writes are ticks of its generation. -/
theorem Job.Writes.ticks {job : Job} {l l' : Ledger} (h : job.Writes l l') :
    Ticks job.generation? l.course l'.course := by
  obtain ⟨m, hm, hwritings⟩ := h
  rcases hm with rfl | ⟨place, next, rfl, hstore⟩
  · exact hwritings.ticks
  · rw [← hstore.course_eq]
    exact hwritings.ticks

/-- The postings of others leave the watches alone. -/
theorem Postings.watches_eq {own : Option Nat} {l l' : Ledger} (h : Postings own l l') :
    l'.watches = l.watches :=
  h.keeps (P := fun u => u.watches = l.watches)
    (fun _ _ hu hposting => by cases hposting <;> exact hu) rfl

/-- Writings leave the watches alone. -/
theorem Writings.watches_eq {own : Option Nat} {l l' : Ledger} (h : Writings own l l') :
    l'.watches = l.watches :=
  h.keeps (P := fun u => u.watches = l.watches)
    (fun _ _ hu hposting => (Postings.posting hposting).watches_eq.trans hu)
    (fun _ _ hu hamendment => by cases hamendment <;> exact hu) rfl

/-- What a piece of a call finds at a watch, it leaves there, unless it is the watch's beginning. -/
theorem Job.Writes.watch_eq {α : Type} {job : Job} {l l' : Ledger} (h : job.Writes l l')
    (f : Option Watch → α) (hf : ∀ x, x.place = .waiting → f (some x) = f none) (j : Nat) :
    f l'.watches[j]? = f l.watches[j]? := by
  obtain ⟨m, hm, hwritings⟩ := h
  rw [hwritings.watches_eq]
  rcases hm with rfl | ⟨place, next, -, hstore⟩
  · rfl
  · cases hstore with
    | @adopt a exe p hc watches hw =>
      rcases Nat.lt_or_ge j l.watches.length with hj | hj
      · rw [List.getElem?_append_left hj]
      · rw [List.getElem?_append_right hj, List.getElem?_eq_none hj]
        cases hx : watches[j - l.watches.length]? with
        | none => rfl
        | some x => exact hf x (hw x (List.mem_of_getElem? hx)).2
    | _ => rfl

/-- The number of entries with a property after a change of one of them. -/
theorem countP_set_of_some {α : Type} {l : List α} {i : Nat} {a : α} (h : l[i]? = some a) (b : α)
    (p : α → Bool) : (l.set i b).countP p =
      l.countP p - (if p a = true then 1 else 0) + if p b = true then 1 else 0 := by
  obtain ⟨hi, rfl⟩ := List.getElem?_eq_some_iff.1 h
  exact List.countP_set hi

/-- How many watches are busy with the end of a generation, after one of them has moved on. -/
theorem countP_releases_set {l : List Watch} {j : Nat} {x : Watch} (hx : l[j]? = some x)
    (place : WatchPlace) (g : Nat) :
    (l.set j { x with place := place }).countP (Watch.releases g) =
      l.countP (Watch.releases g) -
          (if x.generation = g ∧ x.place.isReleasing = true then 1 else 0) +
        if x.generation = g ∧ place.isReleasing = true then 1 else 0 := by
  rw [countP_set_of_some hx]
  simp only [Watch.releases, Bool.and_eq_true, beq_iff_eq]

/-- A watch that takes its session apart is counted. -/
theorem countP_releases_pos {l : List Watch} {j : Nat} {x : Watch} (hx : l[j]? = some x)
    (hp : x.place.isReleasing = true) : 0 < l.countP (Watch.releases x.generation) :=
  List.countP_pos_iff.2 ⟨x, List.mem_of_getElem? hx, by simp [Watch.releases, hp]⟩

namespace World

variable {w v : World}

/-- The activity belongs to the generation. -/
def Serves (w : World) (g : Nat) : Runner → Prop
  | .call i => w.StartsFor g i
  | .watch j => ∃ x, w.watches[j]? = some x ∧ x.generation = g
  | .pump k => ∃ x, w.pumps[k]? = some x ∧ x.generation = g
  | _ => False

/-- A call that has claimed a generation belongs to it. -/
theorem serves_of_generation? {i g : Nat} {job : Job} (hi : w.calls[i]? = some (.active job))
    (hg : job.generation? = some g) : w.Serves g (.call i) := by
  cases job with
  | phased place next =>
    cases place with
    | stopping place => cases hg
    | starting place =>
      obtain ⟨a, ha, rfl⟩ := Option.map_eq_some_iff.1 hg
      exact ⟨place, next, a, hi, ha, rfl⟩
  | _ => cases hg

/-- The steps of a move follow the automaton, and what is reserved for a generation is done by an
activity that belongs to it; the generation has begun. -/
def Follows (w : World) (m : Move) (c : Course) : Prop :=
  ∃ own, Ticks own w.ledger.course c ∧
    ∀ g, own = some g → g ≤ w.generation ∧ ∃ r, m = .run r ∧ w.Serves g r

/-- Ticks of nobody follow every move. -/
theorem Follows.of_none {m : Move} {c : Course} (h : Ticks none w.ledger.course c) :
    w.Follows m c :=
  ⟨none, h, nofun⟩

/-- A watch or a pump of the present generation takes one step. -/
theorem Follows.of_serves {r : Runner} {c : Course} (h : Tick (some w.generation) w.ledger.course c)
    (hr : w.Serves w.generation r) : w.Follows (.run r) c := by
  refine ⟨some w.generation, .tick h, fun g hg => ?_⟩
  obtain rfl := Option.some.inj hg
  exact ⟨Nat.le_refl _, r, rfl, hr⟩

/-- Every change of the ledger follows the automaton. -/
theorem follows_of_change {m : Move} {l : Ledger} (h : Change m w.ledger l)
    (t : Tenure w.outline) : w.Follows m l.course := by
  cases h with
  | still => exact .of_none (.refl _ _)
  | ask command hm => exact .of_none (.refl _ _)
  | @call i job l' hm hi hw c =>
    refine ⟨job.generation?, hw.ticks, fun g hg => ?_⟩
    have hserves := serves_of_generation? hi hg
    obtain ⟨r, hr, hclaim⟩ := (startsFor_iff w g i).1 hserves
    exact ⟨(t.admits hr hclaim).1, _, hm, hserves⟩
  | perform hm hi job' => exact .of_none (.refl _ _)
  | @fall j x hm hx hp hg hs e =>
    subst hm
    refine .of_serves (.fall (c := w.ledger.course) rfl hs fun g => ?_) ⟨x, hx, hg.symm⟩
    refine (countP_releases_set hx (.releasing e .taking) g).trans ?_
    by_cases heq : g = w.ledger.generation <;>
      simp [hp, WatchPlace.isReleasing, ← hg, Ledger.course, heq, eq_comm]
  | @ignore j x hm hx hp =>
    refine .of_none (.of_eq ?_)
    simp [Ledger.course, countP_releases_set hx, hp, WatchPlace.isReleasing]
  | @release j x e r l' hm hx hp hl r' =>
    have hx' : l'.watches[j]? = some x := hl.watches_eq ▸ hx
    have hpos := countP_releases_pos hx' (by rw [hp]; rfl)
    refine .of_none (hl.ticks.trans (.of_eq ?_))
    have hset (g : Nat) : (l'.watches.set j { x with place := .releasing e r' }).countP
        (Watch.releases g) = l'.watches.countP (Watch.releases g) := by
      rw [countP_releases_set hx', hp]
      simp only [WatchPlace.isReleasing, and_true]
      split
      · rename_i hg
        rw [← hg]
        omega
      · rfl
    simp only [Ledger.course, hset]
  | @report j x e r l' hm hx hp hl notice =>
    have hx' : l'.watches[j]? = some x := hl.watches_eq ▸ hx
    have hpos : 0 < l'.course.releasing x.generation :=
      countP_releases_pos hx' (by rw [hp]; rfl)
    refine .of_none (hl.ticks.trans (.tick (.report hpos notice fun g => ?_)))
    refine (countP_releases_set hx' .over g).trans ?_
    simp [hp, WatchPlace.isReleasing, Ledger.course, eq_comm]
  | @busy k x hm hx hg hs =>
    subst hm
    exact .of_serves (.busy rfl hs) ⟨x, hx, hg.symm⟩
  | @idle k x hm hx hg hs =>
    subst hm
    exact .of_serves (.idle rfl hs) ⟨x, hx, hg.symm⟩
  | @pump k x hm hx place => exact .of_none (.refl _ _)

end World

/-! ## What is told -/

/-- From one moment of the course to a later one: what was told, and that only an activity of the
present generation has taken the steps that are reserved for it. -/
def Course.Tells (own : Option Nat) (c c' : Course) : Prop :=
  c.generation ≤ c'.generation ∧
    ∃ more, c'.news = c.news ++ more ∧ c.status.after more = c'.status ∧
    ∀ x ∈ steps c.status more, x.isPersonal = true →
      own = some x.generation ∧ c.generation ≤ x.generation

/-- A tick tells what it does. -/
theorem Tick.tells {own : Option Nat} {c c' : Course} (h : Tick own c c') : c.Tells own c' := by
  cases h with
  | claimStart h =>
    refine ⟨Nat.le_succ _, _, rfl, rfl, fun x hx hpersonal => ?_⟩
    obtain rfl : x = ⟨c.generation + 1, c.status, .starting⟩ := by simpa using hx
    rcases h with h | h <;> rw [h] at hpersonal <;> cases hpersonal
  | claimStop h h' =>
    refine ⟨Nat.le_refl _, _, rfl, rfl, fun x hx hpersonal => ?_⟩
    obtain rfl : x = ⟨c.generation, c.status, .stopping⟩ := by simpa using hx
    cases hs : c.status <;> rw [hs] at hpersonal <;> cases hpersonal
  | endStop hs =>
    refine ⟨Nat.le_refl _, _, rfl, rfl, fun x hx hpersonal => ?_⟩
    obtain rfl : x = ⟨c.generation, c.status, .notStarted⟩ := by simpa using hx
    rw [hs] at hpersonal
    cases hpersonal
  | run h hs | fail h hs notice | busy h hs | idle h hs | fall h hs hr =>
    refine ⟨Nat.le_refl _, _, rfl, rfl, fun x hx _ => ?_⟩
    have hg : x.generation = c.generation := by
      simp only [steps, List.mem_singleton] at hx
      rw [hx]
    exact ⟨hg ▸ h, Nat.le_of_eq hg.symm⟩
  | report h notice hr => exact ⟨Nat.le_refl _, _, rfl, rfl, nofun⟩

/-- What is told on the way is what happens. -/
theorem Ticks.tells {own : Option Nat} {c c' : Course} (h : Ticks own c c') : c.Tells own c' := by
  induction h with
  | refl => exact ⟨Nat.le_refl _, [], (List.append_nil _).symm, rfl, nofun⟩
  | tail _ htick ih =>
    obtain ⟨hle, es, hes, hs, hpersonal⟩ := ih
    obtain ⟨hle', more, hmore, hs', hpersonal'⟩ := htick.tells
    refine ⟨Nat.le_trans hle hle', es ++ more, ?_, ?_, fun x hx hx' => ?_⟩
    · rw [hmore, hes, List.append_assoc]
    · rw [Status.after_append, hs, hs']
    · rw [steps_append, hs, List.mem_append] at hx
      rcases hx with hx | hx
      · exact hpersonal x hx hx'
      · obtain ⟨hown, hg⟩ := hpersonal' x hx hx'
        exact ⟨hown, Nat.le_trans hle hg⟩

end SessionHost
