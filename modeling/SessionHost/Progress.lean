/-!
# Progress

An activity runs from one suspension point to the next.  A piece of it either cannot run yet,
or takes the world to another one, where the activity waits at a new place or has a result.

Main definitions:

- `Progress`: what a piece of an activity does.
- `Progress.andThen`: goes on, without a suspension, with what follows an activity.
- `Progress.within`: the same piece in a larger world.
-/

namespace SessionHost

/-- What a piece of an activity does to a world, where its places are of type `σ` and its
result of type `α`. -/
inductive Progress (ω σ α : Type) where
  /-- It cannot run yet. -/
  | blocked
  | going (world : ω) (place : σ)
  | finished (world : ω) (result : α)

namespace Progress

variable {ω υ σ τ α β : Type}

/-- The activity as a part of a larger one, which goes on with `next`. -/
def andThen (p : Progress ω σ α) (wrap : σ → τ) (next : ω → α → Progress ω τ β) :
    Progress ω τ β :=
  match p with
  | .blocked => .blocked
  | .going w s => .going w (wrap s)
  | .finished w a => next w a

/-- The activity in a larger world. -/
def within (p : Progress ω σ α) (embed : ω → υ) : Progress υ σ α :=
  match p with
  | .blocked => .blocked
  | .going w s => .going (embed w) s
  | .finished w a => .finished (embed w) a

/-- The activity, or `late` when it cannot run yet and its time is over. -/
def orWhenLate (p : Progress ω σ α) (expired : Bool) (late : Progress ω σ α) : Progress ω σ α :=
  match p with
  | .blocked => if expired then late else .blocked
  | other => other

/-- A piece that cannot run yet stays one. -/
@[simp] theorem andThen_blocked (wrap : σ → τ) (next : ω → α → Progress ω τ β) :
    (blocked : Progress ω σ α).andThen wrap next = .blocked := rfl

/-- A piece that waits waits inside of what follows it. -/
@[simp] theorem andThen_going (w : ω) (s : σ) (wrap : σ → τ) (next : ω → α → Progress ω τ β) :
    (going w s : Progress ω σ α).andThen wrap next = .going w (wrap s) := rfl

/-- A piece with a result runs on into what follows it. -/
@[simp] theorem andThen_finished (w : ω) (a : α) (wrap : σ → τ)
    (next : ω → α → Progress ω τ β) :
    (finished w a : Progress ω σ α).andThen wrap next = next w a := rfl

end Progress

end SessionHost
