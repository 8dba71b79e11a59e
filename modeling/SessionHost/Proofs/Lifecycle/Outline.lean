import Mathlib.Data.List.Basic
import Mathlib.Logic.Relation
import SessionHost.Session.Move

/-!
# Outlines of a session

The rules of a session's lifecycle speak of a small part of its world: the status and its
generation, the session's slots, tokens, processes, consoles, how often clients were stopped,
and the part that every activity plays.  An outline is that part of a world; files, time, the
log, connections and the inner state of clients are left out.

Main definitions:

- `Role`: the part that a call plays in the lifecycle, and what it has in hand.
- `Lookout`: the same for the watch over an exit.
- `Outline`, `World.outline`: the part of a world that the rules speak of.

Main results:

- Theorems `World.outline_dispose`, `World.outline_transition` and others: every change of a
  world is a change of its outline.
-/

namespace SessionHost

/-! ## Entries of a list -/

section Entries

variable {α : Type} {l : List α} {i j : Nat} {a b c : α}

/-- An entry after a change is the new one, or stands elsewhere. -/
theorem getElem?_set_cases (h : (l.set i b)[j]? = some c) :
    (j = i ∧ c = b) ∨ (j ≠ i ∧ l[j]? = some c) := by
  by_cases hij : i = j
  · subst hij
    obtain ⟨hi, hc⟩ := List.getElem?_eq_some_iff.1 h
    exact .inl ⟨rfl, by simpa using hc.symm⟩
  · rw [List.getElem?_set_ne hij] at h
    exact .inr ⟨Ne.symm hij, h⟩

/-- An entry that is not the new one stood there before. -/
theorem getElem?_of_set_ne (h : (l.set i b)[j]? = some c) (hc : c ≠ b) : l[j]? = some c :=
  (getElem?_set_cases h).elim (fun h => absurd h.2 hc) And.right

/-- An image that an entry keeps is kept by the whole list. -/
theorem map_set_of_eq {β : Type} {f : α → β} (h : l[i]? = some a) (hb : f b = f a) :
    (l.set i b).map f = l.map f := by
  have hmap : (l.map f)[i]? = some (f a) := by simp [h]
  obtain ⟨hi, hget⟩ := List.getElem?_eq_some_iff.1 hmap
  rw [List.map_set, hb, ← hget]
  exact List.set_getElem_self hi

/-- Modifying an entry that is known is setting it. -/
theorem modify_eq_set_of_some (h : l[i]? = some a) (f : α → α) : l.modify i f = l.set i (f a) := by
  simp [List.modify_eq_set_getElem?, h]

/-- An image that a change keeps is kept by the whole list. -/
theorem map_modify_of_eq {β : Type} {f : α → β} {g : α → α} (h : ∀ a, f (g a) = f a)
    (l : List α) (i : Nat) : (l.modify i g).map f = l.map f := by
  cases hi : l[i]? with
  | none => rw [List.modify_eq_self (List.getElem?_eq_none_iff.1 hi)]
  | some a => rw [modify_eq_set_of_some hi, map_set_of_eq hi (h a)]

/-- The new entry stands where the old one stood. -/
theorem getElem?_set_at (h : l[i]? = some a) (b : α) : (l.set i b)[i]? = some b :=
  List.getElem?_set_self (List.getElem?_eq_some_iff.1 h).1

/-- An entry that is not the one that was changed stays. -/
theorem getElem?_set_or (hi : l[i]? = some a) (hj : l[j]? = some c) (b : α) :
    (j = i ∧ c = a) ∨ (l.set i b)[j]? = some c := by
  by_cases hij : i = j
  · subst hij
    rw [hi, Option.some.injEq] at hj
    exact .inl ⟨rfl, hj.symm⟩
  · exact .inr (by rw [List.getElem?_set_ne hij, hj])

/-- An entry is found again after a change, unless it is the one that was changed. -/
theorem exists_getElem?_set {P : α → Prop} (hi : l[i]? = some a)
    (h : ∃ (j : Nat) (c : α), l[j]? = some c ∧ P c) (hab : P a → P b) :
    ∃ (j : Nat) (c : α), (l.set i b)[j]? = some c ∧ P c := by
  obtain ⟨j, c, hj, hc⟩ := h
  rcases getElem?_set_or hi hj b with ⟨-, rfl⟩ | hj
  · exact ⟨i, b, getElem?_set_at hi b, hab hc⟩
  · exact ⟨j, c, hj, hc⟩

/-- An entry of a longer list is an old one, or the last one. -/
theorem getElem?_append_cases (h : (l ++ [b])[j]? = some c) :
    l[j]? = some c ∨ (j = l.length ∧ c = b) := by
  rcases Nat.lt_trichotomy j l.length with hj | hj | hj
  · exact .inl (by rwa [List.getElem?_append_left hj] at h)
  · subst hj
    rw [List.getElem?_concat_length, Option.some.injEq] at h
    exact .inr ⟨rfl, h.symm⟩
  · rw [List.getElem?_eq_none (by simp; omega)] at h
    cases h

/-- The entries of a list stand in a longer one, too. -/
theorem getElem?_append_of_some (h : l[j]? = some c) (b : α) : (l ++ [b])[j]? = some c := by
  rw [List.getElem?_append_left (List.getElem?_eq_some_iff.1 h).1, h]

end Entries

/-! ## The session's own interface -/

/-- The session's own interface offers the command.  The other commands act on a process or a
client that belongs to no session. -/
def Command.ofSession : Command → Bool
  | .launch _ => false
  | .openClient _ _ _ _ => false
  | .askVersion _ _ => false
  | .closeClient _ _ => false
  | _ => true

/-! ## Roles -/

/-- How far an activity is with taking a session's live parts away. -/
inductive Grip where
  /-- Before the session's lock. -/
  | reaching
  /-- Behind it, with the process that was found. -/
  | holding (process : Option Nat)
deriving DecidableEq

/-- How far a call is with bringing a process up. -/
inductive Upbringing where
  /-- The session does not know the process yet. -/
  | fresh
  /-- The session knows the process, which has not been launched. -/
  | installed
  | answering (console : Nat)
  /-- The launcher has answered. -/
  | up

/-- The last thing that a start has stored in the session. -/
inductive Milestone where
  | nothing
  | process
  | details
  /-- The details, with a client that is about to be stored. -/
  | opening (client : Nat)
  | client

/-- The part that a call plays in the lifecycle. -/
inductive Role where
  | bystander
  /-- A call on a process or a client that belongs to no session. -/
  | outsider
  /-- A stop that has claimed the status and not taken the session yet. -/
  | stopping
  /-- A stop with what it has taken out of the session. -/
  | emptying (process debug : Option Nat)
  /-- A start that clears away what an earlier session left. -/
  | clearing (generation : Nat) (grip : Grip)
  | starting (generation : Nat) (reached : Milestone)
  | bringing (purpose : Purpose) (process : Nat) (stage : Upbringing)
  /-- The start of a debug session with the process that it takes the place of. -/
  | replacing (process previous : Nat)
  /-- The start of a debug session that has failed. -/
  | withdrawing (process : Nat)
  /-- A start that has failed. -/
  | failing (generation : Nat) (grip : Grip)

/-- What a call has claimed. -/
inductive Claim where
  | start (generation : Nat)
  | stop

/-- Who brings a main process up is the start of its generation. -/
def Purpose.claim? : Purpose → Option Claim
  | .main g => some (.start g)
  | _ => none

/-- The claim of a call: a start on its generation, a stop on the status. -/
def Role.claim? : Role → Option Claim
  | .stopping => some .stop
  | .emptying _ _ => some .stop
  | .clearing g _ => some (.start g)
  | .starting g _ => some (.start g)
  | .bringing u _ _ => u.claim?
  | .failing g _ => some (.start g)
  | _ => none

/-- The process that a grip holds. -/
def Grip.held? : Grip → Option Nat
  | .reaching => none
  | .holding p => p

/-- The grip of a release. -/
def Release.grip : Release → Grip
  | .taking => .reaching
  | .closing _ p _ => .holding p

/-- The stage at which a launch waits. -/
def Launching.stage : Launching → Upbringing
  | .answer c => .answering c
  | _ => .up

/-- The role of a stop. -/
def Stopping.role : Stopping → Role
  | .waiting _ => .bystander
  | .endingDebug => .bystander
  | .taking => .stopping
  | .closing _ p d _ => .emptying p d

/-- The role of a start. -/
def Starting.role : Starting → Role
  | .joining _ => .bystander
  | .awaiting _ _ => .bystander
  | .clearing a _ r => .clearing a.generation r.grip
  | .preparing a _ _ => .starting a.generation .nothing
  | .recording a _ => .starting a.generation .nothing
  | .adopting a _ p => .bringing (.main a.generation) p .fresh
  | .launching a _ p l => .bringing (.main a.generation) p l.stage
  | .diagnosing a _ => .starting a.generation .process
  | .noting a _ => .starting a.generation .process
  | .connecting a _ _ _ => .starting a.generation .details
  | .opening a c _ => .starting a.generation (.opening c)
  | .keeping a c => .starting a.generation (.opening c)
  | .asking a _ _ => .starting a.generation .client
  | .concluding a _ => .starting a.generation .client
  | .failing a _ r => .failing a.generation r.grip

/-- The role of the start of a debug session. -/
def Debugging.role : Debugging → Role
  | .choosing _ => .bystander
  | .preparing _ _ _ => .bystander
  | .installing _ p => .bringing .debug p .fresh
  | .launching _ p l => .bringing .debug p l.stage
  | .diagnosing p _ => .bringing .debug p .up
  | .withdrawing p _ => .withdrawing p

/-- The role of a part of a call. -/
def PhasePlace.role : PhasePlace → Role
  | .stopping p => p.role
  | .starting p => p.role

/-- The role of a call that is under way. -/
def Job.role : Job → Role
  | .fresh command => if command.ofSession then .bystander else .outsider
  | .phased place _ => place.role
  | .debugging place => place.role
  | .endingDebug => .bystander
  | _ => .outsider

/-- The role of a call. -/
def Call.role : Call → Role
  | .active job => job.role
  | .over _ => .bystander

/-- How far the watch over an exit is. -/
inductive Vigil where
  | waiting
  | releasing (grip : Grip)
  | over
deriving DecidableEq

/-- The watch over the exit of a process. -/
structure Lookout where
  process : Nat
  generation : Nat
  vigil : Vigil

/-- How far a watch is. -/
def WatchPlace.vigil : WatchPlace → Vigil
  | .waiting => .waiting
  | .releasing _ r => .releasing r.grip
  | .over => .over

/-- A watch as the rules see it. -/
def Watch.lookout (x : Watch) : Lookout := ⟨x.process, x.generation, x.place.vigil⟩

/-! ## Outlines -/

/-- The part of a world that the rules of the lifecycle speak of. -/
structure Outline where
  status : Status
  generation : Nat
  session : Session
  cancelled : List Token
  processes : List ServerProcess
  consoles : List Console
  /-- How often each client was stopped. -/
  stops : List Nat
  roles : List Role
  lookouts : List Lookout
  dissolved : Bool

/-- The outline of a world. -/
def World.outline (w : World) : Outline where
  status := w.status
  generation := w.generation
  session := w.session
  cancelled := w.cancelled
  processes := w.processes
  consoles := w.consoles
  stops := w.clients.map Client.stops
  roles := w.calls.map Call.role
  lookouts := w.watches.map Watch.lookout
  dissolved := w.dissolved

namespace Outline

/-- The outline with another role for a call. -/
def setRole (o : Outline) (i : Nat) (r : Role) : Outline := { o with roles := o.roles.set i r }

/-- The outline with a watch at another stage. -/
def setVigil (o : Outline) (j : Nat) (x : Lookout) (v : Vigil) : Outline :=
  { o with lookouts := o.lookouts.set j { x with vigil := v } }

/-- Calls something off. -/
def cancel (o : Outline) (t : Token) : Outline := { o with cancelled := o.cancelled ++ [t] }

/-- Moves from one of several states to another one, for a given generation only. -/
def transition (o : Outline) (generation : Nat) (sources : List Status) (target : Status) :
    Outline :=
  if o.generation = generation ∧ o.status ∈ sources then { o with status := target } else o

/-- Tells a console something. -/
def tell (o : Outline) (console : Nat) (command : ConsoleCommand) : Outline :=
  { o with consoles := o.consoles.modify console (·.told command) }

/-- Tells the console of a process something, if there is one. -/
def tellAny (o : Outline) (console : Option Nat) (command : ConsoleCommand) : Outline :=
  match console with
  | some c => o.tell c command
  | none => o

/-- The first disposal of a process. -/
def retire (o : Outline) (process : Nat) (p : ServerProcess) : Outline :=
  { o.tellAny p.console .kill with processes := o.processes.set process p.retired }

/-- Ends a process for good.  A second time changes nothing. -/
def dispose (o : Outline) (process : Nat) : Outline :=
  match o.processes[process]? with
  | some p => if p.disposed then o else o.retire process p
  | none => o

/-- The process in the session. -/
def process? (o : Outline) : Option Nat := o.session.process.map Stored.value

/-- Takes the live parts out of the session; the client is about to be stopped. -/
def takeLive (o : Outline) : Outline :=
  { o with
    session := o.session.withoutLive
    stops := match o.session.client with
      | some c => o.stops.modify c.value (· + 1)
      | none => o.stops }

/-- The outline with the debug session's slot empty. -/
def withoutDebug (o : Outline) : Outline :=
  { o with session := { o.session with debug := none } }

/-- Takes the one notifier of a process's exit and watches over it. -/
def watchExit (o : Outline) (generation process : Nat) (p : ServerProcess) : Outline :=
  if p.noticeTaken then o
  else
    { o with
      processes := o.processes.set process { p with noticeTaken := true }
      lookouts := o.lookouts ++ [⟨process, generation, .waiting⟩] }

/-- Takes a console over, in the place of an earlier one of the same process. -/
def hold (o : Outline) (process : Nat) (p : ServerProcess) (console : Nat)
    (number : Option Nat) : Outline :=
  let consoles := match p.console with
    | some previous => o.consoles.modify previous fun k => { k with released := true }
    | none => o.consoles
  { o with
    processes := o.processes.set process (p.holding console number)
    consoles := consoles.modify console fun k => { k with watched := true } }

/-- A disposal leaves everything as it is, unless it is the first one of its process. -/
theorem dispose_cases (o : Outline) (p : Nat) :
    o.dispose p = o ∨ ∃ q, o.processes[p]? = some q ∧ q.disposed = false ∧
      o.dispose p = o.retire p q := by
  unfold dispose
  split
  · rename_i q hq
    split
    · exact .inl rfl
    · rename_i hd
      exact .inr ⟨q, hq, by simpa using hd, rfl⟩
  · exact .inl rfl

/-- A disposal commutes with what leaves processes alone and commutes with retiring one. -/
theorem dispose_comm (o : Outline) (f : Outline → Outline) (p : Nat)
    (hprocesses : ∀ o, (f o).processes = o.processes)
    (hretire : ∀ o q, (f o).retire p q = f (o.retire p q)) :
    (f o).dispose p = f (o.dispose p) := by
  unfold dispose
  rw [hprocesses]
  split
  · split
    · rfl
    · exact hretire o _
  · rfl

/-- A disposal changes processes and consoles only. -/
theorem dispose_eq (o : Outline) (p : Nat) :
    ∃ (processes : List ServerProcess) (consoles : List Console),
      o.dispose p = { o with processes := processes, consoles := consoles } := by
  rcases o.dispose_cases p with h | ⟨q, -, -, h⟩
  · exact ⟨_, _, h⟩
  · rw [h]
    cases hc : q.console with
    | none => exact ⟨o.processes.set p q.retired, o.consoles, by simp [retire, tellAny, hc]⟩
    | some c =>
      exact ⟨o.processes.set p q.retired, o.consoles.modify c (·.told .kill),
        by simp [retire, tellAny, hc, tell]⟩

@[simp]
theorem dispose_roles (o : Outline) (p : Nat) : (o.dispose p).roles = o.roles := by
  obtain ⟨_, _, h⟩ := o.dispose_eq p
  rw [h]

@[simp]
theorem dispose_session (o : Outline) (p : Nat) : (o.dispose p).session = o.session := by
  obtain ⟨_, _, h⟩ := o.dispose_eq p
  rw [h]

@[simp]
theorem dispose_lookouts (o : Outline) (p : Nat) : (o.dispose p).lookouts = o.lookouts := by
  obtain ⟨_, _, h⟩ := o.dispose_eq p
  rw [h]

@[simp]
theorem dispose_status (o : Outline) (p : Nat) : (o.dispose p).status = o.status := by
  obtain ⟨_, _, h⟩ := o.dispose_eq p
  rw [h]

@[simp]
theorem dispose_generation (o : Outline) (p : Nat) :
    (o.dispose p).generation = o.generation := by
  obtain ⟨_, _, h⟩ := o.dispose_eq p
  rw [h]

@[simp]
theorem dispose_cancelled (o : Outline) (p : Nat) : (o.dispose p).cancelled = o.cancelled := by
  obtain ⟨_, _, h⟩ := o.dispose_eq p
  rw [h]

@[simp]
theorem dispose_stops (o : Outline) (p : Nat) : (o.dispose p).stops = o.stops := by
  obtain ⟨_, _, h⟩ := o.dispose_eq p
  rw [h]

@[simp]
theorem watchExit_roles (o : Outline) (g p : Nat) (q : ServerProcess) :
    (o.watchExit g p q).roles = o.roles := by
  unfold watchExit
  split <;> rfl

@[simp]
theorem transition_roles (o : Outline) (g : Nat) (sources : List Status) (target : Status) :
    (o.transition g sources target).roles = o.roles := by
  unfold transition
  split <;> rfl

/-! ### Changes that do not meet -/

section Roles

variable (o : Outline) (i : Nat) (r s : Role)

/-- The last role of a call counts. -/
@[simp]
theorem setRole_setRole : (o.setRole i r).setRole i s = o.setRole i s := by
  simp [setRole]

/-- A step of the status and a role are written in either order. -/
@[simp]
theorem transition_setRole (g : Nat) (sources : List Status) (target : Status) :
    (o.setRole i r).transition g sources target =
      (o.transition g sources target).setRole i r := by
  unfold transition setRole
  split <;> rfl

/-- A disposal and a role are written in either order. -/
@[simp]
theorem dispose_setRole (p : Nat) : (o.setRole i r).dispose p = (o.dispose p).setRole i r :=
  o.dispose_comm (·.setRole i r) p (fun _ => rfl) fun _ q => by
    cases hc : q.console <;> simp only [retire, tellAny, hc] <;> rfl

/-- Emptying the room and disposing are done in either order. -/
@[simp]
theorem dispose_withoutDebug (p : Nat) : o.withoutDebug.dispose p = (o.dispose p).withoutDebug :=
  o.dispose_comm withoutDebug p (fun _ => rfl) fun _ q => by
    cases hc : q.console <;> simp only [retire, tellAny, hc] <;> rfl

/-- Emptying the room and a role are written in either order. -/
@[simp]
theorem withoutDebug_setRole : (o.setRole i r).withoutDebug = o.withoutDebug.setRole i r :=
  rfl

/-- A new watch and a role are written in either order. -/
@[simp]
theorem watchExit_setRole (g p : Nat) (q : ServerProcess) :
    (o.setRole i r).watchExit g p q = (o.watchExit g p q).setRole i r := by
  unfold watchExit setRole
  split <;> rfl

/-- Holding a console and a role are written in either order. -/
@[simp]
theorem hold_setRole (p : Nat) (q : ServerProcess) (c : Nat) (n : Option Nat) :
    (o.setRole i r).hold p q c n = (o.hold p q c n).setRole i r :=
  rfl

end Roles

section Vigils

variable (o : Outline) (j : Nat) (x : Lookout) (v v' : Vigil)

/-- The last state of a watch counts. -/
@[simp]
theorem setVigil_setVigil :
    (o.setVigil j x v).setVigil j { x with vigil := v } v' = o.setVigil j x v' := by
  simp [setVigil]

/-- A disposal and the state of a watch are written in either order. -/
@[simp]
theorem dispose_setVigil (p : Nat) :
    (o.setVigil j x v).dispose p = (o.dispose p).setVigil j x v :=
  o.dispose_comm (·.setVigil j x v) p (fun _ => rfl) fun _ q => by
    cases hc : q.console <;> simp only [retire, tellAny, hc] <;> rfl

end Vigils

end Outline

/-! ## Changes of a world -/

namespace World

variable (w : World)

/-- A warning is not part of the outline. -/
@[simp]
theorem outline_warn (topic : Topic) (text : String) : (w.warn topic text).outline = w.outline :=
  rfl

/-- A command on its way to a console is not part of the outline. -/
@[simp]
theorem outline_post (c : Nat) (command : Option ConsoleCommand) :
    (w.post c command).outline = w.outline :=
  rfl

/-- A process is seen in the outline as it is. -/
@[simp]
theorem outline_setProcess (i : Nat) (p : ServerProcess) :
    (w.setProcess i p).outline = { w.outline with processes := w.outline.processes.set i p } :=
  rfl

/-- Calling off is seen in the outline. -/
@[simp]
theorem outline_cancel (t : Token) : (w.cancel t).outline = w.outline.cancel t :=
  rfl

/-- A console is seen in the outline as it is. -/
@[simp]
theorem outline_setConsole (i : Nat) (c : Console) :
    (w.setConsole i c).outline = { w.outline with consoles := w.outline.consoles.set i c } :=
  rfl

@[simp]
theorem outline_setConnection (i : Nat) (k : Connection) :
    (w.setConnection i k).outline = w.outline :=
  rfl

/-- A call at another stage changes its role. -/
@[simp]
theorem outline_setCall (i : Nat) (c : Call) :
    (w.setCall i c).outline = w.outline.setRole i c.role := by
  simp [outline, setCall, Outline.setRole, List.map_set]

/-- A watch at another place changes its stage. -/
@[simp]
theorem outline_moveWatch (j : Nat) (x : Watch) (place : WatchPlace) :
    (w.moveWatch j x place).outline = w.outline.setVigil j x.lookout place.vigil := by
  simp [outline, moveWatch, Outline.setVigil, List.map_set, Watch.lookout]

/-- A client that was not stopped leaves the outline as it is. -/
theorem outline_setClient {i : Nat} {c c' : Client} (hc : w.clients[i]? = some c)
    (h : c'.stops = c.stops) : (w.setClient i c').outline = w.outline := by
  simp only [outline, setClient, map_set_of_eq hc h]

@[simp]
theorem outline_abandonClient (i : Nat) : (w.abandonClient i).outline = w.outline := by
  unfold abandonClient
  split
  · rfl
  · rename_i c hc
    exact w.outline_setClient hc rfl

/-- The status is seen, the event for it is not. -/
@[simp]
theorem outline_setStatus (s : Status) :
    (w.setStatus s).outline = { w.outline with status := s } := by
  unfold setStatus
  split
  · rename_i h
    subst h
    rfl
  · rfl

/-- A step of the status is the same step in the outline. -/
@[simp]
theorem outline_transition (g : Nat) (sources : List Status) (target : Status) :
    (w.transition g sources target).1.outline = w.outline.transition g sources target := by
  unfold transition Outline.transition
  by_cases h : w.generation = g ∧ w.status ∈ sources
  · rw [if_pos h, if_pos (show w.outline.generation = g ∧ w.outline.status ∈ sources from h)]
    exact w.outline_setStatus target
  · rw [if_neg h, if_neg (show ¬(w.outline.generation = g ∧ w.outline.status ∈ sources) from h)]

/-- Files are not part of the outline. -/
@[simp]
theorem outline_deleteSessionFile (p : Path) : (w.deleteSessionFile p).outline = w.outline := by
  unfold deleteSessionFile
  split <;> rfl

/-- What a search has found out is not part of the outline. -/
@[simp]
theorem outline_learn {α : Type} (t : Discovery.Traced α) :
    (w.learn t).1.outline = w.outline := by
  have hfold : ∀ (texts : List String) (v : World),
      (texts.foldl (fun v text => v.warn .discovery text) v).outline = v.outline := by
    intro texts
    induction texts with
    | nil => intro v; rfl
    | cons text rest ih => intro v; exact ih (v.warn .discovery text)
  exact hfold t.warnings w

/-- Telling a console something is seen on the console. -/
@[simp]
theorem outline_tell (c : Nat) (command : ConsoleCommand) :
    (w.tell c command).outline = w.outline.tell c command := by
  unfold tell
  split
  · rename_i hc
    have hnone : w.outline.consoles[c]? = none := hc
    simp only [Outline.tell]
    rw [List.modify_eq_self (List.getElem?_eq_none_iff.1 hnone)]
  · rename_i k hk
    have hset : w.outline.consoles.modify c (·.told command) =
        w.outline.consoles.set c (k.told command) :=
      modify_eq_set_of_some (l := w.outline.consoles) hk _
    split <;> simp [Outline.tell, hset]

/-- Telling a process something is telling its console, if it has one. -/
@[simp]
theorem outline_tellProcess (p : Nat) (command : ConsoleCommand) :
    (w.tellProcess p command).outline =
      w.outline.tellAny (w.processes[p]?.bind ServerProcess.console) command := by
  unfold tellProcess Outline.tellAny
  cases w.processes[p]?.bind ServerProcess.console with
  | none => rfl
  | some c => exact w.outline_tell c command

/-- Disposing of a process in a world is the same in its outline. -/
@[simp]
theorem outline_dispose (p : Nat) : (w.dispose p).outline = w.outline.dispose p := by
  unfold dispose Outline.dispose
  have hp : w.outline.processes[p]? = w.processes[p]? := rfl
  rw [hp]
  cases h : w.processes[p]? with
  | none => rfl
  | some q =>
    by_cases hd : q.disposed = true
    · simp [hd]
    · have hfile : (w.deleteSessionFile q.spec.sessionFile).processes[p]? = some q := by
        unfold deleteSessionFile
        split <;> exact h
      simp [hd, hfile, Outline.retire, Outline.tellAny]
      cases q.console <;> rfl

/-- Ending a debug process calls its launch off and disposes of it. -/
@[simp]
theorem outline_endDebugProcess (p : Nat) :
    (w.endDebugProcess p).outline = (w.outline.cancel (.debug p)).dispose p := by
  simp [endDebugProcess]

end World

end SessionHost
