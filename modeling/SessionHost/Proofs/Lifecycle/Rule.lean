import SessionHost.Proofs.Lifecycle.Outline

/-!
# The rules of the lifecycle

Everything that can happen to an outline, in the smallest pieces.  A piece of an activity, from
one suspension point to the next, is a chain of such pieces; what every rule keeps therefore
holds in every world.

A rule is labelled with the activity that takes it.  The rules for calls ask for the role of
the call and say which role it plays afterwards; everything that a call may only do while its
start has not been called off is guarded by the start's token.

Main definitions:

- `Turn`: changes of a role that touch nothing else.
- `Drop`: the places at which a process is given up and disposed of.
- `Rule`, `Leads`: one rule, and the chains of them.
-/

namespace SessionHost

/-- Who takes a step. -/
inductive Actor where
  | call (i : Nat)
  | watch (j : Nat)
  /-- Somebody outside, or the handling of a client's signals. -/
  | outside

/-- A process that nobody knows yet. -/
structure ServerProcess.IsNew (p : ServerProcess) (purpose : Purpose) : Prop where
  purpose_eq : p.purpose = purpose
  console_eq : p.console = none
  exit_eq : p.exit = none
  noticeTaken_eq : p.noticeTaken = false
  disposed_eq : p.disposed = false

open Role in
/-- Changes of a call's role that touch nothing else. -/
inductive Turn (o : Outline) : Role → Role → Prop where
  /-- A newer generation has taken over. -/
  | passClearing {g : Nat} (h : o.generation ≠ g) :
      Turn o (clearing g .reaching) (clearing g (.holding none))
  | cleared {g : Nat} : Turn o (clearing g (.holding none)) (starting g .nothing)
  /-- The launcher has answered with an error. -/
  | refused {u : Purpose} {p c : Nat} {k : Console} {e : SystemError}
      (hk : o.consoles[c]? = some k) (h : k.answer = some (.error e)) :
      Turn o (bringing u p (.answering c)) (bringing u p .up)
  /-- The launch has been called off, or its process disposed of. -/
  | giveUp {u : Purpose} {p : Nat} {s : Upbringing} {q : ServerProcess}
      (hs : s = .installed ∨ s = .up) (hq : o.processes[p]? = some q)
      (h : q.disposed = true ∨ q.purpose.token p ∈ o.cancelled) :
      Turn o (bringing u p s) bystander
  | landed {g p : Nat} : Turn o (bringing (.main g) p .up) (starting g .process)
  | fail {g : Nat} {m : Milestone} (h : .start g ∉ o.cancelled) :
      Turn o (starting g m) (failing g .reaching)
  /-- A start that has been called off leaves the status to others. -/
  | quit {g : Nat} {m : Milestone} (h : .start g ∈ o.cancelled) :
      Turn o (starting g m) bystander
  /-- A newer generation has taken over. -/
  | passFailing {g : Nat} (h : o.generation ≠ g) :
      Turn o (failing g .reaching) (failing g (.holding none))
  | debugStarted {p : Nat} : Turn o (bringing .debug p .up) bystander

open Role in
/-- The places at which a call gives a process up, which is then disposed of. -/
inductive Drop (o : Outline) : Role → Nat → Role → Prop where
  | emptyingDebug {p : Option Nat} {d : Nat} :
      Drop o (emptying p (some d)) d (emptying p none)
  | emptying {p : Nat} : Drop o (emptying (some p) none) p (emptying none none)
  | clearing {g p : Nat} :
      Drop o (clearing g (.holding (some p))) p (clearing g (.holding none))
  | failing {g p : Nat} : Drop o (failing g (.holding (some p))) p (failing g (.holding none))
  /-- The start was called off before the session knew its process. -/
  | unadopted {g p : Nat} (h : .start g ∈ o.cancelled) :
      Drop o (bringing (.main g) p .fresh) p bystander
  | replaced {p previous : Nat} :
      Drop o (replacing p previous) previous (bringing .debug p .installed)
  | debugFailed {p : Nat} : Drop o (bringing .debug p .up) p (withdrawing p)

/-- A change of a role does not depend on the roles. -/
theorem Turn.of_setRole {o : Outline} {r s : Role} (h : Turn o r s) (i : Nat) (t : Role) :
    Turn (o.setRole i t) r s := by
  cases h with
  | debugStarted => exact .debugStarted
  | giveUp hs hq h => exact .giveUp hs hq h
  | _ => constructor <;> assumption

/-- Giving a process up does not depend on the roles. -/
theorem Drop.of_setRole {o : Outline} {p : Nat} {r s : Role} (h : Drop o r p s) (i : Nat)
    (t : Role) : Drop (o.setRole i t) r p s := by
  cases h with
  | unadopted h => exact .unadopted h
  | _ => constructor

open Role in
/-- Everything that can happen to an outline. -/
inductive Rule : Actor → Outline → Outline → Prop where
  -- Calls in general.
  | ask {o : Outline} : Rule .outside o { o with roles := o.roles ++ [bystander] }
  | turn {o : Outline} {i : Nat} {r s : Role} (hr : o.roles[i]? = some r) (h : Turn o r s) :
      Rule (.call i) o (o.setRole i s)
  | drop {o : Outline} {i p : Nat} {r s : Role} (hr : o.roles[i]? = some r)
      (h : Drop o r p s) : Rule (.call i) o ((o.dispose p).setRole i s)
  -- Stops.
  | claimStop {o : Outline} {i : Nat} (hr : o.roles[i]? = some bystander)
      (h : o.status ≠ .notStarted) (h' : o.status ≠ .stopping) :
      Rule (.call i) o
        (({ o with status := .stopping }.cancel (.start o.generation)).setRole i stopping)
  | empty {o : Outline} {i : Nat} (hr : o.roles[i]? = some stopping) :
      Rule (.call i) o
        (o.takeLive.withoutDebug.setRole i (emptying o.process? o.session.debug))
  | endStop {o : Outline} {i : Nat} (hr : o.roles[i]? = some (emptying none none)) :
      Rule (.call i) o
        ((o.transition o.generation [.stopping] .notStarted).setRole i bystander)
  -- Starts.
  | claimStart {o : Outline} {i : Nat} (hr : o.roles[i]? = some bystander)
      (h : o.status = .notStarted ∨ o.status = .failed) :
      Rule (.call i) o
        ({ o with generation := o.generation + 1, status := .starting }.setRole i
          (clearing (o.generation + 1) .reaching))
  | clear {o : Outline} {i g : Nat} (hr : o.roles[i]? = some (clearing g .reaching))
      (h : o.generation = g) :
      Rule (.call i) o (o.takeLive.setRole i (clearing g (.holding o.process?)))
  | choose {o : Outline} {i : Nat} (exe : Executable) :
      Rule (.call i) o { o with session := { o.session with executable := some exe } }
  | createMain {o : Outline} {i g : Nat} {q : ServerProcess}
      (hr : o.roles[i]? = some (starting g .nothing)) (hq : q.IsNew (.main g)) :
      Rule (.call i) o
        ({ o with processes := o.processes ++ [q] }.setRole i
          (bringing (.main g) o.processes.length .fresh))
  | adopt {o : Outline} {i g p : Nat} {q : ServerProcess}
      (hr : o.roles[i]? = some (bringing (.main g) p .fresh))
      (hq : o.processes[p]? = some q) (h : .start g ∉ o.cancelled) :
      Rule (.call i) o
        (({ o with session := { o.session with process := some ⟨g, p⟩ } }.watchExit g p q).setRole
          i (bringing (.main g) p .installed))
  | note {o : Outline} {i g : Nat} (hr : o.roles[i]? = some (starting g .process))
      (h : .start g ∉ o.cancelled) (d : StartedSession) :
      Rule (.call i) o
        ({ o with session := { o.session with details := some ⟨g, d⟩ } }.setRole i
          (starting g .details))
  | connect {o : Outline} {i g : Nat} (hr : o.roles[i]? = some (starting g .details)) :
      Rule (.call i) o
        ({ o with stops := o.stops ++ [0] }.setRole i (starting g (.opening o.stops.length)))
  | keep {o : Outline} {i g c : Nat} (hr : o.roles[i]? = some (starting g (.opening c)))
      (h : .start g ∉ o.cancelled) :
      Rule (.call i) o
        ({ o with session := { o.session with client := some ⟨g, c⟩ } }.setRole i
          (starting g .client))
  | conclude {o : Outline} {i g : Nat} (hr : o.roles[i]? = some (starting g .client))
      (h : .start g ∉ o.cancelled) (v : RuntimeDetails) :
      Rule (.call i) o
        (({ o with session := { o.session with version := some ⟨g, v⟩ } }.transition g [.starting]
          .running).setRole i bystander)
  | retract {o : Outline} {i g : Nat} (hr : o.roles[i]? = some (failing g .reaching))
      (h : o.generation = g) :
      Rule (.call i) o (o.takeLive.setRole i (failing g (.holding o.process?)))
  | endFailed {o : Outline} {i g : Nat} (hr : o.roles[i]? = some (failing g (.holding none))) :
      Rule (.call i) o ((o.transition g [.starting] .failed).setRole i bystander)
  -- Launches.
  | launch {o : Outline} {i p : Nat} {u : Purpose} {q : ServerProcess}
      (hr : o.roles[i]? = some (bringing u p .installed)) (hq : o.processes[p]? = some q)
      (h : q.disposed = false) :
      Rule (.call i) o
        ({ o with consoles := o.consoles ++ [({ owner := p } : Console)] }.setRole i
          (bringing u p (.answering o.consoles.length)))
  | hold {o : Outline} {i p c : Nat} {u : Purpose} {q : ServerProcess} {k : Console}
      {n : Option Nat} (hr : o.roles[i]? = some (bringing u p (.answering c)))
      (hq : o.processes[p]? = some q) (h : q.disposed = false) (hk : o.consoles[c]? = some k)
      (ha : k.answer = some (.ok n)) :
      Rule (.call i) o ((o.hold p q c n).setRole i (bringing u p .up))
  /-- The console has come too late. -/
  | dismiss {o : Outline} {i p c : Nat} {u : Purpose} {q : ServerProcess}
      (hr : o.roles[i]? = some (bringing u p (.answering c))) (hq : o.processes[p]? = some q)
      (h : q.disposed = true) : Rule (.call i) o ((o.tell c .kill).setRole i bystander)
  -- Debug sessions.
  | createDebug {o : Outline} {i : Nat} {q : ServerProcess}
      (hr : o.roles[i]? = some bystander) (hq : q.IsNew .debug) :
      Rule (.call i) o
        ({ o with processes := o.processes ++ [q] }.setRole i
          (bringing .debug o.processes.length .fresh))
  | install {o : Outline} {i p : Nat} (hr : o.roles[i]? = some (bringing .debug p .fresh)) :
      Rule (.call i) o
        ({ o with session := { o.session with debug := some p } }.setRole i
          (match o.session.debug with
            | some previous => replacing p previous
            | none => bringing .debug p .installed))
  | callOff {o : Outline} {i : Nat} (p : Nat) : Rule (.call i) o (o.cancel (.debug p))
  | withdraw {o : Outline} {i p : Nat} (hr : o.roles[i]? = some (withdrawing p)) :
      Rule (.call i) o
        ((if o.session.debug = some p then o.withoutDebug else o).setRole i bystander)
  | endDebug {o : Outline} {i d : Nat} (h : o.session.debug = some d) :
      Rule (.call i) o (o.dispose d).withoutDebug
  -- Watches.
  /-- A live session loses its console. -/
  | fall {o : Outline} {j : Nat} {x : Lookout} {q : ServerProcess} {e : ConsoleExit}
      (hx : o.lookouts[j]? = some x) (hv : x.vigil = .waiting)
      (hq : o.processes[x.process]? = some q) (he : q.exit = some e)
      (hr : e.requested = false) (hg : o.generation = x.generation)
      (hs : o.status.isLive = true) :
      Rule (.watch j) o ({ o with status := .failed }.setVigil j x (.releasing .reaching))
  /-- The exit is none of the watch's business. -/
  | ignore {o : Outline} {j : Nat} {x : Lookout} {q : ServerProcess} {e : ConsoleExit}
      (hx : o.lookouts[j]? = some x) (hv : x.vigil = .waiting)
      (hq : o.processes[x.process]? = some q) (he : q.exit = some e)
      (h : e.requested = true ∨ ¬(o.generation = x.generation ∧ o.status.isLive = true)) :
      Rule (.watch j) o (o.setVigil j x .over)
  | passWatch {o : Outline} {j : Nat} {x : Lookout} (hx : o.lookouts[j]? = some x)
      (hv : x.vigil = .releasing .reaching) (h : o.generation ≠ x.generation) :
      Rule (.watch j) o (o.setVigil j x (.releasing (.holding none)))
  | seize {o : Outline} {j : Nat} {x : Lookout} (hx : o.lookouts[j]? = some x)
      (hv : x.vigil = .releasing .reaching) (h : o.generation = x.generation) :
      Rule (.watch j) o (o.takeLive.setVigil j x (.releasing (.holding o.process?)))
  | dropWatch {o : Outline} {j p : Nat} {x : Lookout} (hx : o.lookouts[j]? = some x)
      (hv : x.vigil = .releasing (.holding (some p))) :
      Rule (.watch j) o ((o.dispose p).setVigil j x (.releasing (.holding none)))
  | endWatch {o : Outline} {j : Nat} {x : Lookout} (hx : o.lookouts[j]? = some x)
      (hv : x.vigil = .releasing (.holding none)) : Rule (.watch j) o (o.setVigil j x .over)
  -- Servers, launchers and consoles.
  | busy {o : Outline} (h : o.status = .running) : Rule .outside o { o with status := .busy }
  | idle {o : Outline} (h : o.status = .busy) : Rule .outside o { o with status := .running }
  | answer {o : Outline} {c : Nat} {k : Console} {a : LaunchAnswer}
      (hk : o.consoles[c]? = some k) (h : k.answer = none) :
      Rule .outside o { o with consoles := o.consoles.set c { k with answer := some a } }
  | ending {o : Outline} {c : Nat} {k : Console} {e : Ending}
      (hk : o.consoles[c]? = some k) (h : k.ending = none) :
      Rule .outside o { o with consoles := o.consoles.set c { k with ending := some e } }
  | passOn {o : Outline} {c : Nat} {k : Console} {q : ServerProcess} {e : Ending}
      (hk : o.consoles[c]? = some k) (hq : o.processes[k.owner]? = some q)
      (he : k.ending = some e) (hw : k.watched = true) (hp : k.passedOn = false) :
      Rule .outside o
        { o with
          consoles := o.consoles.set c { k with passedOn := true }
          processes := o.processes.set k.owner { q with exit := some e.exit } }
  | write {o : Outline} {a : Actor} (c : Nat) {command : ConsoleCommand}
      (h : command ≠ .kill) : Rule a o (o.tell c command)

/-- What a chain of rules leads to, all of them taken by one actor. -/
def Leads (a : Actor) : Outline → Outline → Prop := Relation.ReflTransGen (Rule a)

namespace Leads

variable {a : Actor} {o o' o'' : Outline}

theorem refl (a : Actor) (o : Outline) : Leads a o o :=
  Relation.ReflTransGen.refl

theorem of_eq (h : o' = o) : Leads a o o' :=
  h ▸ refl a o

theorem rule (h : Rule a o o') : Leads a o o' :=
  Relation.ReflTransGen.single h

theorem trans (h : Leads a o o') (h' : Leads a o' o'') : Leads a o o'' :=
  Relation.ReflTransGen.trans h h'

/-- A chain goes on with one more rule. -/
theorem andRule (h : Leads a o o') (h' : Rule a o' o'') : Leads a o o'' :=
  Relation.ReflTransGen.tail h h'

/-- What every rule keeps is kept by a chain. -/
theorem keeps {P : Outline → Prop} (h : Leads a o o') (hP : ∀ u v, P u → Rule a u v → P v)
    (ho : P o) : P o' := by
  induction h with
  | refl => exact ho
  | tail _ hrule ih => exact hP _ _ ih hrule

end Leads

end SessionHost
