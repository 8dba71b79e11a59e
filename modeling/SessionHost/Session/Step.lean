import SessionHost.Session.DebugSession
import SessionHost.Session.Watching
import SessionHost.Client.Routing

/-!
# Steps

Who can run, and what they do: every activity of a session takes one piece at a time, from one
suspension point to the next.

Main definitions:

- `Runner`: the names of the activities.
- `World.step?`: one piece of an activity, if it can run.
- `World.perform?`: the work on the file system that a call waits for.
- `World.alarm?`: the time at which an activity goes on by itself.
-/

namespace SessionHost

/-- An activity, by its number. -/
inductive Runner where
  | call (i : Nat)
  /-- The passing on of a console's exit. -/
  | exit (console : Nat)
  | watch (i : Nat)
  | reading (client : Nat)
  | writing (client : Nat)
  | pump (i : Nat)
deriving DecidableEq

namespace World

/-! ## Calls -/

/-- A piece of a call. -/
abbrev CallProgress := Progress World Job CallResult

/-- The first piece of a part of a call. -/
def beginPhase (w : World) (p : Phase) : Progress World PhasePlace PhaseEnd :=
  match p with
  | .announce name => .finished (w.announceDefault name) .done
  | .stop => w.beginStop.andThen .stopping .finished
  | .start name => (w.beginStart name).andThen .starting .finished
  | .settle => .finished { w with changing := false } .done

/-- The parts of a call, one after the other. -/
def runPhases (w : World) : List Phase → CallProgress
  | [] => .finished w .done
  | p :: rest =>
    match w.beginPhase p with
    | .blocked => .blocked
    | .going w place => .going w (.phased place rest)
    | .finished w .done => runPhases w rest
    | .finished w .aborted => .finished w .aborted

/-- One piece of a part of a call. -/
def phase (w : World) (place : PhasePlace) : Progress World PhasePlace PhaseEnd :=
  match place with
  | .stopping p => (w.stop p).andThen .stopping .finished
  | .starting p => (w.start p).andThen .starting .finished

/-- Begins an exchange of a client that belongs to no session. -/
def beginExchange {σ : Type} (w : World) (client : Nat) (begin : Client → Client × σ)
    (wrap : σ → Job) : CallProgress :=
  match w.clients[client]? with
  | none => .blocked
  | some c =>
    let (c, place) := begin c
    .going (w.setClient client c) (wrap place)

/-- The first piece of a call. -/
def beginCall (w : World) (command : Command) : CallProgress :=
  match command with
  | .start => w.runPhases [.start none]
  | .stop => w.runPhases [.stop]
  | .restart name => w.runPhases [.stop, .start name]
  | .changeDefault name => w.runPhases [.announce name, .stop, .start (some name), .settle]
  | .startDebug name => (w.beginDebug name).andThen .debugging fun w o => .finished w (.debug o)
  | .stopDebug => .going w .endingDebug
  | .reveal preserve =>
    let w := match w.session.process with
      | some p => w.tellProcess p.value (.reveal preserve)
      | none => w
    .finished w .done
  | .updateSettings s => .finished (w.updateSettings s) .done
  | .settings => .finished w (.settings w.settings)
  | .available =>
    let (w, found) := w.learn ((w.finder w.settings).all w.config.probe)
    .finished w (.executables found)
  | .executable => .finished w (.executable w.session.executable)
  | .launch p => (w.beginLaunch p).andThen (.launching p) fun w o => .finished w (.launch o)
  | .openClient c profileLoading cwd timeout =>
    w.beginExchange c (fun k => k.beginOpening (w.openingParams profileLoading cwd) timeout)
      (.opening c)
  | .askVersion c timeout =>
    w.beginExchange c (fun k => k.request .getVersion none timeout) (.asking c)
  | .closeClient c timeout => w.beginExchange c (fun k => k.beginClosing w.now timeout) (.closing c)

/-- The end of an opening: a client that could not be opened is given up. -/
def endOpening (w : World) (client : Nat) (result : Except OpeningFailure Unit) : CallProgress :=
  match result with
  | .ok _ => .finished w (.opened result)
  | .error _ => .finished (w.abandonClient client) (.opened result)

/-- One piece of a call. -/
def call (w : World) (job : Job) : CallProgress :=
  match job with
  | .fresh command => w.beginCall command
  | .phased place next =>
    match w.phase place with
    | .blocked => .blocked
    | .going w place => .going w (.phased place next)
    | .finished w .done => w.runPhases next
    | .finished w .aborted => .finished w .aborted
  | .debugging place => (w.debug place).andThen .debugging fun w o => .finished w (.debug o)
  | .endingDebug => .finished w.endDebug .done
  | .launching p place =>
    (w.launch p place).andThen (.launching p) fun w o => .finished w (.launch o)
  | .opening c place =>
    (w.onClient c fun k => place.step w.now k).andThen (.opening c) fun w r => w.endOpening c r
  | .asking c request =>
    (w.onClient c fun k => request.step w.now k).andThen (.asking c) fun w r =>
      .finished w (.version (runtimeDetails r))
  | .closing c place =>
    (w.onClient c fun k => place.step w.now k).andThen (.closing c) fun w _ => .finished w .done

/-- The world with a call at another stage. -/
def setCall (w : World) (i : Nat) (c : Call) : World := { w with calls := w.calls.set i c }

/-- One piece of a call, if it can run. -/
def call? (w : World) (i : Nat) : Option World :=
  match w.calls[i]? with
  | some (.active job) =>
    match w.call job with
    | .blocked => none
    | .going w job => some (w.setCall i (.active job))
    | .finished w result => some (w.setCall i (.over result))
  | _ => none

/-! ## All activities -/

/-- One piece of a client's reading or writing activity. -/
def onWire? (w : World) (client : Nat)
    (step : Client → Connection → Option (Client × Connection)) : Option World := do
  let c ← w.clients[client]?
  let k ← w.connections[c.connection]?
  let (c', k') ← step c k
  some ((w.setClient client c').setConnection c.connection k')

/-- One piece of an activity, if it can run. -/
def step? (w : World) (r : Runner) : Option World :=
  match r with
  | .call i => w.call? i
  | .exit c => w.passOn? c
  | .watch i => w.watch? i
  | .reading c => w.onWire? c Client.read?
  | .writing c => w.onWire? c Client.write?
  | .pump i => w.pump? i

/-- What a call waits for outside, when it is there: work on the file system, or the end of an
interval. -/
def performJob (w : World) (job : Job) : Option (World × Job) :=
  match job with
  | .phased (.starting p) next =>
    (w.prepareStart p).map fun r => (r.1, .phased (.starting r.2) next)
  | .debugging p => (w.prepareDebug p).map fun r => (r.1, .debugging r.2)
  | .launching process p => (w.arrival? process p).map fun p => (w, .launching process p)
  | _ => none

/-- Brings what a call waits for outside. -/
def perform? (w : World) (i : Nat) : Option World :=
  match w.calls[i]? with
  | some (.active job) => (w.performJob job).map fun r => r.1.setCall i (.active r.2)
  | _ => none

/-- All activities. -/
def runners (w : World) : List Runner :=
  (List.range w.calls.length).map .call ++
  (List.range w.consoles.length).map .exit ++
  (List.range w.watches.length).map .watch ++
  (List.range w.clients.length).map .reading ++
  (List.range w.clients.length).map .writing ++
  (List.range w.pumps.length).map .pump

/-! ## The end of the session -/

/-- Somebody uses the session: a holder, a call, or an activity in the middle of its work. -/
def inUse (w : World) : Bool :=
  w.held || w.calls.any (fun c => c.result?.isNone) ||
  w.watches.any (fun x => match x.place with
    | .releasing _ _ => true
    | _ => false) ||
  w.pumps.any (fun x => match x.place with
    | .pressing => true
    | _ => false)

/-- The end of a session that nobody uses: its processes are disposed of and its client is
given up. -/
def dissolve (w : World) : World :=
  let s := w.session
  let w := { w with session := {}, dissolved := true }.disposeAny (s.process.map Stored.value)
  let w := match s.client with
    | some c => w.abandonClient c.value
    | none => w
  w.disposeAny s.debug

end World

/-! ## Alarms -/

/-- The time at which a call goes on by itself. -/
def Job.alarm? : Job → Option Nat
  | .phased (.stopping p) _ => p.alarm?
  | .phased (.starting p) _ => p.alarm?
  | .debugging p => p.alarm?
  | .launching _ p => p.alarm?
  | .opening _ p => p.alarm?
  | .asking _ request => request.alarm?
  | .closing _ p => p.alarm?
  | _ => none

/-- The time at which an activity goes on by itself. -/
def World.alarm? (w : World) (r : Runner) : Option Nat :=
  match r with
  | .call i =>
    match w.calls[i]? with
    | some (.active job) => job.alarm?
    | _ => none
  | .watch i =>
    match w.watches[i]?.map Watch.place with
    | some (.releasing _ r) => r.alarm?
    | _ => none
  | _ => none

end SessionHost
