import SessionHost.Session.Teardown

/-!
# Watching a running session

Behind a running session, one activity waits for the exit of its console and one handles the
signals of its client.  Both carry their generation and leave later ones alone.

Main definitions:

- `World.passOn?`: a console's exit reaches its process.
- `World.watch?`: one piece of the watch over an exit.
- `World.pump?`: one piece of the handling of signals.
- `World.updateSettings`: the answer to changed settings.
-/

namespace SessionHost

namespace World

/-! ## Exits -/

/-- A console's exit reaches its process. -/
def passOn? (w : World) (console : Nat) : Option World := do
  let c ← w.consoles[console]?
  let p ← w.processes[c.owner]?
  let ending ← c.ending
  if c.watched && !c.passedOn then
    some ((w.setConsole console { c with passedOn := true }).setProcess c.owner
      { p with exit := some ending.exit })
  else
    none

/-- The world with a watch at another place. -/
def moveWatch (w : World) (i : Nat) (x : Watch) (place : WatchPlace) : World :=
  { w with watches := w.watches.set i { x with place } }

/-- The end of a watch that has seen an exit nobody asked for. -/
def reportExit (w : World) (i : Nat) (x : Watch) (exit : ConsoleExit) : World :=
  let notice := (SessionFailure.unexpectedExit exit.code).notice
  (w.record (.unexpectedExit x.generation notice)).moveWatch i x .over

/-- What a watch does with an exit: one that was asked for, or that comes while its session
does not run, is none of its business. -/
def seeExit (w : World) (i : Nat) (x : Watch) (exit : ConsoleExit) : World :=
  if exit.requested || w.dissolved then w.moveWatch i x .over
  else
    let (w, moved) := w.transition x.generation [.running, .busy] .failed
    if moved then
      (w.warn .session ("'" ++ x.name ++ "' exited unexpectedly")).moveWatch i x
        (.releasing exit .taking)
    else
      w.moveWatch i x .over

/-- One piece of the watch over an exit. -/
def watch? (w : World) (i : Nat) : Option World := do
  let x ← w.watches[i]?
  match x.place with
  | .waiting =>
    let p ← w.processes[x.process]?
    let exit ← p.exit
    some (w.seeExit i x exit)
  | .releasing exit r =>
    match w.release x.generation r with
    | .blocked => none
    | .going w r => some (w.moveWatch i x (.releasing exit r))
    | .finished w _ => some (w.reportExit i x exit)
  | .over => none

/-! ## Signals -/

/-- The world with a pump at another place. -/
def movePump (w : World) (i : Nat) (x : Pump) (place : PumpPlace) : World :=
  { w with pumps := w.pumps.set i { x with place } }

/-- The end of a pump: nobody hears the client any longer. -/
def endPump (w : World) (i : Nat) (x : Pump) : World :=
  let w := match w.clients[x.client]? with
    | some c => w.setClient x.client { c with heard := false, mailbox := [] }
    | none => w
  w.movePump i x .over

/-- What a pump does with a signal.  The server alone says whether a session is busy. -/
def handle (w : World) (i : Nat) (x : Pump) (signal : ClientSignal) : World :=
  if w.dissolved then w.endPump i x
  else
    match signal with
    | .server (.busy true) => (w.transition x.generation [.running] .busy).1
    | .server (.busy false) => (w.transition x.generation [.busy] .running).1
    | .server .keyPress => if w.generation = x.generation then w.movePump i x .pressing else w
    | .closed => w.endPump i x

/-- One piece of the handling of signals. -/
def pump? (w : World) (i : Nat) : Option World := do
  let x ← w.pumps[i]?
  match x.place with
  | .receiving =>
    let c ← w.clients[x.client]?
    match c.mailbox with
    | [] => if c.reading.isOver then some (w.endPump i x) else none
    | signal :: rest => some ((w.setClient x.client { c with mailbox := rest }).handle i x signal)
  | .pressing =>
    let w := match w.session.process with
      | some p => w.tellProcess p.value keyPress
      | none => w
    some (w.movePump i x .receiving)
  | .over => none

/-! ## Settings -/

/-- Takes new settings over.  A running session may have to be restarted for them, which is
suggested unless the default runtime is being changed. -/
def updateSettings (w : World) (s : Settings) : World :=
  let old := w.settings
  let w := { w with settings := s }
  if w.changing || !w.status.isLive then w
  else
    match coldChange? old s with
    | some setting => w.record (.restartSuggested setting)
    | none => w

/-- Gives the store, if there is one, a default runtime to write down. -/
def persistDefault (w : World) (name : String) : World :=
  match w.store with
  | .absent => w
  | .working => w.record (.persisted name)
  | .failing text =>
    (w.record (.persisted name)).warn .session
      ("Failed to persist default PowerShell '" ++ name ++ "': " ++ text)

/-- Begins to change the default runtime. -/
def announceDefault (w : World) (name : String) : World :=
  let w := { w with changing := true }.persistDefault name
  w.updateSettings { w.settings with defaultVersion := some name }

end World

end SessionHost
