import SessionHost.Simulation.Stage

/-!
# Scenarios

What a scenario's steps do to a stage.  After every step a millisecond goes by, in which
everything that can happen at once has happened.

Main definitions:

- `Step`, `Stage.play`: a step, and what it leads to.
- `Stage.crash`, `Stage.push` and others: what happens from outside.
-/

namespace SessionHost.Simulation

open Json (Value)

/-- A step of a scenario. -/
inductive Step where
  /-- A call, which is waited for unless it runs in the background. -/
  | call (command : Command) (background : Bool)
  /-- Waits for all calls in the background. -/
  | join
  | sleep (time : Duration)
  /-- Something that takes no time. -/
  | act (change : Stage → Stage)

namespace Stage

/-! ## From outside -/

/-- A console that runs breaks down. -/
def crash (s : Stage) (console : Nat) (ending : Ending) : Stage :=
  match s.consoles[console]? with
  | some c => { s with consoles := s.consoles.set console { c with crash := some ending } }
  | none => s

/-- The latest connection. -/
def lastConnection? (s : Stage) : Option Nat :=
  if s.world.connections.isEmpty then none else some (s.world.connections.length - 1)

/-- Something happens at the server's end of the latest connection. -/
def onLastConnection (s : Stage) (move : Nat → Move) : Stage :=
  match s.lastConnection? with
  | some i => { s with world := s.world.after (move i) }
  | none => s

/-- The server sends bytes. -/
def push (s : Stage) (bytes : List UInt8) : Stage := s.onLastConnection (.send · bytes)

/-- The server sends a message. -/
def pushMessage (s : Stage) (message : Value) : Stage := s.push (Rpc.frameBytes message)

/-- The server sends a notification. -/
def notify (s : Stage) (method : String) (params : Option Value) : Stage :=
  s.pushMessage (.ofMembers
    ([("jsonrpc", .string "2.0"), ("method", .string method)] ++ Rpc.paramsMember params))

/-- More rules, which come before those there are. -/
def addRules (s : Stage) (rules : Rules) : Stage := { s with rules := rules ++ s.rules }

/-- The world changes. -/
def change (s : Stage) (f : World → World) : Stage := { s with world := f s.world }

/-- The world with a new client on a connection of its own, for which somebody listens. -/
def withClient (s : Stage) : Stage × Nat :=
  let w := s.world
  let connection : Connection := { endpoint := .pipe "", answer := some (.ok ()) }
  let (w, client) := { w with connections := w.connections ++ [connection] }.newClient
    w.connections.length w.config.mailboxRoom
  ({ s with world := w, servers := s.servers ++ [({} : ScriptedServer)] }, client)

/-- The signals of all clients, which are taken out of their mailboxes. -/
def takeSignals (s : Stage) : Stage × List ClientSignal :=
  (s.change fun w => { w with clients := w.clients.map fun c => { c with mailbox := [] } },
    s.world.clients.flatMap Client.mailbox)

/-! ## Steps -/

/-- The results of calls. -/
def results (s : Stage) (is : List Nat) : List CallResult :=
  is.filterMap fun i => (s.world.calls[i]?).bind Call.result?

/-- A while goes by. -/
def rest (s : Stage) (time : Duration) : Stage :=
  { s with front := none }.settle (.time (s.world.now + time.nanos))

/-- Short whiles go by, a limited number of them, until a test holds. -/
def restUntil (s : Stage) (test : World → Bool) : Nat → Stage
  | 0 => s
  | n + 1 => if test s.world then s else restUntil (s.rest (.ofMillis 5)) test n

/-- What a step leads to before the millisecond that follows it, with the results of the calls
that were waited for. -/
def begin (s : Stage) (step : Step) : Stage × List CallResult :=
  match step with
  | .call command background =>
    let i := s.world.calls.length
    let s := { s with world := s.world.after (.ask command) }
    if s.world.calls.length = i then (s, [])
    else if background then ({ s with background := s.background ++ [i] }, [])
    else
      let s := ({ s with front := some i }.runFront).settle (.calls [i])
      (s, s.results [i])
  | .join =>
    let is := s.background
    let s := { s with background := [], front := none }.settle (.calls is)
    (s, s.results is)
  | .sleep time => (s.rest time, [])
  | .act change => ((change s).react, [])

/-- What a step leads to. -/
def play (s : Stage) (step : Step) : Stage × List CallResult :=
  let (s, results) := s.begin step
  (s.rest (.ofMillis 1), results)

end Stage

end SessionHost.Simulation
