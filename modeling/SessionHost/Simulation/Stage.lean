import SessionHost.Simulation.Launcher
import SessionHost.Simulation.Server

/-!
# The stage

One order in which everything happens: activities that can run stand in a queue and run, one
after the other, as far as they get; the caller in the foreground runs when nobody else can;
work on the file system is done when nobody can run at all, and only then does time go on, to
the next moment at which something happens by itself.

Main definitions:

- `Stage`: a world with its scripted surroundings and the queue.
- `Stage.react`: the answers of the surroundings that come at once.
- `Stage.runUntil`: everything that happens up to a goal.
-/

namespace SessionHost.Simulation

open Json (Value)

/-- Who can stand in the queue. -/
inductive Actor where
  | runner (r : Runner)
  | console (i : Nat)
  | server (i : Nat)
deriving DecidableEq

/-- What becomes of attempts to connect. -/
inductive ConnectMode where
  | accept
  | refuse (text : String)
  | delay (time : Duration)
  | hang

/-- A world with its scripted surroundings and the queue. -/
structure Stage where
  world : World
  launcher : LauncherScript := .standard
  connectMode : ConnectMode := .accept
  rules : Rules := standardRules
  /-- Servers take no more messages. -/
  stalled : Bool := false
  consoles : List ScriptedConsole := []
  servers : List ScriptedServer := []
  /-- The connections that are accepted later, and when. -/
  accepting : List (Nat × Nat) := []
  /-- The messages that servers have taken. -/
  received : List Value := []
  queue : List Actor := []
  /-- The call in the foreground. -/
  front : Option Nat := none
  /-- The calls in the background that nobody has waited for yet. -/
  background : List Nat := []
  /-- A stop takes place inside the question for a file with this number. -/
  stopInQuestion : Nat := 0
  /-- How many questions for a file have been asked. -/
  questions : Nat := 0

namespace Stage

/-! ## Surroundings -/

/-- The launcher takes note of launches that are new to it. -/
def seeLaunches (s : Stage) : Stage :=
  let fresh : ScriptedConsole :=
    { script := s.launcher, answerAt := some (s.world.now + s.launcher.launchDelay.nanos) }
  { s with
    consoles :=
      s.consoles ++ List.replicate (s.world.consoles.length - s.consoles.length) fresh }

/-- Answers the launches whose time has come. -/
def answerLaunches (s : Stage) : Stage :=
  (List.range s.consoles.length).foldl (fun s i =>
    match s.consoles[i]? with
    | some c =>
      if isDue c.answerAt s.world.now then
        let (c, w) := c.answer i s.world
        { s with world := w, consoles := s.consoles.set i c }
      else s
    | none => s) s

/-- Takes note of attempts to connect that are new. -/
def seeConnections (s : Stage) : Stage :=
  ((List.range s.world.connections.length).drop s.servers.length).foldl (fun s i =>
    let s := { s with servers := s.servers ++ [({} : ScriptedServer)] }
    match s.connectMode with
    | .accept => { s with world := s.world.after (.answerConnection i (.ok ())) }
    | .refuse text =>
      { s with world := s.world.after (.answerConnection i (.error ⟨.other, text⟩)) }
    | .delay time => { s with accepting := s.accepting ++ [(i, s.world.now + time.nanos)] }
    | .hang => s) s

/-- Accepts the connections whose time has come. -/
def acceptConnections (s : Stage) : Stage :=
  let (due, later) := s.accepting.partition fun a => a.2 ≤ s.world.now
  due.foldl (fun s a => { s with world := s.world.after (.answerConnection a.1 (.ok ())) })
    { s with accepting := later }

/-- A runtime's answer to the question for its version. -/
def versionOf (s : Stage) (exe : Path) : Option String :=
  match s.launcher.programFolder with
  | some folder => Shell.probeVersion s.world.files exe folder
  | none => s.launcher.version

/-- Answers the questions to runtimes. -/
def answerInquiries (s : Stage) : Stage :=
  (List.range s.world.inquiries.length).foldl (fun s i =>
    match s.world.inquiries[i]? with
    | some q =>
      if q.answer.isSome then s
      else { s with world := s.world.after (.answerInquiry i (s.versionOf q.exe)) }
    | none => s) s

/-- All that the surroundings do at once. -/
def react (s : Stage) : Stage :=
  let s := s.seeLaunches.answerLaunches.seeConnections.acceptConnections.answerInquiries
  { s with world := s.world.after .dissolve }

/-! ## Questions for files -/

/-- The questions that a piece of a call asks the file system. -/
def questionsOf (w : World) (job : Job) : List Discovery.Query :=
  match job with
  | .phased (.starting (.preparing a name (some (.ok _)))) _ => (w.choice a.settings name).queries
  | .fresh (.startDebug (some name)) => (w.choice w.settings (some name)).queries
  | .debugging (.choosing settings) =>
    if w.session.executable.isSome then [] else (w.choice settings none).queries
  | .fresh .available => ((w.finder w.settings).all w.config.probe).queries
  | _ => []

/-- A question for a file. -/
def isFileQuestion : Discovery.Query → Bool
  | .isFile _ => true
  | _ => false

/-- The number of questions for files in an activity's next piece. -/
def questionsIn (w : World) (a : Actor) : Nat :=
  match a with
  | .runner (.call i) =>
    match w.calls[i]? with
    | some (.active job) => (questionsOf w job).countP isFileQuestion
    | _ => 0
  | _ => 0

/-- A world in which a call has gone on as long as it could. -/
def runCall (w : World) (i : Nat) : Nat → World
  | 0 => w
  | fuel + 1 =>
    match w.step? (.call i) with
    | none => w
    | some w => runCall w i fuel

/-- A world after a whole stop. -/
def wholeStop (w : World) : World := runCall (w.after (.ask .stop)) w.calls.length 100

/-! ## Running -/

/-- All who can stand in the queue; consoles that were told something, in the order of that. -/
def actors (s : Stage) : List Actor :=
  s.world.runners.map .runner ++ s.world.posts.map (fun post => .console post.console) ++
    (List.range s.consoles.length).map .console ++
    (List.range s.servers.length).map .server

/-- What an actor does next, if it can do anything. -/
def step? (s : Stage) (a : Actor) : Option Stage :=
  match a with
  | .runner r => (s.world.step? r).map fun w => { s with world := w }
  | .console i => do
    let c ← s.consoles[i]?
    let (c, w) ← c.step? i s.world
    return { s with world := w, consoles := s.consoles.set i c }
  | .server i => do
    let k ← s.servers[i]?
    let (k, w, message) ← k.step? i s.world s.rules s.stalled
    return { s with
      world := w
      servers := s.servers.set i k
      received := s.received ++ message.toList }

/-- The actor belongs to the call in the foreground. -/
def isFront (s : Stage) (a : Actor) : Bool :=
  match s.front, a with
  | some i, .runner (.call j) => i == j
  | _, _ => false

/-- Everybody who can run and does not stand in the queue yet enters it, `busy` excepted. -/
def enqueue (s : Stage) (busy : Option Actor) : Stage :=
  let ready := s.actors.eraseDups.filter fun a =>
    some a != busy && !s.isFront a && !s.queue.contains a && (s.step? a).isSome
  { s with queue := s.queue ++ ready }

/-- The stop inside a question that is about to be asked. -/
def interrupt (s : Stage) (a : Actor) : Stage :=
  let asked := s.questions + questionsIn s.world a
  let world :=
    if s.questions < s.stopInQuestion ∧ s.stopInQuestion ≤ asked then wholeStop s.world
    else s.world
  { s with world, questions := asked }

/-- An actor does what it can. -/
def runActor (s : Stage) (a : Actor) : Nat → Stage
  | 0 => s
  | fuel + 1 =>
    match (s.interrupt a).step? a with
    | none => s
    | some s => runActor (s.react.enqueue (some a)) a fuel

/-- The calls that wait for the file system have their work done. -/
def performAll (s : Stage) : Stage :=
  (List.range s.world.calls.length).foldl (fun s i =>
    { s with world := s.world.after (.perform i) }) s

/-- Some call waits for the file system. -/
def hasWork (s : Stage) : Bool :=
  (List.range s.world.calls.length).any fun i => (s.world.perform? i).isSome

/-- The times at which something happens by itself. -/
def alarms (s : Stage) : List Nat :=
  s.world.runners.filterMap s.world.alarm? ++
  (s.consoles.zip s.world.consoles).flatMap (fun c => c.1.alarms c.2.ending.isSome) ++
  s.servers.filterMap ScriptedServer.wake ++
  s.accepting.map (·.2)

/-- The activity of the call in the foreground. -/
def frontActor? (s : Stage) : Option Actor := s.front.map fun i => .runner (.call i)

/-- The call in the foreground can run. -/
def frontIsReady (s : Stage) : Bool :=
  match s.frontActor? with
  | some a => (s.step? a).isSome
  | none => false

/-- How many pieces an activity may take without a pause; none ever takes as many. -/
def pieceLimit : Nat := 1000000

/-- The call in the foreground goes on as far as it gets. -/
def runFront (s : Stage) : Stage :=
  match s.frontActor? with
  | some a => s.runActor a pieceLimit
  | none => s

/-- Time goes on to a moment; the call in the foreground is the first to notice. -/
def advance (s : Stage) (t : Nat) : Stage :=
  ({ s with world := s.world.after (.elapse (t - s.world.now)) }.react).runFront.enqueue none

/-- What is waited for. -/
inductive Goal where
  | calls (is : List Nat)
  | time (t : Nat)

/-- The goal is reached. -/
def reached (s : Stage) : Goal → Bool
  | .calls is => is.all fun i => ((s.world.calls[i]?).bind Call.result?).isSome
  | .time t => t ≤ s.world.now

/-- A moment that is waited for has come.  Whoever waits for it is the first to run. -/
def timeIsUp (s : Stage) : Goal → Bool
  | .calls _ => false
  | .time t => t ≤ s.world.now

/-- The moment up to which nothing happens. -/
def nextMoment? (s : Stage) (goal : Goal) : Option Nat :=
  match goal with
  | .calls _ => s.alarms.min?
  | .time t => some ((s.alarms.min?.getD t).min t)

/-- Everything that happens up to a goal, or until nothing happens any more. -/
def runUntil (s : Stage) (goal : Goal) : Nat → Stage
  | 0 => s
  | fuel + 1 =>
    match s.timeIsUp goal, s.queue with
    | true, _ => s
    | false, a :: rest => runUntil ({ s with queue := rest }.runActor a pieceLimit) goal fuel
    | false, [] =>
      if s.frontIsReady then runUntil s.runFront goal fuel
      else if s.reached goal then s
      else if s.hasWork then runUntil (s.performAll.runFront.enqueue none) goal fuel
      else
        match s.nextMoment? goal with
        | some t => runUntil (s.advance t) goal fuel
        | none => s

/-- How much may happen up to a goal. -/
def turnLimit : Nat := 10000000

/-- Everything that happens up to a goal. -/
def settle (s : Stage) (goal : Goal) : Stage := (s.enqueue none).runUntil goal turnLimit

end Stage

end SessionHost.Simulation
