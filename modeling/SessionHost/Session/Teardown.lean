import SessionHost.Session.Launching

/-!
# Teardown

Ending what runs.  A stop calls the start of the present generation off before it takes the
session, so whatever that start stores is either seen by the stop or never stored.  A caller
that finds a transition under way waits for its end, for a limited time.

Main definitions:

- `World.beginWait?`, `World.wait`: waiting for the end of a transition.
- `World.release`: ends the process and the client of a generation.
- `World.beginStop`, `World.stop`: one piece of a stop.
- `World.endDebug`: ends the debug session.
-/

namespace SessionHost

namespace World

/-! ## Waiting for a transition -/

/-- The whole time that a transition may take, if it can be held. -/
def waitBudget? (timings : Timings) (handshake : Duration) : Option Duration := do
  let t ← handshake.add? timings.connect
  let t ← t.add? timings.clientStartup
  let t ← t.add? timings.version
  t.add? (timings.clientStop.times 2)

/-- The interval between two looks at the status: at least a millisecond. -/
def waitInterval (timings : Timings) : Duration :=
  ⟨max timings.statusPoll.nanos (Duration.ofMillis 1).nanos⟩

/-- How often to look at the status. -/
def waitLooks (timings : Timings) (budget : Duration) : Nat :=
  budget.millis / (waitInterval timings).millis + 1

/-- Looks at the status: waiting is over with the transition, or when all looks are used up. -/
def look (w : World) (looks : Nat) : Progress World Wait Unit :=
  match looks with
  | 0 =>
    .finished
      (w.warn .session
        ("Gave up waiting for the session to leave '" ++ w.status.label ++ "'")) ()
  | n + 1 =>
    if w.status.isTransitioning then
      .going w ⟨n, w.now + (waitInterval w.config.timings).nanos⟩
    else
      .finished w ()

/-- Begins to wait for the end of a transition that has just been seen, which was the first
look; `none` when the time cannot be computed. -/
def beginWait? (w : World) : Option Wait :=
  (waitBudget? w.config.timings w.settings.handshakeTimeout).map fun budget =>
    ⟨waitLooks w.config.timings budget - 1, w.now + (waitInterval w.config.timings).nanos⟩

/-- One piece of waiting. -/
def wait (w : World) (place : Wait) : Progress World Wait Unit :=
  if place.wake ≤ w.now then w.look place.looks else .blocked

/-! ## Releasing -/

/-- Ends the process and the client of a generation, if the generation is still the present
one. -/
def release (w : World) (generation : Nat) (place : Release) : Progress World Release Unit :=
  match place with
  | .taking =>
    if w.generation ≠ generation then .finished w ()
    else
      let process := w.session.process.map Stored.value
      let client := w.session.client.map Stored.value
      let w := { w with session := w.session.withoutLive }
      match client with
      | none => .finished (w.disposeAny process) ()
      | some c =>
        match w.clients[c]? with
        | none => .finished (w.disposeAny process) ()
        | some k =>
          let (k, closing) := k.beginClosing w.now w.config.timings.clientStop
          .going (w.setClient c k) (.closing c process closing)
  | .closing c process closing =>
    (w.onClient c fun k => closing.step w.now k).andThen (.closing c process) fun w _ =>
      .finished (w.disposeAny process) ()

/-! ## Debug sessions -/

/-- Calls a debug session off and ends its process. -/
def endDebugProcess (w : World) (process : Nat) : World :=
  (w.cancel (.debug process)).dispose process

/-- Ends the debug session, if there is one. -/
def endDebug (w : World) : World :=
  match w.session.debug with
  | some p => { w with session := { w.session with debug := none } }.endDebugProcess p
  | none => w

/-! ## Stopping -/

/-- A piece of a stop. -/
abbrev StopProgress := Progress World Stopping PhaseEnd

/-- The end of a stop: its processes are disposed of, and the status moves on. -/
def finishStop (w : World) (process debug : Option Nat) : StopProgress :=
  let w := match debug with
    | some d => w.endDebugProcess d
    | none => w
  let w := w.disposeAny process
  .finished (w.transition w.generation [.stopping] .notStarted).1 .done

/-- The first piece of a stop: looks at the status and claims the stop, if there is something
to stop. -/
def beginStop (w : World) : StopProgress :=
  match w.status with
  | .notStarted => .going w .endingDebug
  | .stopping =>
    match w.beginWait? with
    | none => .finished w .aborted
    | some p => .going w (.waiting p)
  | _ => .going ((w.setStatus .stopping).cancel (.start w.generation)) .taking

/-- One piece of a stop. -/
def stop (w : World) (place : Stopping) : StopProgress :=
  match place with
  | .waiting p => (w.wait p).andThen .waiting fun w _ => .finished w .done
  | .endingDebug => .finished w.endDebug .done
  | .taking =>
    let process := w.session.process.map Stored.value
    let client := w.session.client.map Stored.value
    let debug := w.session.debug
    let w := { w with session := { w.session.withoutLive with debug := none } }
    match client with
    | none => w.finishStop process debug
    | some c =>
      match w.clients[c]? with
      | none => w.finishStop process debug
      | some k =>
        let (k, closing) := k.beginClosing w.now w.config.timings.clientStop
        .going (w.setClient c k) (.closing c process debug closing)
  | .closing c process debug closing =>
    (w.onClient c fun k => closing.step w.now k).andThen (.closing c process debug) fun w _ =>
      w.finishStop process debug

end World

/-! ## Alarms -/

/-- The time at which waiting goes on by itself. -/
def Wait.alarm? (p : Wait) : Option Nat := some p.wake

/-- The time at which releasing goes on by itself. -/
def Release.alarm? : Release → Option Nat
  | .taking => none
  | .closing _ _ c => c.alarm?

/-- The time at which a stop goes on by itself. -/
def Stopping.alarm? : Stopping → Option Nat
  | .waiting p => p.alarm?
  | .closing _ _ _ c => c.alarm?
  | _ => none

end SessionHost
