import SessionHost.Session.Step

/-!
# Moves

Everything that can happen to a session: its own activities run in any order, callers make
calls, and launcher, consoles, servers, file system and time do as they please.

Main definitions:

- `Move`: one thing that happens.
- `World.move?`: what it leads to, if it can happen.
- `World.Reachable`: the worlds that moves lead to.
-/

namespace SessionHost

/-- One thing that happens. -/
inductive Move where
  /-- An activity runs up to its next suspension point. -/
  | run (r : Runner)
  /-- The file system or the clock does what a call waits for. -/
  | perform (call : Nat)
  | ask (command : Command)
  | answerLaunch (console : Nat) (answer : LaunchAnswer)
  /-- A console takes the first thing that is on its way to it. -/
  | heed (console : Nat)
  | endConsole (console : Nat) (ending : Ending)
  | answerConnection (connection : Nat) (answer : Except SystemError Unit)
  | answerInquiry (inquiry : Nat) (answer : Option String)
  /-- A server takes bytes off its connection. -/
  | take (connection count : Nat)
  | send (connection : Nat) (bytes : List UInt8)
  | silence (connection : Nat)
  | sever (connection : Nat)
  /-- Somebody writes a file, as far as that is possible. -/
  | writeFile (path : Path) (bytes : List UInt8)
  | elapse (nanos : Nat)
  | changeStore (store : DefaultStore)
  /-- The last holder lets go of the session. -/
  | letGo
  | dissolve

namespace World

/-- The launcher answers, once. -/
def answerLaunch? (w : World) (console : Nat) (answer : LaunchAnswer) : Option World := do
  let c ← w.consoles[console]?
  if c.answer.isSome then none else some (w.setConsole console { c with answer := some answer })

/-- A console takes the first thing that is on its way to it, unless it has ended. -/
def heed? (w : World) (console : Nat) : Option World := do
  let c ← w.consoles[console]?
  let post ← w.posts.find? (·.console = console)
  if c.isUp then
    some ({ w with posts := w.posts.eraseP (·.console = console) }.record post.event)
  else none

/-- A console ends, once. -/
def endConsole? (w : World) (console : Nat) (ending : Ending) : Option World := do
  let c ← w.consoles[console]?
  if c.ending.isSome then none else some (w.setConsole console { c with ending := some ending })

/-- The attempt to open a connection has an outcome, once. -/
def answerConnection? (w : World) (connection : Nat) (answer : Except SystemError Unit) :
    Option World := do
  let k ← w.connections[connection]?
  if k.answer.isSome then none
  else some (w.setConnection connection { k with answer := some answer })

/-- A runtime answers the question for its version, once. -/
def answerInquiry? (w : World) (inquiry : Nat) (answer : Option String) : Option World := do
  let q ← w.inquiries[inquiry]?
  if q.answer.isSome then none
  else some { w with inquiries := w.inquiries.set inquiry { q with answer := some answer } }

/-- A connection changes at its server's end. -/
def changeConnection? (w : World) (connection : Nat) (change : Connection → Connection) :
    Option World :=
  (w.connections[connection]?).map fun k => w.setConnection connection (change k)

/-- What a move leads to, if it can happen. -/
def move? (w : World) (m : Move) : Option World :=
  match m with
  | .run r => w.step? r
  | .perform i => w.perform? i
  | .ask command =>
    if w.held then some { w with calls := w.calls ++ [.active (.fresh command)] } else none
  | .answerLaunch console answer => w.answerLaunch? console answer
  | .heed console => w.heed? console
  | .endConsole console ending => w.endConsole? console ending
  | .answerConnection connection answer => w.answerConnection? connection answer
  | .answerInquiry inquiry answer => w.answerInquiry? inquiry answer
  | .take connection count =>
    w.changeConnection? connection fun k => { k with toServer := k.toServer.drop count }
  | .send connection bytes => w.changeConnection? connection (·.deliver bytes)
  | .silence connection => w.changeConnection? connection .silence
  | .sever connection => w.changeConnection? connection .sever
  | .writeFile path bytes =>
    match w.files.write path bytes 0o644 with
    | .ok files => some { w with files }
    | .error _ => none
  | .elapse nanos => some { w with now := w.now + nanos }
  | .changeStore store => some { w with store }
  | .letGo => some { w with held := false }
  | .dissolve => if w.inUse || w.dissolved then none else some w.dissolve

/-- The world after a move; one that cannot happen changes nothing. -/
def after (w : World) (m : Move) : World := (w.move? m).getD w

/-- The worlds that moves lead to. -/
inductive Reachable (start : World) : World → Prop where
  | refl : Reachable start start
  | step {w v : World} (m : Move) : Reachable start w → w.move? m = some v → Reachable start v

/-- A property that no move ends holds wherever moves lead. -/
theorem Reachable.induction {start w : World} {p : World → Prop} (h : Reachable start w)
    (base : p start) (step : ∀ v m u, p v → v.move? m = some u → p u) : p w := by
  induction h with
  | refl => exact base
  | step m _ hm ih => exact step _ m _ ih hm

end World

end SessionHost
