import SessionHost.Session.Move
import SessionHost.Shell.Program

/-!
# A scripted launcher

A launcher that does what it is told: it fails or hands out a console after a while, the
console writes its session file and ends by itself after a while, and it ends when it is told
to.  It can also run the programs of the file tree.

Main definitions:

- `LauncherScript`: what a launcher and its consoles do.
- `ScriptedConsole`, `ScriptedConsole.step?`: what a console still has to do.
-/

namespace SessionHost.Simulation

/-- An end, after a while. -/
structure ScriptedExit where
  ending : Ending
  delay : Duration := ⟨0⟩

/-- What a launcher and its consoles do. -/
structure LauncherScript where
  /-- Launches fail with this text. -/
  spawnError : Option String := none
  launchDelay : Duration := ⟨0⟩
  /-- The process number; by default one thousand and the number of the launch. -/
  number : Option (Option Nat) := none
  /-- The content of the session file, from the number of the launch. -/
  content : Nat → Option (List UInt8)
  contentDelay : Duration := ⟨0⟩
  /-- How the console ends by itself. -/
  exit : Option ScriptedExit := none
  killExit : ScriptedExit := ⟨.reported .silent, ⟨0⟩⟩
  /-- The runtime's answer to the question for its version. -/
  version : Option String := none
  /-- The programs of the file tree are run, in this folder unless the launch names another. -/
  programFolder : Option Path := none

/-- The session file of a server that has started on pipes of its own. -/
def startedContent (launch : Nat) : Option (List UInt8) :=
  let text := Json.Value.ofMembers
    [("status", .string "started"), ("powerShellVersion", .string "7.4.1"),
      ("languageServicePipeName", .string ("fake-pipe-" ++ Text.decimal launch)),
      ("debugServicePipeName", .string ("fake-debug-" ++ Text.decimal launch))]
  some (Text.utf8Bytes text.text)

/-- The launcher whose consoles start without delay. -/
def LauncherScript.standard : LauncherScript := { content := startedContent }

/-- What a console still has to do.  Times are absolute. -/
structure ScriptedConsole where
  script : LauncherScript
  answerAt : Option Nat
  writeAt : Option Nat := none
  exitAt : Option Nat := none
  /-- It has been told to end, and will. -/
  endAt : Option Nat := none
  crash : Option Ending := none
  crashed : Bool := false
  /-- The program that runs in the console. -/
  machine : Option Shell.Machine := none

/-- A time has come. -/
def isDue (t : Option Nat) (now : Nat) : Bool :=
  match t with
  | some t => t ≤ now
  | none => false

namespace ScriptedConsole

/-- Writes the session file that the launch names. -/
def writeContent (s : ScriptedConsole) (i : Nat) (w : World) : World :=
  match s.script.content i, w.consoles[i]?.bind fun c => w.processes[c.owner]? with
  | some bytes, some p => w.after (.writeFile p.spec.sessionFile bytes)
  | _, _ => w

/-- The number of the process of a program. -/
def programNumber (i : Nat) : Nat := 1000 + i

/-- Starts the program that the launch names. -/
def startProgram (s : ScriptedConsole) (i : Nat) (folder : Path) (w : World) :
    ScriptedConsole × World :=
  match w.consoles[i]?.bind fun c => w.processes[c.owner]? with
  | none => (s, w)
  | some p =>
    let command := p.spec.command p.exe w.config.platform
    match Shell.startProgram w.files command.program command.args (command.cwd.getD folder) with
    | .error e => (s, w.after (.answerLaunch i (.error e)))
    | .ok m =>
      ({ s with machine := some m }, w.after (.answerLaunch i (.ok (some (programNumber i)))))

/-- Answers the launch by the script. -/
def answerByScript (s : ScriptedConsole) (i : Nat) (w : World) : ScriptedConsole × World :=
  let now := w.now
  match s.script.spawnError with
  | some text => (s, w.after (.answerLaunch i (.error ⟨.notFound, text⟩)))
  | none =>
    let late := s.script.contentDelay.nanos ≠ 0
    let w := if late then w else s.writeContent i w
    let s := { s with writeAt := if late then some (now + s.script.contentDelay.nanos) else none }
    let (s, w) := match s.script.exit with
      | none => (s, w)
      | some e =>
        if e.delay.nanos = 0 then (s, w.after (.endConsole i e.ending))
        else ({ s with exitAt := some (now + e.delay.nanos) }, w)
    (s, w.after (.answerLaunch i (.ok (s.script.number.getD (some (1000 + i))))))

/-- Answers the launch. -/
def answer (s : ScriptedConsole) (i : Nat) (w : World) : ScriptedConsole × World :=
  let s := { s with answerAt := none }
  match s.script.programFolder with
  | some folder => s.startProgram i folder w
  | none => s.answerByScript i w

/-- How the end of a program is reported. -/
def programEnding : Shell.Exit → Ending
  | .code n => .reported ⟨some n, false⟩
  | .signal => .reported ⟨none, false⟩

/-- What the console's program does next. -/
def stepProgram? (s : ScriptedConsole) (i : Nat) (c : Console) (m : Shell.Machine) (w : World) :
    Option (ScriptedConsole × World) :=
  match m.exit? with
  | some e => some (s, w.after (.endConsole i (programEnding e)))
  | none =>
    (m.step? ⟨w.files, Text.utf8Bytes c.typed, true, w.now⟩).map fun r =>
      ({ s with machine := some r.1 }, { w with files := r.2 })

/-- The end that is due, for a console that has not ended. -/
def ending? (s : ScriptedConsole) (now : Nat) : Option Ending :=
  match s.crash with
  | some e => some e
  | none =>
    if isDue s.endAt now then some s.script.killExit.ending
    else if s.endAt.isNone && isDue s.exitAt now then s.script.exit.map ScriptedExit.ending
    else none

/-- The console takes what it is told, up to the order to end. -/
def heed? (s : ScriptedConsole) (i : Nat) (w : World) : Option (ScriptedConsole × World) := do
  let post ← w.posts.find? (·.console = i)
  let w ← w.heed? i
  match post.command with
  | some (.text _) => return (s, w)
  | some (.reveal _) => return (s, w)
  | _ => return ({ s with endAt := some (w.now + s.script.killExit.delay.nanos) }, w)

/-- The next thing that a console does. -/
def step? (s : ScriptedConsole) (i : Nat) (w : World) : Option (ScriptedConsole × World) := do
  let c ← w.consoles[i]?
  if s.endAt.isNone && (s.heed? i w).isSome then
    return ← s.heed? i w
  if c.ending.isNone && (s.ending? w.now).isSome then
    let e ← s.ending? w.now
    return ({ s with crashed := s.crashed || s.crash.isSome }, w.after (.endConsole i e))
  if isDue s.writeAt w.now then
    let s := { s with writeAt := none }
    return (s, if s.endAt.isSome || s.crashed then w else s.writeContent i w)
  if c.ending.isSome then none
  else
    let m ← s.machine
    s.stepProgram? i c m w

/-- The times at which a console does something by itself. -/
def alarms (s : ScriptedConsole) (ended : Bool) : List Nat :=
  s.answerAt.toList ++ s.writeAt.toList ++
    (if ended then [] else
      match s.endAt with
      | some t => [t]
      | none => s.exitAt.toList ++ (s.machine.bind Shell.Machine.alarm?).toList)

end ScriptedConsole

end SessionHost.Simulation
