import SessionHost.Session.Teardown

/-!
# Starting

A start claims a new generation and takes it through its launch, its connection and the
version query.  Every result is stored under the session's lock and only while the start has
not been called off.

Main definitions:

- `World.launchSpec`, `World.newProcess`: what a start launches.
- `World.beginStart`, `World.start`: one piece of a start.
-/

namespace SessionHost

namespace World

/-! ## What is launched -/

/-- The runtime is started as a login shell. -/
def loginShell (os : OperatingSystem) (shell : LoginShell) : Bool :=
  match os with
  | .macOS => shell.macOS
  | .linux => shell.linux
  | .windows => false
  | .unknown => false

/-- The server's arguments. -/
def editorArguments (w : World) (s : Settings) (modules : Path) (debug : Bool) :
    Launch.EditorArguments :=
  { hostName := w.config.host.name
    hostProfileId := w.config.host.profileId
    hostVersion := w.config.host.version
    modulesPath := modules
    suppressBanner := s.console.suppressBanner
    waitForDebugger := s.developer.waitForDebugger
    logLevel := s.developer.logLevel.name
    debugServiceOnly := debug }

/-- Everything that a process of the session is launched with. -/
def launchSpec (w : World) (s : Settings) (exe : Executable) (debug : Bool) : Launch.LaunchSpec :=
  let modules := s.developer.modulesPath.getD w.config.modulesFolder
  let number := Text.decimal w.fileNumber
  { modulesPath := modules
    editorArguments := (w.editorArguments s modules debug).render exe w.config.platform
    logFolder := w.config.logFolder
    sessionFile := Launch.sessionFilePath w.config.sessionsFolder w.config.sessionId number debug
    featureFlags := s.developer.featureFlags
    setExecutionPolicy := s.developer.setExecutionPolicy
    loginShell := loginShell w.config.platform.os s.console.loginShell
    legacyReadLine := s.console.legacyReadLine
    showOnStartup := s.console.showOnStartup
    startInBackground := s.console.startInBackground
    cwd := s.cwd
    temporary := debug }

/-- The world with a new process, and the number of that process. -/
def newProcess (w : World) (s : Settings) (exe : Executable) (purpose : Purpose)
    (debug : Bool) : World × Nat :=
  let process : ServerProcess :=
    { purpose := purpose
      exe := exe
      spec := w.launchSpec s exe debug
      plan := ⟨w.config.timings.poll, s.handshakeTimeout⟩
      reportsSlowness := !debug }
  ({ w with processes := w.processes ++ [process], fileNumber := w.fileNumber + 1 },
    w.processes.length)

/-! ## Steps that others share -/

/-- Makes the folder for session files. -/
def makeFolder (w : World) : World × Except ErrorKind Unit :=
  match w.files.createFolders w.config.sessionsFolder with
  | .ok files => ({ w with files := files }, .ok ())
  | .error kind => (w, .error kind)

/-- The failure to make the folder for session files. -/
def folderFailure (w : World) (kind : ErrorKind) : SessionFailure :=
  .sessionsFolder w.config.sessionsFolder (SystemError.ofKind kind)

/-- Asks a runtime for its version; the number of the question. -/
def inquire (w : World) (exe : Path) : World × Nat :=
  ({ w with inquiries := w.inquiries ++ [({ exe := exe } : Inquiry)] }.record (.inquired exe),
    w.inquiries.length)

/-- The failure of a launch without a handshake, once the runtime has been asked for its
version. -/
def diagnosis (w : World) (version : Option String) : World × SessionFailure :=
  (w.warn .session "PowerShell did not write a session file",
    .handshakeTimeout version (version.bind Support.ofText?))

/-- What a launch without a console's handshake leads to: a question to the runtime, or a
failure. -/
def needsDiagnosis : ProcessFailure → Bool
  | .timedOut _ => true
  | .exitedBeforeHandshake _ => true
  | _ => false

/-! ## The start -/

/-- A piece of a start. -/
abbrev StartProgress := Progress World Starting PhaseEnd

/-- Fails a start, unless it has been called off: what it has stored is released first. -/
def failStart (w : World) (a : Attempt) (failure : SessionFailure) : StartProgress :=
  if w.isCancelled (.start a.generation) then .finished w .done
  else .going w (.failing a failure .taking)

/-- The end of a failed start. -/
def endFailedStart (w : World) (a : Attempt) (failure : SessionFailure) : StartProgress :=
  let (w, moved) := w.transition a.generation [.starting] .failed
  .finished (if moved then w.record (.failed a.generation failure.notice) else w) .done

/-- Claims a start: a live session needs none, a start or a stop under way is waited for, and
otherwise a new generation begins. -/
def beginStart (w : World) (name : Option String) : StartProgress :=
  match w.status with
  | .running => .finished w .done
  | .busy => .finished w .done
  | .starting =>
    match w.beginWait? with
    | none => .finished w .aborted
    | some p => .going w (.joining p)
  | .stopping =>
    match w.beginWait? with
    | none => .finished w .aborted
    | some p => .going w (.awaiting name p)
  | _ =>
    let w := { w with generation := w.generation + 1 }.setStatus .starting
    .going w (.clearing ⟨w.generation, w.settings⟩ name .taking)

/-- Chooses the runtime. -/
def chooseRuntime (w : World) (a : Attempt) (name : Option String) : StartProgress :=
  let (w, exe) := w.learn (w.choice a.settings name)
  match exe with
  | none => w.failStart a .discovery
  | some exe => .going (w.record (.selected a.generation exe)) (.recording a exe)

/-- Stores something in the session unless the start has been called off. -/
def storeUnlessCancelled (w : World) (a : Attempt) (update : Session → Session) :
    Option World :=
  if w.isCancelled (.start a.generation) then none
  else some { w with session := update w.session }

/-- Goes on with what a launch gave. -/
def afterLaunch (w : World) (a : Attempt) (exe : Executable) (outcome : LaunchOutcome) :
    StartProgress :=
  match outcome with
  | .ok none => .finished w .done
  | .ok (some (.started details)) => .going w (.noting a details)
  | .ok (some (.refused refusal)) => w.failStart a (.handshakeRefused refusal)
  | .error failure =>
    if needsDiagnosis failure then
      let (w, inquiry) := w.inquire exe.path
      .going w (.diagnosing a inquiry)
    else
      w.failStart a (.ofProcess failure)

/-- Watches over the exit of a process; only the first watch over a process can be had. -/
def watchExit (w : World) (a : Attempt) (process : Nat) (name : String) : World :=
  match w.processes[process]? with
  | some p =>
    if p.noticeTaken then w
    else
      let w := w.setProcess process { p with noticeTaken := true }
      { w with watches := w.watches ++ [({ process, generation := a.generation, name } : Watch)] }
  | none => w

/-- Puts a process into the session and launches it. -/
def adoptProcess (w : World) (a : Attempt) (exe : Executable) (process : Nat) : StartProgress :=
  match w.storeUnlessCancelled a fun s => { s with process := some ⟨a.generation, process⟩ } with
  | none => .finished (w.dispose process) .done
  | some w =>
    ((w.watchExit a process exe.name).beginLaunch process).andThen (.launching a exe process)
      fun w outcome => w.afterLaunch a exe outcome

/-- Begins to connect to a server. -/
def connect (w : World) (a : Attempt) (details : StartedSession) : StartProgress :=
  let connection := w.connections.length
  let endpoint := details.languageService
  let w := { w with connections := w.connections ++ [({ endpoint } : Connection)] }
  .going (w.record (.connecting endpoint))
    (.connecting a details connection (w.now + w.config.timings.connect.nanos))

/-- The world with a new client on a connection, and the number of that client. -/
def newClient (w : World) (connection mailboxRoom : Nat) : World × Nat :=
  ({ w with clients := w.clients ++ [({ connection, mailboxRoom } : Client)] }, w.clients.length)

/-- The parameters of a client's first request. -/
def openingParams (w : World) (profileLoading : Bool) (cwd : Option Path) : Json.Value :=
  Rpc.initializeParams w.config.processId profileLoading cwd

/-- Begins to open a client on a connection. -/
def openClient (w : World) (a : Attempt) (connection : Nat) : StartProgress :=
  let params := w.openingParams a.settings.profileLoading a.settings.cwd
  let (w, client) := w.newClient connection w.config.mailboxRoom
  match w.clients[client]? with
  | none => .blocked
  | some c =>
    let (c, opening) := c.beginOpening params w.config.timings.clientStartup
    .going (w.setClient client c) (.opening a client opening)

/-- Goes on while a connection is being made. -/
def awaitConnection (w : World) (a : Attempt) (details : StartedSession)
    (connection deadline : Nat) : StartProgress :=
  let endpoint := details.languageService.text
  match w.connections[connection]?.bind Connection.answer with
  | some (.ok _) => w.openClient a connection
  | some (.error e) => w.failStart a (.connection (endpoint ++ ": " ++ e.message))
  | none =>
    if deadline ≤ w.now then
      w.failStart a (.connection
        (endpoint ++ " did not accept a connection within " ++ w.config.timings.connect.text))
    else
      .blocked

/-- The warning for a version, if it deserves one. -/
def versionWarning? (version : String) : Option String :=
  match Support.ofText? version with
  | some .bestEffort =>
    some ("Windows PowerShell v" ++ version ++ " is supported on a best-effort basis")
  | some .endOfSupport => some ("PowerShell v" ++ version ++ " has reached end-of-support")
  | some .unsupported => some ("PowerShell v" ++ version ++ " is not supported")
  | some .supported => none
  | none => none

/-- Goes on with the answer to the version query. -/
def afterVersion (w : World) (a : Attempt) (answer : Except RequestFailure RuntimeDetails) :
    StartProgress :=
  match answer with
  | .ok version =>
    let w := match versionWarning? version.version with
      | some text => w.warn .session text
      | none => w
    .going w (.concluding a version)
  | .error (.timedOut _) => w.failStart a .versionTimeout
  | .error why => w.failStart a (.connection why.message)

/-- Puts a client into the session, has its signals handled, and asks for the version. -/
def keepClient (w : World) (a : Attempt) (client : Nat) : StartProgress :=
  match w.storeUnlessCancelled a fun s => { s with client := some ⟨a.generation, client⟩ } with
  | none => .finished (w.abandonClient client) .done
  | some w =>
    let pump : Pump := { client, generation := a.generation }
    let w := { w with pumps := w.pumps ++ [pump] }
    match w.clients[client]? with
    | none => .blocked
    | some c =>
      let (c, request) := c.request .getVersion none w.config.timings.version
      .going (w.setClient client c) (.asking a client request)

/-- The end of a start: the version is stored, and the session runs. -/
def conclude (w : World) (a : Attempt) (version : RuntimeDetails) : StartProgress :=
  match w.storeUnlessCancelled a fun s => { s with version := some ⟨a.generation, version⟩ } with
  | none => .finished w .done
  | some w =>
    let (w, moved) := w.transition a.generation [.starting] .running
    .finished (if moved then w.record (.started a.generation) else w) .done

/-- One piece of a start. -/
def start (w : World) (place : Starting) : StartProgress :=
  match place with
  | .joining p => (w.wait p).andThen .joining fun w _ => .finished w .done
  | .awaiting name p => (w.wait p).andThen (.awaiting name) fun w _ => w.beginStart name
  | .clearing a name r =>
    (w.release a.generation r).andThen (.clearing a name) fun w _ =>
      .going w (.preparing a name none)
  | .preparing a name step =>
    match step with
    | none => .blocked
    | some (.error kind) => w.failStart a (w.folderFailure kind)
    | some (.ok _) => w.chooseRuntime a name
  | .recording a exe =>
    let w := { w with session := { w.session with executable := some exe } }
    let (w, process) := w.newProcess a.settings exe (.main a.generation) false
    .going w (.adopting a exe process)
  | .adopting a exe process => w.adoptProcess a exe process
  | .launching a exe process p =>
    (w.launch process p).andThen (.launching a exe process) fun w outcome =>
      w.afterLaunch a exe outcome
  | .diagnosing a inquiry =>
    match w.inquiries[inquiry]?.bind Inquiry.answer with
    | none => .blocked
    | some version =>
      let (w, failure) := w.diagnosis version
      w.failStart a failure
  | .noting a details =>
    match w.storeUnlessCancelled a fun s => { s with details := some ⟨a.generation, details⟩ } with
    | none => .finished w .done
    | some w => w.connect a details
  | .connecting a details connection deadline =>
    if w.isCancelled (.start a.generation) then .finished w .done
    else w.awaitConnection a details connection deadline
  | .opening a client o =>
    if w.isCancelled (.start a.generation) then .finished (w.abandonClient client) .done
    else
      (w.onClient client fun c => o.step w.now c).andThen (.opening a client) fun w result =>
        match result with
        | .ok _ => .going w (.keeping a client)
        | .error why => (w.abandonClient client).failStart a (.connection why.message)
  | .keeping a client => w.keepClient a client
  | .asking a client request =>
    if w.isCancelled (.start a.generation) then .finished w .done
    else
      (w.onClient client fun c => request.step w.now c).andThen (.asking a client)
        fun w result => w.afterVersion a (runtimeDetails result)
  | .concluding a version => w.conclude a version
  | .failing a failure r =>
    (w.release a.generation r).andThen (.failing a failure) fun w _ => w.endFailedStart a failure

/-- What a start waits for outside, when it is there. -/
def prepareStart (w : World) (place : Starting) : Option (World × Starting) :=
  match place with
  | .preparing a name none =>
    let (w, result) := w.makeFolder
    some (w, .preparing a name (some result))
  | .launching a exe process p =>
    (w.arrival? process p).map fun p => (w, .launching a exe process p)
  | _ => none

end World

/-- The time at which a start goes on by itself. -/
def Starting.alarm? : Starting → Option Nat
  | .joining p => p.alarm?
  | .awaiting _ p => p.alarm?
  | .clearing _ _ r => r.alarm?
  | .launching _ _ _ p => p.alarm?
  | .connecting _ _ _ deadline => some deadline
  | .opening _ _ o => o.alarm?
  | .asking _ _ request => request.alarm?
  | .failing _ _ r => r.alarm?
  | _ => none

end SessionHost
