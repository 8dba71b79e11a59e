import SessionHost.Path
import SessionHost.SystemError
import SessionHost.Duration
import SessionHost.Version
import SessionHost.Handshake

/-!
# Failures and notices

Everything that can go wrong with a session is a value, and every failure gives the user one
notice: a message and at most one suggested action.

Main definitions:

- `ProcessFailure`: why a console process did not get to its handshake.
- `SessionFailure`, `SessionFailure.message`, `SessionFailure.notice`: why a session failed,
  and what the user is told.
-/

namespace SessionHost

/-! ## Notices -/

/-- A follow-up offered with a notice. -/
inductive SuggestedAction where
  | installPowerShell
  | installDotNetFramework
  | openIssue
  | restart
deriving DecidableEq

/-- The text of an action. -/
def SuggestedAction.label : SuggestedAction → String
  | .installPowerShell => "Install PowerShell"
  | .installDotNetFramework => "Install .NET Framework"
  | .openIssue => "Open an issue"
  | .restart => "Restart session"

/-- The page of an action that is not carried out here. -/
def SuggestedAction.link? : SuggestedAction → Option String
  | .installPowerShell => some "https://aka.ms/get-powershell"
  | .installDotNetFramework =>
    some "https://dotnet.microsoft.com/en-us/download/dotnet-framework"
  | .openIssue => some "https://github.com/PowerShell/PowerShellEditorServices/issues"
  | .restart => none

/-- The kinds of failures. -/
inductive FailureCategory where
  | discovery
  | spawn
  | handshakeTimeout
  | handshakeRefused
  | handshakeInvalid
  | connection
  | versionTimeout
  | sessionsFolder
  | unexpectedExit
deriving DecidableEq

/-- What the user sees of a failure. -/
structure Notice where
  category : FailureCategory
  message : String
  action : Option SuggestedAction
deriving DecidableEq

/-! ## Failures of a process -/

/-- An optional exit code as it appears in messages. -/
def exitCodeText : Option Int → String
  | some code => "Some(" ++ Text.signedDecimal code ++ ")"
  | none => "None"

/-- Why a console process did not get to its handshake. -/
inductive ProcessFailure where
  | spawn (exe : Path) (error : SystemError)
  | timedOut (after : Duration)
  | exitedBeforeHandshake (code : Option Int)
  | sessionFile (path : Path) (error : SystemError)
  | handshake (fault : HandshakeFault)
deriving DecidableEq

/-- The message of a process failure. -/
def ProcessFailure.message : ProcessFailure → String
  | .spawn exe error => "failed to start " ++ exe.text ++ ": " ++ error.message
  | .timedOut after => "timed out after " ++ after.text ++ " waiting for the session file"
  | .exitedBeforeHandshake code =>
    "process exited (code " ++ exitCodeText code ++ ") before writing the session file"
  | .sessionFile path error =>
    "failed to read session file " ++ path.text ++ ": " ++ error.message
  | .handshake fault => fault.message

/-! ## Failures of a session -/

/-- Why a session failed. -/
inductive SessionFailure where
  | discovery
  | spawn (exe : Path) (error : SystemError)
  /-- No handshake came; the runtime's own answer about its version, when it gave one. -/
  | handshakeTimeout (version : Option String) (support : Option Support)
  | handshakeRefused (refusal : Refusal)
  | handshakeInvalid (text : String)
  | connection (text : String)
  | versionTimeout
  | sessionsFolder (path : Path) (error : SystemError)
  | unexpectedExit (code : Option Int)
deriving DecidableEq

namespace SessionFailure

/-- The kind of a failure. -/
def category : SessionFailure → FailureCategory
  | .discovery => .discovery
  | .spawn _ _ => .spawn
  | .handshakeTimeout _ _ => .handshakeTimeout
  | .handshakeRefused _ => .handshakeRefused
  | .handshakeInvalid _ => .handshakeInvalid
  | .connection _ => .connection
  | .versionTimeout => .versionTimeout
  | .sessionsFolder _ _ => .sessionsFolder
  | .unexpectedExit _ => .unexpectedExit

/-- The message of a failure. -/
def message : SessionFailure → String
  | .discovery => "no PowerShell installation could be found"
  | .spawn exe error => "failed to start " ++ exe.text ++ ": " ++ error.message
  | .handshakeTimeout _ _ => "PowerShell never wrote a session file"
  | .handshakeRefused refusal => refusal.message
  | .handshakeInvalid text => "invalid session file: " ++ text
  | .connection text => "failed to connect to the language server: " ++ text
  | .versionTimeout => "the language server did not report its version in time"
  | .sessionsFolder path error =>
    "failed to create sessions folder " ++ path.text ++ ": " ++ error.message
  | .unexpectedExit code => "PowerShell exited unexpectedly (code " ++ exitCodeText code ++ ")"

/-- Message and action for a runtime that wrote no handshake, by how far its version is
supported. -/
def timeoutAdvice (version : Option String) (support : Option Support) :
    String × Option SuggestedAction :=
  let v := version.getD "unknown"
  match support with
  | some .unsupported =>
    ("PowerShell v" ++ v ++ " is not supported, please update!", some .installPowerShell)
  | some .bestEffort =>
    ("Windows PowerShell v" ++ v ++
      " is supported on a best-effort basis, please consider installing PowerShell 7!",
      some .installPowerShell)
  | some .endOfSupport =>
    ("PowerShell v" ++ v ++ " has reached end-of-support, please update!",
      some .installPowerShell)
  | some .supported => ("PowerShell Language Server process didn't start!", some .openIssue)
  | none => ("PowerShell Language Server process didn't start!", some .openIssue)

/-- The action for a reported refusal. -/
def refusalAction : RefusalReason → Option SuggestedAction
  | .runtimeVersion => some .installPowerShell
  | .dotNetVersion => some .installDotNetFramework
  | .languageMode => none
  | .other _ => some .openIssue

/-- Message and action of a failure. -/
def advice (f : SessionFailure) : String × Option SuggestedAction :=
  match f with
  | .discovery =>
    ("Unable to find PowerShell! Do you have it installed? You can also configure custom " ++
      "installations with 'power_shell_additional_exe_paths'.", some .installPowerShell)
  | .handshakeTimeout version support => timeoutAdvice version support
  | .handshakeRefused refusal => (refusal.message, refusalAction refusal.reason)
  | .unexpectedExit _ =>
    ("PowerShell Extension Terminal has stopped, would you like to restart it? IntelliSense " ++
      "and other features will not work without it!", some .restart)
  | .sessionsFolder _ _ => (f.message, none)
  | .spawn _ _ => ("PowerShell Language Server failed to start: " ++ f.message, some .openIssue)
  | .handshakeInvalid _ =>
    ("PowerShell Language Server failed to start: " ++ f.message, some .openIssue)
  | .connection _ =>
    ("PowerShell Language Server failed to start: " ++ f.message, some .openIssue)
  | .versionTimeout =>
    ("PowerShell Language Server failed to start: " ++ f.message, some .openIssue)

/-- What the user sees of a failure. -/
def notice (f : SessionFailure) : Notice :=
  ⟨f.category, f.advice.1, f.advice.2⟩

/-- The failure of a session whose process failed, when nothing more is known. -/
def ofProcess : ProcessFailure → SessionFailure
  | .spawn exe error => .spawn exe error
  | .timedOut _ => .handshakeTimeout none none
  | .exitedBeforeHandshake _ => .handshakeTimeout none none
  | .handshake fault => .handshakeInvalid fault.message
  | .sessionFile path error =>
    .handshakeInvalid (ProcessFailure.sessionFile path error).message

end SessionFailure

end SessionHost
