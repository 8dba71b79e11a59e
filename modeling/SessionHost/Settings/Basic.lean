import SessionHost.Path
import SessionHost.Duration

/-!
# Settings

What the user can configure.  A setting that is not given has its default.

Main definitions:

- `Settings`: all settings.
- `Settings.alike`: equality, with paths compared part by part.
- `Settings.handshakeTimeout`: how long a runtime may take to write its handshake.
-/

namespace SessionHost

/-- How much the server logs. -/
inductive LogLevel where
  | trace
  | debug
  | information
  | warning
  | error
  | none
deriving DecidableEq

/-- The name of a level as the server takes it. -/
def LogLevel.name : LogLevel → String
  | .trace => "Trace"
  | .debug => "Debug"
  | .information => "Information"
  | .warning => "Warning"
  | .error => "Error"
  | .none => "None"

/-- Where a console is opened. -/
inductive StartLocation where
  | panel
  | editor
deriving DecidableEq

/-- The name of a location. -/
def StartLocation.name : StartLocation → String
  | .panel => "Panel"
  | .editor => "Editor"

/-- Where the runtime is started as a login shell. -/
structure LoginShell where
  macOS : Bool := false
  linux : Bool := false
deriving DecidableEq

/-- Settings for developers of the server. -/
structure DeveloperSettings where
  modulesPath : Option Path := none
  logLevel : LogLevel := .warning
  waitForDebugger : Bool := false
  setExecutionPolicy : Bool := true
  featureFlags : List String := []
  handshakeTimeoutSeconds : Nat := 240
  traceLanguage : Bool := false
  traceDebug : Bool := false

/-- Settings for the console. -/
structure ConsoleSettings where
  showOnStartup : Bool := true
  startInBackground : Bool := false
  startLocation : StartLocation := .panel
  legacyReadLine : Bool := false
  suppressBanner : Bool := false
  loginShell : LoginShell := {}
deriving DecidableEq

/-- All settings.  Additional paths are in ascending order of their names. -/
structure Settings where
  defaultVersion : Option String := none
  additionalPaths : List (String × String) := []
  cwd : Option Path := none
  profileLoading : Bool := true
  developer : DeveloperSettings := {}
  console : ConsoleSettings := {}

/-- Equality of optional paths. -/
def pathsAlike : Option Path → Option Path → Bool
  | some p, some q => p.alike q
  | none, none => true
  | _, _ => false

/-- Equality of settings for developers. -/
def DeveloperSettings.alike (a b : DeveloperSettings) : Bool :=
  pathsAlike a.modulesPath b.modulesPath && a.logLevel == b.logLevel &&
  a.waitForDebugger == b.waitForDebugger && a.setExecutionPolicy == b.setExecutionPolicy &&
  a.featureFlags == b.featureFlags && a.handshakeTimeoutSeconds == b.handshakeTimeoutSeconds &&
  a.traceLanguage == b.traceLanguage && a.traceDebug == b.traceDebug

/-- Equality of settings. -/
def Settings.alike (a b : Settings) : Bool :=
  a.defaultVersion == b.defaultVersion && a.additionalPaths == b.additionalPaths &&
  pathsAlike a.cwd b.cwd && a.profileLoading == b.profileLoading &&
  a.developer.alike b.developer && a.console == b.console

/-- How long a runtime may take to write its handshake. -/
def Settings.handshakeTimeout (s : Settings) : Duration :=
  .ofSeconds s.developer.handshakeTimeoutSeconds

end SessionHost
