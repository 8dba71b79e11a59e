import SessionHost.Executable
import SessionHost.Platform

/-!
# Startup scripts

The script that a runtime is given: it imports the server's module and starts the server with
its arguments.  Every value stands in a single-quoted literal, in which a quote is doubled, so
no value ends its literal early; the banner of two lines alone is double-quoted.

Main definitions:

- `quoteSingle`: a value with its single quotes doubled.
- `EditorArguments`, `EditorArguments.render`: the arguments that describe host and server.
- `LaunchSpec`, `LaunchSpec.script`: everything the script is made of, and the script.
-/

namespace SessionHost.Launch

/-- The characters of a single-quoted literal for `s`, without the quotes around it. -/
def quoteSingle (s : String) : String := Text.replaceChar '\'' "''" s

/-- What the server is told about its host, and how it is to start. -/
structure EditorArguments where
  hostName : String
  hostProfileId : String
  hostVersion : String
  modulesPath : Path
  suppressBanner : Bool
  waitForDebugger : Bool
  logLevel : String
  debugServiceOnly : Bool

namespace EditorArguments

/-- The first line of the banner. -/
def title (a : EditorArguments) : String := a.hostName ++ " v" ++ a.hostVersion

/-- The banner of two lines. -/
def banner (a : EditorArguments) : String := a.title ++ "\nType 'help' to get help.\n"

/-- The argument for the banner.  A Windows runtime that splits its arguments at line ends gets
a single line. -/
def bannerArgument (a : EditorArguments) (exe : Executable) (platform : Platform) : String :=
  if a.suppressBanner then "-StartupBanner '' "
  else if platform.os.isWindows && !exe.properArguments then
    "-StartupBanner '" ++ quoteSingle a.title ++ "' "
  else "-StartupBanner \"" ++ Text.replaceChar '"' "`\"" a.banner ++ "\" "

/-- The arguments as they stand in the script. -/
def render (a : EditorArguments) (exe : Executable) (platform : Platform) : String :=
  "-HostName '" ++ quoteSingle a.hostName ++
  "' -HostProfileId '" ++ quoteSingle a.hostProfileId ++
  "' -HostVersion '" ++ quoteSingle a.hostVersion ++
  "' -BundledModulesPath '" ++ quoteSingle a.modulesPath.text ++
  "' -EnableConsoleRepl " ++ a.bannerArgument exe platform ++
  (if a.waitForDebugger then "-WaitForDebugger " else "") ++
  "-LogLevel '" ++ quoteSingle a.logLevel ++ "' " ++
  (if a.debugServiceOnly then "-DebugServiceOnly " else "")

end EditorArguments

/-- Everything that a startup script and its command are made of. -/
structure LaunchSpec where
  modulesPath : Path
  editorArguments : String
  logFolder : Path
  sessionFile : Path
  featureFlags : List String
  setExecutionPolicy : Bool
  loginShell : Bool
  legacyReadLine : Bool
  showOnStartup : Bool
  startInBackground : Bool
  cwd : Option Path
  /-- The console serves a debug session only. -/
  temporary : Bool

/-- The server's module manifest. -/
def manifestPath (modules : Path) : Path :=
  (modules.join "PowerShellEditorServices").join "PowerShellEditorServices.psd1"

/-- The script that starts the server. -/
def LaunchSpec.script (s : LaunchSpec) : String :=
  let flags := Text.joinWith ", " (s.featureFlags.map fun flag => "'" ++ quoteSingle flag ++ "'")
  "Import-Module '" ++ quoteSingle (manifestPath s.modulesPath).text ++
  "'; Start-EditorServices " ++ s.editorArguments ++
  "-LogPath '" ++ quoteSingle s.logFolder.text ++
  "' -SessionDetailsPath '" ++ quoteSingle s.sessionFile.text ++
  "' -FeatureFlags @(" ++ flags ++ ") " ++
  (if s.legacyReadLine then "-UseLegacyReadLine" else "")

end SessionHost.Launch
