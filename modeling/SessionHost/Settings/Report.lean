import SessionHost.Json.Value
import SessionHost.Settings.Basic

/-!
# Settings as a value

All settings, with their defaults filled in, under the names and in the nesting that a settings
file has.

Main definitions:

- `Settings.value`: the JSON value of settings.
-/

namespace SessionHost

open Json (Value)

/-- An optional path as a value. -/
def pathValue (p : Option Path) : Value := .optional (fun p => .string p.text) p

/-- The JSON value of the settings for developers. -/
def DeveloperSettings.value (s : DeveloperSettings) : Value :=
  .ofMembers
    [("bundled_modules_path", pathValue s.modulesPath),
      ("editor_services_log_level", .string s.logLevel.name),
      ("editor_services_wait_for_debugger", .bool s.waitForDebugger),
      ("set_execution_policy", .bool s.setExecutionPolicy),
      ("feature_flags", .array (s.featureFlags.map .string)),
      ("wait_for_session_file_timeout_seconds", .nat s.handshakeTimeoutSeconds),
      ("trace_lsp", .bool s.traceLanguage),
      ("trace_dap", .bool s.traceDebug)]

/-- The JSON value of the settings for the console. -/
def ConsoleSettings.value (s : ConsoleSettings) : Value :=
  .ofMembers
    [("show_on_startup", .bool s.showOnStartup),
      ("start_in_background", .bool s.startInBackground),
      ("start_location", .string s.startLocation.name),
      ("use_legacy_read_line", .bool s.legacyReadLine),
      ("suppress_startup_banner", .bool s.suppressBanner),
      ("start_as_login_shell", .ofMembers
        [("osx", .bool s.loginShell.macOS), ("linux", .bool s.loginShell.linux)])]

/-- The JSON value of settings. -/
def Settings.value (s : Settings) : Value :=
  .ofMembers
    [("power_shell_default_version", .optional .string s.defaultVersion),
      ("power_shell_additional_exe_paths",
        .ofMembers (s.additionalPaths.map fun p => (p.1, .string p.2))),
      ("cwd", pathValue s.cwd),
      ("enable_profile_loading", .bool s.profileLoading),
      ("developer", s.developer.value),
      ("integrated_console", s.console.value)]

end SessionHost
