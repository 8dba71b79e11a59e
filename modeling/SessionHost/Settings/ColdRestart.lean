import SessionHost.Settings.Basic

/-!
# Settings that need a restart

Some settings only take effect when a session starts.  They are listed in a fixed order, and of
several changed ones the first is reported.

Main definitions:

- `coldSettings`: the names of these settings, and when two values differ.
- `coldChange?`: the first of them that differs.
-/

namespace SessionHost

/-- A setting by name, with the test for a change. -/
structure ColdSetting where
  name : String
  changed : Settings → Settings → Bool

/-- The settings that need a restart. -/
def coldSettings : List ColdSetting :=
  [⟨"developer.traceLsp", fun a b => a.developer.traceLanguage != b.developer.traceLanguage⟩,
    ⟨"developer.traceDap", fun a b => a.developer.traceDebug != b.developer.traceDebug⟩,
    ⟨"developer.editorServicesLogLevel", fun a b => a.developer.logLevel != b.developer.logLevel⟩,
    ⟨"cwd", fun a b => !pathsAlike a.cwd b.cwd⟩,
    ⟨"powerShellDefaultVersion", fun a b => a.defaultVersion != b.defaultVersion⟩,
    ⟨"developer.bundledModulesPath",
      fun a b => !pathsAlike a.developer.modulesPath b.developer.modulesPath⟩,
    ⟨"developer.editorServicesWaitForDebugger",
      fun a b => a.developer.waitForDebugger != b.developer.waitForDebugger⟩,
    ⟨"developer.setExecutionPolicy",
      fun a b => a.developer.setExecutionPolicy != b.developer.setExecutionPolicy⟩,
    ⟨"integratedConsole.useLegacyReadLine",
      fun a b => a.console.legacyReadLine != b.console.legacyReadLine⟩,
    ⟨"integratedConsole.startInBackground",
      fun a b => a.console.startInBackground != b.console.startInBackground⟩,
    ⟨"integratedConsole.startLocation",
      fun a b => a.console.startLocation != b.console.startLocation⟩]

/-- The name of the first setting that differs and needs a restart. -/
def coldChange? (old new : Settings) : Option String :=
  (coldSettings.find? fun s => s.changed old new).map ColdSetting.name

end SessionHost
