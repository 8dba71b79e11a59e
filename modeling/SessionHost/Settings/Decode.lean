import SessionHost.Settings.Basic
import SessionHost.Toml.Document

/-!
# Settings in TOML

Settings are read from a table by name.  Keys of other names are passed over; a value of another
type than the setting's is an error.  A group of settings may also be written as an array of its
settings in their order, of which the last ones may be missing.

Main definitions:

- `fields?`: the values given for the settings of a group.
- `Settings.ofMembers?`: settings from a table.
- `Settings.ofText?`: settings from a document.
-/

namespace SessionHost

open Toml (Value Scalar)

/-- The key under which a moment of time stands as a table of its own. -/
def momentKey : String := "$__toml_private_datetime"

/-- The values of keys with other names than those of settings can be passed over. -/
def isPassable (names : List String) (members : List (String × Value)) : Bool :=
  members.all fun m => names.contains m.1 || m.2.allScalars Scalar.isReadable

/-- The values given for the settings of a group.  Further items of an array are not looked at,
and a moment of time gives none of them. -/
def fields? (names : List String) : Value → Option (List (Option Value))
  | .table members =>
    if isPassable names members then some (names.map fun name => Toml.member? name members)
    else none
  | .array items =>
    let given := items.take names.length
    some (given.map some ++ List.replicate (names.length - given.length) none)
  | .scalar (.moment _) => some (names.map fun _ => none)
  | _ => none

/-- A setting that has a default. -/
def setting {α : Type} (read? : Value → Option α) (default : α) : Option Value → Option α
  | some v => read? v
  | none => some default

/-- A text. -/
def text? : Value → Option String
  | .string s => some s
  | _ => none

/-- A text that is a path. -/
def path? (v : Value) : Option Path := (text? v).map Path.mk

/-- A truth value. -/
def truth? : Value → Option Bool
  | .scalar (.bool b) => some b
  | _ => none

/-- A number of seconds that fits 64 bits. -/
def seconds? : Value → Option Nat
  | .scalar (.integer i) => if 0 ≤ i ∧ i ≤ Text.maxUInt64 then some i.toNat else none
  | _ => none

/-- A list of texts. -/
def texts? : Value → Option (List String)
  | .array items => items.mapM text?
  | _ => none

/-- The name of a choice: a text, or the only key of a table whose value is empty. -/
def choice? : Value → Option String
  | .string s => some s
  | .table [(name, .table [])] => some name
  | .table [(name, .array [])] => some name
  | _ => none

/-- A log level by its name in small letters. -/
def logLevel? (v : Value) : Option LogLevel :=
  match choice? v with
  | some "trace" => some .trace
  | some "debug" => some .debug
  | some "information" => some .information
  | some "warning" => some .warning
  | some "error" => some .error
  | some "none" => some .none
  | _ => none

/-- A start location by its name in small letters. -/
def startLocation? (v : Value) : Option StartLocation :=
  match choice? v with
  | some "panel" => some .panel
  | some "editor" => some .editor
  | _ => none

/-- Texts by name, in ascending order of the names. -/
def textsByName? : Value → Option (List (String × String))
  | .scalar (.moment m) => some [(momentKey, m.text)]
  | .table members =>
    (members.mapM fun m => (text? m.2).map fun t => (m.1, t)).map fun pairs =>
      pairs.mergeSort fun a b => !(b.1 < a.1)
  | _ => none

/-- The settings for login shells. -/
def loginShell? (v : Value) : Option LoginShell :=
  match fields? ["osx", "linux"] v with
  | some [osx, linux] => do
    let osx ← setting truth? false osx
    let linux ← setting truth? false linux
    return ⟨osx, linux⟩
  | _ => none

/-- The settings for developers. -/
def developer? (v : Value) : Option DeveloperSettings :=
  let names := ["bundled_modules_path", "editor_services_log_level",
    "editor_services_wait_for_debugger", "set_execution_policy", "feature_flags",
    "wait_for_session_file_timeout_seconds", "trace_lsp", "trace_dap"]
  match fields? names v with
  | some [modules, level, wait, policy, flags, timeout, language, debug] => do
    let modules ← setting (fun v => (path? v).map some) none modules
    let level ← setting logLevel? .warning level
    let wait ← setting truth? false wait
    let policy ← setting truth? true policy
    let flags ← setting texts? [] flags
    let timeout ← setting seconds? 240 timeout
    let language ← setting truth? false language
    let debug ← setting truth? false debug
    return ⟨modules, level, wait, policy, flags, timeout, language, debug⟩
  | _ => none

/-- The settings for the console. -/
def console? (v : Value) : Option ConsoleSettings :=
  let names := ["show_on_startup", "start_in_background", "start_location",
    "use_legacy_read_line", "suppress_startup_banner", "start_as_login_shell"]
  match fields? names v with
  | some [show_, background, location, legacy, suppress, login] => do
    let show_ ← setting truth? true show_
    let background ← setting truth? false background
    let location ← setting startLocation? .panel location
    let legacy ← setting truth? false legacy
    let suppress ← setting truth? false suppress
    let login ← setting loginShell? {} login
    return ⟨show_, background, location, legacy, suppress, login⟩
  | _ => none

/-- The key of the setting that names the preferred runtime. -/
def defaultVersionKey : String := "power_shell_default_version"

/-- Settings from the members of a document. -/
def Settings.ofMembers? (members : List (String × Value)) : Option Settings :=
  let names := [defaultVersionKey, "power_shell_additional_exe_paths", "cwd",
    "enable_profile_loading", "developer", "integrated_console"]
  match fields? names (.table members) with
  | some [version, paths, cwd, profile, developer, console] => do
    let version ← setting (fun v => (text? v).map some) none version
    let paths ← setting textsByName? [] paths
    let cwd ← setting (fun v => (path? v).map some) none cwd
    let profile ← setting truth? true profile
    let developer ← setting developer? {} developer
    let console ← setting console? {} console
    return ⟨version, paths, cwd, profile, developer, console⟩
  | _ => none

/-- Settings from the text of a document. -/
def Settings.ofText? (text : String) : Option Settings :=
  (Toml.Document.ofText? text).bind fun d => Settings.ofMembers? d.members

end SessionHost
