import SessionHost.Launch.Base64
import SessionHost.Launch.Script
import SessionHost.Text.Decimal
import SessionHost.Text.Utf8
import SessionHost.Text.Lowercase

/-!
# Launch commands

The program, arguments and title that a console is launched with.  On Windows the script is an
argument as it stands; elsewhere it is encoded, so that no shell touches it.

Main definitions:

- `LaunchCommand`, `LaunchSpec.command`: the invocation of a runtime.
- `encodeScript`: a script as base64 of its UTF-16 units.
- `sessionFilePath`: where a server writes its handshake.
-/

namespace SessionHost.Launch

/-- A complete invocation. -/
structure LaunchCommand where
  program : Path
  args : List String
  cwd : Option Path
  title : String
deriving DecidableEq

/-- The base64 letters of a script's UTF-16 little-endian bytes. -/
def encodeScript (script : String) : String :=
  String.ofList (base64 (Text.utf16Bytes script))

/-- The program takes `-Login`; Windows PowerShell does not. -/
def isLoginCapable (program : Path) : Bool :=
  match program.stem? with
  | some stem => Text.startsWith (Text.asciiLowercase stem) "pwsh"
  | none => false

/-- The arguments before the script. -/
def LaunchSpec.options (s : LaunchSpec) (exe : Executable) (platform : Platform) : List String :=
  (if s.loginShell && isLoginCapable exe.path && !platform.os.isWindows then ["-Login"] else []) ++
  ["-NoProfile"] ++
  (if platform.os.isWindows && s.setExecutionPolicy then ["-ExecutionPolicy", "Bypass"] else [])

/-- The arguments that carry the script. -/
def LaunchSpec.scriptArguments (s : LaunchSpec) (platform : Platform) : List String :=
  if platform.os.isWindows then ["-Command", s.script]
  else ["-EncodedCommand", encodeScript s.script]

/-- The console's title. -/
def LaunchSpec.title (s : LaunchSpec) (exe : Executable) : String :=
  if s.temporary then exe.name ++ " (Temporary)" else exe.name

/-- The invocation of a runtime. -/
def LaunchSpec.command (s : LaunchSpec) (exe : Executable) (platform : Platform) :
    LaunchCommand :=
  { program := exe.path
    args := s.options exe platform ++ s.scriptArguments platform
    cwd := s.cwd
    title := s.title exe }

/-! ## Session files -/

/-- The name of a session file: the host's session id, a number of its own, and a mark for
debug sessions. -/
def sessionFileName (sessionId number : String) (debug : Bool) : String :=
  "PSES-Host-" ++ sessionId ++ "-" ++ number ++ (if debug then "-Debug" else "") ++ ".json"

/-- Where a server writes its handshake. -/
def sessionFilePath (folder : Path) (sessionId number : String) (debug : Bool) : Path :=
  folder.join (sessionFileName sessionId number debug)

/-- A session id in its written form: thirty-two small hexadecimal digits in five groups.  Other
spellings of it have those digits at their end, with or without marks between and around them. -/
def sessionIdText (spelling : List Char) : String :=
  let digits := (spelling.filter fun c => (Text.hexValue? c).isSome).map Char.toLower
  let ds := digits.drop (digits.length - 32)
  let part (start count : Nat) : String := String.ofList ((ds.drop start).take count)
  Text.joinWith "-" [part 0 8, part 8 4, part 12 4, part 16 4, part 20 12]

end SessionHost.Launch
