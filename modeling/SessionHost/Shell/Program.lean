import SessionHost.Shell.Machine

/-!
# Programs

The programs of a file tree.  A program is a file that may be executed and whose first line
names the shell; everything else gives the error that the system has for it.

Main definitions:

- `startProgram`: a program at its beginning, or the error of its start.
- `probeVersion`: the version that a runtime prints.
-/

namespace SessionHost.Shell

/-- The places of the shell. -/
def shells : List String := ["/bin/sh", "/usr/bin/sh"]

/-- A file that begins with the mark of a script, without that mark. -/
def afterMark? : List UInt8 → Option (List UInt8)
  | 35 :: 33 :: rest => some rest
  | _ => none

/-- The interpreter that the first line of a script names. -/
def interpreter? (content : List UInt8) : Option String :=
  (afterMark? content).map fun rest =>
    let line := (Text.ofUtf8Lenient (rest.takeWhile (· ≠ 10))).toList
    let isSpace (c : Char) : Bool := c = ' ' || c = '\t'
    String.ofList ((line.dropWhile isSpace).takeWhile fun c => !isSpace c)

/-- The error for a file that is no program. -/
def formatError : SystemError := ⟨.other, "Exec format error (os error 8)"⟩

/-- The folder that a program is to run in is there. -/
def enterFolder (files : FileTree) (folder : Path) : Except SystemError Unit :=
  match files.find folder with
  | .ok (_, .folder _) => .ok ()
  | .ok (_, .file _ _) => .error (.ofKind .notADirectory)
  | .error kind => .error (.ofKind kind)

/-- The content of a file that may be executed. -/
def executableContent (files : FileTree) (path : Path) : Except SystemError (List UInt8) :=
  match files.find path with
  | .ok (_, .file content mode) =>
    if mode &&& 0o111 = 0 then .error (.ofKind .permissionDenied) else .ok content
  | .ok (_, .folder _) => .error (.ofKind .permissionDenied)
  | .error kind => .error (.ofKind kind)

/-- A program at its beginning, or the error of its start. -/
def startProgram (files : FileTree) (path : Path) (arguments : List String) (folder : Path) :
    Except SystemError Machine := do
  enterFolder files folder
  let content ← executableContent files path
  match interpreter? content with
  | none => .error formatError
  | some "" => .error formatError
  | some shell =>
    if shell ∈ shells then
      return { script := Script.ofText (Text.ofUtf8Lenient content), name := path.text, arguments,
               folder }
    else
      .error (.ofKind .notFound)

/-! ## Asking for the version -/

/-- The arguments that make a runtime print its version. -/
def versionArguments : List String :=
  ["-NoProfile", "-NoLogo", "-Command", "$PSVersionTable.PSVersion.ToString()"]

/-- How long a runtime may take to print its version. -/
def versionTime : Duration := .ofSeconds 10

/-- A machine without input after its end, when it ends in time. -/
def runToEnd (m : Machine) (files : FileTree) (now : Nat) : Nat → Option Machine
  | 0 => none
  | fuel + 1 =>
    match m.exit? with
    | some _ => some m
    | none =>
      let now := match m.alarm? with
        | some t => t
        | none => now
      if versionTime.nanos < now then none
      else
        match m.step? ⟨files, [], false, now⟩ with
        | some (m, files) => runToEnd m files now fuel
        | none => none

/-- The version that a runtime prints: its output without blanks around it, when it ends well. -/
def probeVersion (files : FileTree) (path folder : Path) : Option String := do
  let m ← (startProgram files path versionArguments folder).toOption
  let m ← runToEnd m files 0 (2 * m.script.length + 2)
  if m.exit? = some (.code 0) then
    let text := Text.trim (Text.ofUtf8Lenient m.output)
    if text.isEmpty then none else some text
  else
    none

end SessionHost.Shell
