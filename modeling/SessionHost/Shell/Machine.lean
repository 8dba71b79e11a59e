import SessionHost.Shell.Script
import SessionHost.Files.Tree
import SessionHost.Duration
import SessionHost.Text.Split
import SessionHost.Text.Utf8
import SessionHost.Text.Blank

/-!
# Running scripts

A machine carries out a script's instructions one after the other.  It may sleep, wait for
input, and end with a code or by a signal.

Main definitions:

- `Machine`: a script that runs.
- `Machine.step?`: the next instruction, if it can be carried out.
-/

namespace SessionHost.Shell

/-- How a script ended. -/
inductive Exit where
  | code (value : Nat)
  | signal
deriving DecidableEq

/-- What a machine is doing. -/
inductive Activity where
  | ready
  | sleeping (wake : Nat)
  | over (exit : Exit)
deriving DecidableEq

/-- A script that runs. -/
structure Machine where
  script : Script
  /-- The name that the script was called by. -/
  name : String
  arguments : List String
  folder : Path
  assigned : List (String × String) := []
  status : Nat := 0
  activity : Activity := .ready
  /-- The machine ends with the instruction that it carries out. -/
  final : Bool := false
  output : List UInt8 := []
  /-- How much of the input has been read. -/
  consumed : Nat := 0

/-- What surrounds a machine. -/
structure Around where
  files : FileTree
  input : List UInt8
  /-- More input may come. -/
  inputOpen : Bool
  now : Nat

namespace Machine

/-! ## Expansion -/

/-- The value of a parameter. -/
def parameter (m : Machine) (name : String) : String :=
  match name with
  | "#" => Text.decimal m.arguments.length
  | "?" => Text.decimal m.status
  | "$" => "1"
  | "0" => m.name
  | "PWD" => m.folder.text
  | "@" => Text.joinWith " " m.arguments
  | "*" => Text.joinWith " " m.arguments
  | _ =>
    match Text.digitsValue? name.toList with
    | some n => (m.arguments[n - 1]?).getD ""
    | none => ((m.assigned.find? fun v => v.1 == name).map (·.2)).getD ""

/-- The fields of a text that is split at blanks. -/
def blankFields (s : String) : List String :=
  ((s.splitOn " ").flatMap (·.splitOn "\n")).filter fun f => !f.isEmpty

/-- Puts a text at the end of the last field. -/
def glue (fields : Option (List String)) (s : String) : Option (List String) :=
  match fields with
  | none => some [s]
  | some fs => some (fs.dropLast ++ [fs.getLast?.getD "" ++ s])

/-- The fields of a word.  An unquoted parameter is split at its blanks. -/
def expandWord (m : Machine) (pieces : List Piece) : List String :=
  (pieces.foldl (fun (fields : Option (List String)) piece =>
    match piece with
    | .text chars _ => glue fields (String.ofList chars)
    | .parameter name true => glue fields (m.parameter name)
    | .parameter name false =>
      match blankFields (m.parameter name) with
      | [] => fields
      | first :: rest => (glue fields first).map (· ++ rest)) none).getD []

/-- The text of a word. -/
def expandText (m : Machine) (pieces : List Piece) : String :=
  Text.joinWith " " (m.expandWord pieces)

/-- A path as the machine's folder sees it. -/
def path (m : Machine) (text : String) : Path :=
  if text.isEmpty then ⟨""⟩ else m.folder.join text

/-! ## Printing -/

/-- The letter of an escape. -/
def escapeChar? (c : Char) : Option Char :=
  match c with
  | 'n' => some '\n'
  | 't' => some '\t'
  | 'r' => some '\r'
  | 'a' => some (Char.ofNat 7)
  | 'b' => some (Char.ofNat 8)
  | 'f' => some (Char.ofNat 12)
  | 'v' => some (Char.ofNat 11)
  | '\\' => some '\\'
  | _ => none

/-- The value of octal digits. -/
def octalValue (digits : List Char) : Nat :=
  digits.foldl (fun n c => n * 8 + (c.toNat - '0'.toNat)) 0

/-- An octal digit. -/
def isOctal (c : Char) : Bool := '0' ≤ c && c ≤ '7'

/-- The bytes of a text with escapes. -/
def escapedBytes : List Char → List UInt8
  | [] => []
  | '\\' :: c :: rest =>
    if isOctal c then
      let digits := c :: (rest.take 2).takeWhile isOctal
      UInt8.ofNat (octalValue digits) :: escapedBytes (rest.drop (digits.length - 1))
    else
      match escapeChar? c with
      | some e => Text.utf8Bytes (String.singleton e) ++ escapedBytes rest
      | none => Text.utf8Bytes (String.ofList ['\\', c]) ++ escapedBytes rest
  | c :: rest => Text.utf8Bytes (String.singleton c) ++ escapedBytes rest
termination_by cs => cs.length
decreasing_by all_goals simp only [List.length_cons, List.length_drop]; omega

/-- One use of a format, and the arguments that it leaves. -/
def formatOnce (literal : List Char) : List Char → List String → List UInt8 × List String
  | [], args => (escapedBytes literal, args)
  | '%' :: c :: rest, args =>
    let before := escapedBytes literal
    let arg := (args.head?).getD ""
    let (bytes, left) : List UInt8 × List String :=
      match c with
      | '%' => ([37], args)
      | 's' => (Text.utf8Bytes arg, args.drop 1)
      | 'b' => (escapedBytes arg.toList, args.drop 1)
      | 'c' => (Text.utf8Bytes (String.ofList (arg.toList.take 1)), args.drop 1)
      | 'd' => (Text.utf8Bytes (if arg.isEmpty then "0" else arg), args.drop 1)
      | other => (Text.utf8Bytes (String.ofList ['%', other]), args)
    let (more, left) := formatOnce [] rest left
    (before ++ bytes ++ more, left)
  | c :: rest, args => formatOnce (literal ++ [c]) rest args

/-- A format used as often as its arguments need it. -/
def formatAll (format : List Char) (args : List String) : Nat → List UInt8
  | 0 => []
  | fuel + 1 =>
    let (bytes, left) := formatOnce [] format args
    if left.isEmpty || left.length = args.length then bytes
    else bytes ++ formatAll format left fuel

/-! ## Streams -/

/-- The text of a number in units of a second, as nanoseconds. -/
def nanos (text : String) : Nat :=
  match text.splitOn "." with
  | [whole] => ((Text.digitsValue? whole.toList).getD 0) * 1000000000
  | whole :: fraction :: _ =>
    let digits := (fraction ++ "000000000").toList.take 9
    ((Text.digitsValue? whole.toList).getD 0) * 1000000000 + (Text.digitsValue? digits).getD 0
  | [] => 0

/-- Where a command's output goes. -/
inductive Sink where
  | output
  | errors
  | file (path : Path)

/-- Opens a file for output; a file that is written anew is emptied first. -/
def openFile (files : FileTree) (p : Path) (append : Bool) : Option FileTree :=
  let old := (files.read p).toOption.getD []
  (files.write p (if append then old else []) 0o644).toOption

/-- The sink of the output, the source of the input, and the files after all redirections;
`none` when a file cannot be opened. -/
def redirect (m : Machine) (files : FileTree) (sink : Sink) (source : Option (List UInt8)) :
    List Redirection → Option (FileTree × Sink × Option (List UInt8))
  | [] => some (files, sink, source)
  | .write stream target :: rest => do
    let p := m.path (m.expandText target)
    let files ← openFile files p false
    m.redirect files (if stream = 1 then .file p else sink) source rest
  | .append stream target :: rest => do
    let p := m.path (m.expandText target)
    let files ← openFile files p true
    m.redirect files (if stream = 1 then .file p else sink) source rest
  | .read target :: rest => do
    let bytes ← (files.read (m.path (m.expandText target))).toOption
    m.redirect files sink (some bytes) rest
  | .duplicate stream target :: rest =>
    m.redirect files
      (if stream = 1 ∧ m.expandText target = "2" then .errors else sink) source rest

/-- The machine and the files with bytes at a sink. -/
def emit (m : Machine) (files : FileTree) (sink : Sink) (bytes : List UInt8) :
    Machine × FileTree :=
  match sink with
  | .output => ({ m with output := m.output ++ bytes }, files)
  | .errors => (m, files)
  | .file p =>
    let old := (files.read p).toOption.getD []
    (m, (files.write p (old ++ bytes) 0o644).toOption.getD files)

/-! ## Commands -/

/-- What a command does: it has a status, or it takes time, or it ends the machine. -/
inductive Effect where
  | status (code : Nat) (output : List UInt8) (files : FileTree)
  /-- It reads a part of the input and passes it on. -/
  | passOn (count : Nat)
  /-- It reads a line, of which it takes a number of bytes from the input, into a variable. -/
  | line (count : Nat) (name value : String) (code : Nat)
  /-- It has to wait for input. -/
  | blocked
  | sleep (nanos : Nat)
  | goTo (folder : Path)
  | exit (e : Exit)

/-- A change of the files as a status. -/
def changed (files : FileTree) (r : Except ErrorKind FileTree) : Effect :=
  match r with
  | .ok files => .status 0 [] files
  | .error _ => .status 1 [] files

/-- Copies as much input as there is, up to a number of bytes. -/
def copyInput (m : Machine) (a : Around) (source : Option (List UInt8)) (limit : Option Nat) :
    Effect :=
  match source with
  | some bytes => .status 0 (bytes.take (limit.getD bytes.length)) a.files
  | none =>
    let left := a.input.length - m.consumed
    match limit with
    | some n => if n ≤ left || !a.inputOpen then .passOn (min n left) else .blocked
    | none => if a.inputOpen then .blocked else .passOn left

/-- Reads a line into a variable; the status tells whether the line has an end. -/
def readLine (m : Machine) (a : Around) (source : Option (List UInt8)) (name : String) : Effect :=
  let bytes := source.getD (a.input.drop m.consumed)
  let line := bytes.takeWhile (· ≠ 10)
  let ended := line.length < bytes.length
  if !ended && source.isNone && a.inputOpen then .blocked
  else
    let count := if source.isSome then 0 else if ended then line.length + 1 else line.length
    .line count name (Text.trim (Text.ofUtf8Lenient line)) (if ended then 0 else 1)

/-- The status of a test on texts and files: true, false, or not understood. -/
def testStatus (m : Machine) (files : FileTree) (args : List String) : Nat :=
  let status (holds : Bool) : Nat := if holds then 0 else 1
  match args with
  | [] => 1
  | [s] => status (!s.isEmpty)
  | ["!", s] => status s.isEmpty
  | ["-n", s] => status (!s.isEmpty)
  | ["-z", s] => status s.isEmpty
  | ["-e", p] => status (files.pathExists (m.path p))
  | ["-f", p] => status (files.isFile (m.path p))
  | ["-d", p] => status (files.isFolder (m.path p))
  | [s, "=", t] => status (s == t)
  | [s, "!=", t] => status (s != t)
  | [s, "-eq", t] => status (Text.digitsValue? s.toList == Text.digitsValue? t.toList)
  | [s, "-ne", t] => status (Text.digitsValue? s.toList != Text.digitsValue? t.toList)
  | _ => 2

/-- A command by its name. -/
def effect (m : Machine) (a : Around) (source : Option (List UInt8)) (name : String)
    (args : List String) : Effect :=
  let say (s : String) : Effect := .status 0 (Text.utf8Bytes s) a.files
  let code (n : Nat) : Effect := .status n [] a.files
  match name, args with
  | ":", _ => code 0
  | "true", _ => code 0
  | "false", _ => code 1
  | "echo", "-n" :: rest => .status 0 (escapedBytes (Text.joinWith " " rest).toList) a.files
  | "echo", rest => .status 0 (escapedBytes (Text.joinWith " " rest).toList ++ [10]) a.files
  | "printf", format :: rest => .status 0 (formatAll format.toList rest (rest.length + 1)) a.files
  | "pwd", _ => say (m.folder.text ++ "\n")
  | "cd", [folder] => if a.files.isFolder (m.path folder) then .goTo (m.path folder) else code 2
  | "exit", [] => .exit (.code m.status)
  | "exit", n :: _ => .exit (.code (((Text.digitsValue? n.toList).getD 2) % 256))
  | "kill", args => if args.contains "1" && args.head? ≠ some "-0" then .exit .signal else code 1
  | "sleep", n :: _ => .sleep (nanos n)
  | "mv", [p, q] => changed a.files (a.files.rename (m.path p) (m.path q))
  | "rm", ["-f", p] =>
    if a.files.pathExists (m.path p) then changed a.files (a.files.delete (m.path p)) else code 0
  | "rm", [p] => changed a.files (a.files.delete (m.path p))
  | "touch", [p] => changed a.files
    (if a.files.pathExists (m.path p) then .ok a.files else a.files.write (m.path p) [] 0o644)
  | "mkdir", ["-p", p] => changed a.files (a.files.createFolders (m.path p))
  | "mkdir", [p] => changed a.files (a.files.createFolder (m.path p))
  | "cat", [] => m.copyInput a source none
  | "cat", [p] =>
    match a.files.read (m.path p) with
    | .ok bytes => .status 0 bytes a.files
    | .error _ => code 1
  | "head", ["-c", n] => m.copyInput a source (some ((Text.digitsValue? n.toList).getD 0))
  | "read", "-r" :: name :: _ => m.readLine a source name
  | "read", name :: _ => m.readLine a source name
  | "test", args => code (m.testStatus a.files args)
  | "[", args =>
    if args.getLast? = some "]" then code (m.testStatus a.files args.dropLast) else code 2
  | "trap", _ => code 0
  | _, _ => code 127

/-- An assignment to a variable, if a word is one. -/
def assignment? (word : String) : Option (String × String) :=
  match Text.cutAt? '=' word.toList with
  | some (name, value) =>
    if !name.isEmpty && name.all (fun c => c.isAlphanum || c = '_') then
      some (String.ofList name, String.ofList value) else none
  | none => none

/-- The machine after an instruction with a status. -/
def finish (m : Machine) (code : Nat) : Machine :=
  if m.final then { m with status := code, activity := .over (.code code) }
  else { m with status := code }

/-- Carries out a command whose redirections have been made. -/
def carryOut (m : Machine) (a : Around) (sink : Sink) (source : Option (List UInt8))
    (words : List String) : Option (Machine × FileTree) :=
  match words with
  | [] => some (m.finish 0, a.files)
  | name :: args =>
    match m.effect a source name args with
    | .blocked => none
    | .status code bytes files =>
      let (m, files) := m.emit files sink bytes
      some (m.finish code, files)
    | .passOn count =>
      let bytes := (a.input.drop m.consumed).take count
      let (m, files) := { m with consumed := m.consumed + count }.emit a.files sink bytes
      some (m.finish 0, files)
    | .line count name value code =>
      let m := { m with consumed := m.consumed + count, assigned := (name, value) :: m.assigned }
      some (m.finish code, a.files)
    | .sleep n => some ({ m with activity := .sleeping (a.now + n) }, a.files)
    | .goTo folder => some ({ m with folder }.finish 0, a.files)
    | .exit e => some ({ m with activity := .over e }, a.files)

/-- An instruction is to be carried out. -/
def wanted (m : Machine) : Condition → Bool
  | .always => true
  | .afterSuccess => m.status = 0
  | .afterFailure => m.status ≠ 0

/-- Carries out a command with its redirections. -/
def runCommand (m : Machine) (a : Around) (i : Instruction) (words : List String) :
    Option (Machine × FileTree) :=
  match m.redirect a.files .output none i.redirections with
  | none => some (m.finish 2, a.files)
  | some (files, sink, source) => m.carryOut { a with files } sink source words

/-- Carries out an instruction. -/
def run (m : Machine) (a : Around) (i : Instruction) : Option (Machine × FileTree) :=
  match i.words.flatMap m.expandWord with
  | [word] =>
    match assignment? word with
    | some v => some ({ m with assigned := v :: m.assigned }.finish 0, a.files)
    | none => m.runCommand a i [word]
  | "exec" :: rest => { m with final := !rest.isEmpty }.runCommand a i rest
  | words => m.runCommand a i words

/-- The next instruction, if it can be carried out. -/
def step? (m : Machine) (a : Around) : Option (Machine × FileTree) :=
  match m.activity with
  | .over _ => none
  | .sleeping wake =>
    if wake ≤ a.now then some ({ m with activity := .ready }.finish 0, a.files) else none
  | .ready =>
    match m.script with
    | [] => some ({ m with activity := .over (.code m.status) }, a.files)
    | i :: rest =>
      if m.wanted i.condition then
        (m.run a i).map fun r => ({ r.1 with script := rest }, r.2)
      else
        some ({ m with script := rest }, a.files)

/-- How the script ended. -/
def exit? (m : Machine) : Option Exit :=
  match m.activity with
  | .over e => some e
  | _ => none

/-- The time at which a machine goes on by itself. -/
def alarm? (m : Machine) : Option Nat :=
  match m.activity with
  | .sleeping wake => some wake
  | _ => none

end Machine

end SessionHost.Shell
