import SessionHost.Discovery.Environment
import SessionHost.Discovery.Probe
import SessionHost.Executable
import SessionHost.Platform
import SessionHost.Text.Blank
import SessionHost.Text.Decimal
import SessionHost.Text.Lowercase

/-!
# Finding runtimes

Runtimes are looked for in a fixed order of places that depends on the operating system, and
then at the paths that the user has configured by name.  Each place is a step of its own; a
search runs the steps one after the other and stops as soon as it has what it wants.

Main definitions:

- `Finder`: what a search depends on beside the file system.
- `Candidate`, `candidates`: the places and their order.
- `Finder.steps`: one step for each place and each configured path.
- `Finder.all`, `Finder.take`, `Finder.first`, `Finder.named`: searches.
- `Finder.nativePath`: the path of the Windows PowerShell of the right width.
-/

namespace SessionHost.Discovery

/-- What a search depends on beside the file system.  Configured paths are in ascending order of
their names. -/
structure Finder where
  platform : Platform
  environment : Environment
  additional : List (String × String)

/-! ## Places -/

/-- A place where a runtime may be installed. -/
inductive Candidate where
  | stable
  | stableAlternateBitness
  | stableSnap
  | stableHomebrew
  | stableStore
  | globalTool
  | preview
  | previewSnap
  | previewStore
  | previewAlternateBitness
  | windowsPowerShell
  | windowsPowerShellAlternateBitness
deriving DecidableEq

/-- The places of an operating system, in the order of preference. -/
def candidates : OperatingSystem → List Candidate
  | .windows =>
    [.stable, .stableAlternateBitness, .stableStore, .globalTool, .preview, .previewStore,
      .previewAlternateBitness, .windowsPowerShell, .windowsPowerShellAlternateBitness]
  | .linux => [.stable, .stableSnap, .globalTool, .preview, .previewSnap]
  | .macOS => [.stable, .stableHomebrew, .globalTool, .preview]
  | .unknown => []

/-! ## Numbered folders -/

/-- The number of an install folder: digits that fit 32 bits, followed by `-preview` for a
preview and by nothing otherwise. -/
def installNumber? (preview : Bool) (name : String) : Option Nat :=
  let digits := name.toList.takeWhile Char.isDigit
  let ending := name.toList.dropWhile Char.isDigit
  if ending = (if preview then "-preview".toList else []) then
    (Text.digitsValue? digits).filter (· ≤ Text.maxUInt32)
  else
    none

/-- The program in a numbered folder. -/
def installedProgram (base : Path) (name : String) : Path := (base.join name).join "pwsh.exe"

/-- A number is of use only above the best one found so far. -/
def improves (best : Option (Nat × Path)) (number : Nat) : Bool :=
  match best with
  | some (seen, _) => seen < number
  | none => true

/-- The best install among the listed names, given the best so far.  A folder without the
program does not count. -/
def bestInstall (probe : Probe) (base : Path) (preview : Bool) (best : Option (Nat × Path)) :
    List String → Traced (Option (Nat × Path))
  | [] => .pure best
  | name :: rest =>
    match installNumber? preview name with
    | none => bestInstall probe base preview best rest
    | some number =>
      if improves best number then
        (probe.askFile (installedProgram base name)).bind fun found =>
          bestInstall probe base preview
            (if found then some (number, installedProgram base name) else best) rest
      else
        bestInstall probe base preview best rest

namespace Finder

/-- The folder of installed programs of the wanted width. -/
def programFiles? (f : Finder) (alternate : Bool) : Option Path :=
  if !alternate then f.environment.programFiles
  else if f.platform.processIs64Bit then f.environment.programFilesX86
  else if f.platform.systemIs64Bit then f.environment.programW6432
  else none

/-- The greatest numbered install below the folder of installed programs. -/
def numberedInstall (f : Finder) (probe : Probe) (alternate preview : Bool) :
    Traced (Option Executable) :=
  match f.programFiles? alternate with
  | none => .pure none
  | some folder =>
    let base := folder.join "PowerShell"
    (probe.askListing base).bind fun names =>
      (bestInstall probe base preview none (names.getD [])).bind fun best =>
        let width := if f.platform.processIs64Bit != alternate then "x64" else "x86"
        let kind := if preview then " Preview" else ""
        .pure (best.map fun b =>
          { path := b.2, name := "PowerShell" ++ kind ++ " (" ++ width ++ ")" })

/-! ## Other places -/

/-- A runtime, if its program is there. -/
def ifInstalled (probe : Probe) (exe : Executable) : Traced (Option Executable) :=
  (probe.askFile exe.path).bind fun found => .pure (if found then some exe else none)

/-- The folder of a Store package. -/
def isStoreFolder (preview : Bool) (name : String) : Bool :=
  Text.startsWith name (if preview then "Microsoft.PowerShellPreview_" else "Microsoft.PowerShell_")

/-- The install from the Store: the first package folder listed. -/
def storeInstall (f : Finder) (probe : Probe) (preview : Bool) : Traced (Option Executable) :=
  match f.environment.localAppData with
  | none => .pure none
  | some folder =>
    let apps := (folder.join "Microsoft").join "WindowsApps"
    (probe.askFolder apps).bind fun there =>
      if there then
        (probe.askListing apps).bind fun names =>
          match (names.getD []).find? (isStoreFolder preview) with
          | none => .pure none
          | some name =>
            ifInstalled probe
              { path := (apps.join name).join "pwsh.exe"
                name := if preview then "PowerShell Preview (Store)" else "PowerShell (Store)" }
      else
        .pure none

/-- The global tool in the home folder.  It does not take arguments of several lines. -/
def globalTool (f : Finder) (probe : Probe) : Traced (Option Executable) :=
  match f.environment.home with
  | none => .pure none
  | some home =>
    let program := if f.platform.os.isWindows then "pwsh.exe" else "pwsh"
    ifInstalled probe
      { path := ((home.join ".dotnet").join "tools").join program
        name := ".NET Core PowerShell Global Tool"
        properArguments := false }

/-- The system folder of the wanted width, as this process sees it. -/
def systemFolder? (f : Finder) (alternate : Bool) : Option Path :=
  f.environment.windowsFolder.bind fun folder =>
    if !alternate then some (folder.join "System32")
    else if f.platform.processIs64Bit then some (folder.join "SysWOW64")
    else if f.platform.systemIs64Bit then some (folder.join "Sysnative")
    else none

/-- The label of the Windows PowerShell of the wanted width. -/
def windowsPowerShellLabel (f : Finder) (alternate : Bool) : String :=
  let wide :=
    if f.platform.processIs64Bit then !alternate
    else if f.platform.systemIs64Bit then alternate
    else false
  if wide then "Windows PowerShell (x64)" else "Windows PowerShell (x86)"

/-- The Windows PowerShell of the wanted width, whether or not it is installed. -/
def windowsPowerShell? (f : Finder) (alternate : Bool) : Option Executable :=
  if !f.platform.os.isWindows then none
  else if alternate && !f.platform.systemIs64Bit then none
  else
    (f.systemFolder? alternate).map fun folder =>
      { path := ((folder.join "WindowsPowerShell").join "v1.0").join "powershell.exe"
        name := f.windowsPowerShellLabel alternate }

/-- A runtime at a fixed path that depends on the operating system. -/
def fixedPath (f : Finder) (probe : Probe) (linux macOS : String) (name : String) :
    Traced (Option Executable) :=
  match f.platform.os with
  | .linux => ifInstalled probe { path := ⟨linux⟩, name := name }
  | .macOS => ifInstalled probe { path := ⟨macOS⟩, name := name }
  | _ => .pure none

/-- The runtime at a place. -/
def resolve (f : Finder) (probe : Probe) (c : Candidate) : Traced (Option Executable) :=
  /- A runtime found by its program's file is not asked for again. -/
  match c with
  | .stable =>
    if f.platform.os.isWindows then f.numberedInstall probe false false
    else f.fixedPath probe "/usr/bin/pwsh" "/usr/local/bin/pwsh" "PowerShell"
  | .stableAlternateBitness => f.numberedInstall probe true false
  | .stableSnap => ifInstalled probe { path := ⟨"/snap/bin/pwsh"⟩, name := "PowerShell Snap" }
  | .stableHomebrew =>
    ifInstalled probe { path := ⟨"/opt/homebrew/bin/pwsh"⟩, name := "PowerShell (Homebrew)" }
  | .stableStore => f.storeInstall probe false
  | .globalTool => f.globalTool probe
  | .preview =>
    if f.platform.os.isWindows then f.numberedInstall probe false true
    else
      f.fixedPath probe "/usr/bin/pwsh-preview" "/usr/local/bin/pwsh-preview" "PowerShell Preview"
  | .previewSnap =>
    ifInstalled probe { path := ⟨"/snap/bin/pwsh-preview"⟩, name := "PowerShell Preview Snap" }
  | .previewStore => f.storeInstall probe true
  | .previewAlternateBitness => f.numberedInstall probe true true
  | .windowsPowerShell =>
    match f.windowsPowerShell? false with
    | some exe => ifInstalled probe exe
    | none => .pure none
  | .windowsPowerShellAlternateBitness =>
    match f.windowsPowerShell? true with
    | some exe => ifInstalled probe exe
    | none => .pure none

/-! ## Configured paths -/

end Finder

/-- The text between a pair of like quotes, or the whole text. -/
def stripQuotes (cs : List Char) : List Char :=
  match cs with
  | q :: rest =>
    if (q = '"' ∨ q = '\'') ∧ rest.getLast? = some q then rest.dropLast else cs
  | [] => cs

/-- The path of a text in which a leading `~` stands for the home folder. -/
def expandHome (home : Option Path) (text : String) : Path :=
  match home with
  | none => ⟨text⟩
  | some home =>
    match text.toList with
    | ['~'] => home
    | '~' :: '/' :: rest => home.join (String.ofList rest)
    | '~' :: '\\' :: rest => home.join (String.ofList rest)
    | _ => ⟨text⟩

/-- The programs that a configured path may mean: itself, and what may be missing from it. -/
def programsAt (windows : Bool) (p : Path) : List Path :=
  let lower := Text.lowercase p.text
  if windows then
    if Text.endsWith lower "pwsh.exe" || Text.endsWith lower "powershell.exe" then [p]
    else
      p ::
        ((if Text.endsWith lower "pwsh" || Text.endsWith lower "powershell"
          then [⟨p.text ++ ".exe"⟩] else []) ++
        [p.join "pwsh.exe", p.join "powershell.exe"])
  else if Text.endsWith lower "pwsh" then [p]
  else [p, p.join "pwsh"]

/-- The warning for a configured path that leads nowhere. -/
def missingWarning (name : String) (p : Path) : String :=
  "Additional PowerShell '" ++ name ++ "' not found at '" ++ p.text ++ "'!"

namespace Finder

/-- The runtime at a configured path; a blank path is passed over. -/
def resolveAdditional (f : Finder) (probe : Probe) (name raw : String) :
    Traced (Option Executable) :=
  match stripQuotes (Text.trimChars raw.toList) with
  | [] => .pure none
  | stripped =>
    let p := expandHome f.environment.home (String.ofList stripped)
    (probe.firstFile (programsAt f.platform.os.isWindows p)).bind fun found =>
      match found with
      | some program => .pure (some { path := program, name := name })
      | none => (Traced.warn (missingWarning name p)).bind fun _ => .pure none

/-! ## Searches -/

/-- One step for each place and each configured path. -/
def steps (f : Finder) (probe : Probe) : List (Traced (Option Executable)) :=
  (candidates f.platform.os).map (f.resolve probe) ++
    f.additional.map fun a => f.resolveAdditional probe a.1 a.2

end Finder

/-- Runs steps until `wanted` runtimes have been found. -/
def takeFound (wanted : Nat) : List (Traced (Option Executable)) → Traced (List Executable)
  | [] => .pure []
  | step :: rest =>
    if wanted = 0 then .pure []
    else
      step.bind fun found =>
        match found with
        | some exe => (takeFound (wanted - 1) rest).bind fun exes => .pure (exe :: exes)
        | none => takeFound wanted rest

/-- Runs steps until a runtime passes the test. -/
def findFound (test : Executable → Bool) :
    List (Traced (Option Executable)) → Traced (Option Executable)
  | [] => .pure none
  | step :: rest =>
    step.bind fun found =>
      match found with
      | some exe => if test exe then .pure (some exe) else findFound test rest
      | none => findFound test rest

/-- Runs all steps. -/
def allFound : List (Traced (Option Executable)) → Traced (List Executable)
  | [] => .pure []
  | step :: rest =>
    step.bind fun found => (allFound rest).bind fun exes => .pure (found.toList ++ exes)

namespace Finder

/-- All runtimes, in the order of preference. -/
def all (f : Finder) (probe : Probe) : Traced (List Executable) := allFound (f.steps probe)

/-- The first `n` runtimes. -/
def take (f : Finder) (probe : Probe) (n : Nat) : Traced (List Executable) :=
  takeFound n (f.steps probe)

/-- The first runtime. -/
def first (f : Finder) (probe : Probe) : Traced (Option Executable) :=
  findFound (fun _ => true) (f.steps probe)

/-- The first runtime of a name, in any letter case. -/
def named (f : Finder) (probe : Probe) (name : String) : Traced (Option Executable) :=
  findFound (fun exe => Text.equalIgnoringCase exe.name name) (f.steps probe)

/-- The path of the Windows PowerShell of this process's width, for the path of the one of the
other width; any other path stays. -/
def nativePath (f : Finder) (p : Path) : Path :=
  match f.windowsPowerShell? true, f.windowsPowerShell? false with
  | some alternate, some native =>
    if Text.equalIgnoringCase alternate.path.text p.text then native.path else p
  | _, _ => p

/-- The warning for a runtime that is asked for by a name that none has. -/
def notInstalledWarning (name : String) : String :=
  "PowerShell '" ++ name ++ "' is not installed, falling back to the first available"

/-- The runtime of a name, else the first one; of Windows PowerShell, the one of this process's
width. -/
def choose (f : Finder) (probe : Probe) (name : Option String) : Traced (Option Executable) :=
  let search : Traced (Option Executable) :=
    match name with
    | none => f.first probe
    | some wanted =>
      (f.named probe wanted).bind fun found =>
        match found with
        | some exe => .pure (some exe)
        | none => (Traced.warn (notInstalledWarning wanted)).bind fun _ => f.first probe
  search.bind fun found =>
    .pure (found.map fun exe =>
      let path := f.nativePath exe.path
      if path.alike exe.path then exe else { path := path, name := exe.name })

end Finder

end SessionHost.Discovery
