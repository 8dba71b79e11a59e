import SessionHost.Text.Blank
import SessionHost.Text.Decimal
import SessionHost.Text.Split
import SessionHost.Json.Record

/-!
# Runtime versions

A version is written `major.minor[.build[.revision]][-label]`.  The text may be surrounded by
blanks and begin with the letter v; of the numbers the first three are kept, and whatever
follows them up to the label is not looked at.

Main definitions:

- `RuntimeVersion`, `RuntimeVersion.parse?`, `RuntimeVersion.text`: versions and their texts.
- `Support`, `RuntimeVersion.support`: how far the server supports a version.
- `RuntimeDetails`: what a running server tells about its runtime.
-/

namespace SessionHost

/-- A version of the runtime. -/
structure RuntimeVersion where
  major : Nat
  minor : Nat
  patch : Nat
  label : Option String
deriving DecidableEq

/-- How far the server supports a version. -/
inductive Support where
  /-- Older than 5.1. -/
  | unsupported
  /-- Windows PowerShell 5.1. -/
  | bestEffort
  /-- Versions 6 and 7.0 to 7.3. -/
  | endOfSupport
  | supported
deriving DecidableEq

/-- The name of a level of support. -/
def Support.name : Support → String
  | .unsupported => "Unsupported"
  | .bestEffort => "BestEffort"
  | .endOfSupport => "EndOfSupport"
  | .supported => "Supported"

/-- The letter that may precede a version. -/
def isVersionMark (c : Char) : Bool := c = 'v' || c = 'V'

/-- The version of a text. -/
def RuntimeVersion.parse? (text : String) : Option RuntimeVersion :=
  let trimmed := (Text.trimChars text.toList).dropWhile isVersionMark
  let cut : List Char × Option String :=
    match Text.cutAt? '-' trimmed with
    | some (numbers, label) => (numbers, some (String.ofList label))
    | none => (trimmed, none)
  match Text.splitAt '.' cut.1 with
  | majorText :: minorText :: rest =>
    match Text.readUnsigned? Text.maxUInt32 majorText,
        Text.readUnsigned? Text.maxUInt32 minorText with
    | some major, some minor =>
      match rest with
      | [] => some ⟨major, minor, 0, cut.2⟩
      | patchText :: _ =>
        (Text.readUnsigned? Text.maxUInt32 patchText).map fun patch =>
          ⟨major, minor, patch, cut.2⟩
    | _, _ => none
  | _ => none

/-- The message for a text that is no version. -/
def RuntimeVersion.parseFailure (text : String) : String :=
  "cannot parse PowerShell version '" ++ text ++ "'"

/-- The written form of a version. -/
def RuntimeVersion.text (v : RuntimeVersion) : String :=
  Text.decimal v.major ++ "." ++ Text.decimal v.minor ++ "." ++ Text.decimal v.patch ++
    match v.label with
    | some label => "-" ++ label
    | none => ""

/-- How far the server supports a version. -/
def RuntimeVersion.support (v : RuntimeVersion) : Support :=
  if v.major < 5 then .unsupported
  else if v.major = 5 then (if v.minor = 0 then .unsupported else .bestEffort)
  else if v.major = 6 then .endOfSupport
  else if v.major = 7 ∧ v.minor < 4 then .endOfSupport
  else .supported

/-- The support of the version that a text spells. -/
def Support.ofText? (text : String) : Option Support :=
  (RuntimeVersion.parse? text).map RuntimeVersion.support

/-! ## Details from the server -/

/-- What a running server tells about its runtime. -/
structure RuntimeDetails where
  version : String
  edition : String
  commit : String
  architecture : String
deriving DecidableEq

/-- The names of the details' fields. -/
def RuntimeDetails.fieldNames : List String :=
  ["version", "edition", "commit", "architecture"]

/-- Details from a record whose fields are texts; only the version has to be given. -/
def RuntimeDetails.ofRecord? {α : Type} (text? : α → Option String) (r : Json.Record α) :
    Option RuntimeDetails :=
  match r.fields with
  | [some version, edition, commit, architecture] =>
    let field : Option α → Option String
      | some a => text? a
      | none => some ""
    match text? version, field edition, field commit, field architecture with
    | some v, some e, some c, some a => some ⟨v, e, c, a⟩
    | _, _, _, _ => none
  | _ => none

/-- Details from a JSON text. -/
def RuntimeDetails.ofText? (text : String) : Option RuntimeDetails :=
  ((Json.Node.ofText? text).bind (Json.Node.record? fieldNames)).bind
    (ofRecord? Json.Node.text?)

/-- Details from a JSON value. -/
def RuntimeDetails.ofValue? (v : Json.Value) : Option RuntimeDetails :=
  (v.record? fieldNames).bind (ofRecord? Json.Value.text?)

/-- The details in one line, such as `PowerShell 7.4.1 (Core, X64)`. -/
def RuntimeDetails.display (d : RuntimeDetails) : String :=
  match [d.edition, d.architecture].filter fun s => !s.isEmpty with
  | [] => "PowerShell " ++ d.version
  | parts => "PowerShell " ++ d.version ++ " (" ++ Text.joinWith ", " parts ++ ")"

end SessionHost
