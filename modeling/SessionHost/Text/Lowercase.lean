import SessionHost.Text.Casing

/-!
# Lower-casing

Full lower-casing of a text.  Names of runtimes and Windows paths are compared
after it.  Two characters need more than the simple mapping: a capital I with a
dot above becomes two characters, and a capital sigma takes its final form at the
end of a word.

Main definitions:

- `lowerChar`: the simple mapping of one character.
- `lowercase`: the full mapping of a text.
- `asciiLowercase`: the mapping of the twenty-six capital letters only.
-/

namespace SessionHost.Text

/-- The simple lower-case form of a character. -/
def lowerChar (c : Char) : Char :=
  if c.toNat < 0x80 then
    c.toLower
  else
    match lowerRuns.findSome? fun run => run.lower? c.toNat with
    | some n => Char.ofNat n
    | none => c

/-- Past the characters that casing ignores there stands a cased one. -/
def reachesCased (cs : List Char) : Bool :=
  match cs.dropWhile isCaseIgnorable with
  | c :: _ => isCased c
  | [] => false

/-- The lower-case form of a capital sigma between the characters `before`, nearest
first, and `after`: final when it ends a word. -/
def lowerSigma (before after : List Char) : Char :=
  if reachesCased before && !reachesCased after then 'ς' else 'σ'

/-- Lower-cases `cs`, which stands after the characters `before`, nearest first. -/
def lowerAfter (before : List Char) : List Char → List Char
  | [] => []
  | c :: rest =>
    let lowered :=
      if c = 'Σ' then [lowerSigma before rest]
      else if c = 'İ' then ['i', '\u0307']
      else [lowerChar c]
    lowered ++ lowerAfter (c :: before) rest

/-- The lower-case form of a text. -/
def lowercase (s : String) : String :=
  String.ofList (lowerAfter [] s.toList)

/-- Equality up to letter case. -/
def equalIgnoringCase (s t : String) : Bool :=
  lowercase s == lowercase t

/-- The text with its capital letters A to Z made small. -/
def asciiLowercase (s : String) : String :=
  String.ofList (s.toList.map Char.toLower)

end SessionHost.Text
