/-!
# Cutting texts

Cuts at single characters and at fixed beginnings and endings.

Main definitions:

- `cutAt?`: the parts before and behind the first occurrence of a character.
- `startsWith`, `endsWith`: tests on the characters of a text.
- `replaceChar`: every occurrence of a character written as a text.
-/

namespace SessionHost.Text

/-- The characters before and behind the first `sep`; `none` if there is no `sep`. -/
def cutAt? (sep : Char) : List Char → Option (List Char × List Char)
  | [] => none
  | c :: rest =>
    if c = sep then some ([], rest)
    else (cutAt? sep rest).map fun p => (c :: p.1, p.2)

/-- The parts between the occurrences of `sep`; at least one. -/
def splitAt (sep : Char) : List Char → List (List Char)
  | [] => [[]]
  | c :: rest =>
    if c = sep then [] :: splitAt sep rest
    else
      match splitAt sep rest with
      | part :: parts => (c :: part) :: parts
      | [] => [[c]]

/-- The text begins with the characters of `start`. -/
def startsWith (s start : String) : Bool :=
  start.toList.isPrefixOf s.toList

/-- The text ends with the characters of `ending`. -/
def endsWith (s ending : String) : Bool :=
  ending.toList.isSuffixOf s.toList

/-- Each occurrence of `old` written as `new`. -/
def replaceChar (old : Char) (new : String) (s : String) : String :=
  String.ofList (s.toList.flatMap fun c => if c = old then new.toList else [c])

/-- Texts put one behind the other with `sep` between them. -/
def joinWith (sep : String) : List String → String
  | [] => ""
  | [s] => s
  | s :: rest => s ++ sep ++ joinWith sep rest

end SessionHost.Text
