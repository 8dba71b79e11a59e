import SessionHost.Toml.Inline

/-!
# Statements

A document is a sequence of statements: blank lines and comments, table headers, and keys with
their values.  Each of them ends with its line.

Main definitions:

- `Statement`, `readStatement?`: statements, and the statement in front of a text.
- `statements?`: all statements of a document.
-/

namespace SessionHost.Toml

/-- A statement.  Texts that surround its parts are kept. -/
inductive Statement where
  /-- A blank line or a comment. -/
  | blank (text : List Char)
  /-- A table header, doubled for an element of an array of tables. -/
  | header (doubled : Bool) (before : List Char) (path : List KeyPart) (after : List Char)
  /-- A key with its value; `text` is what is written behind the `=` up to the line end. -/
  | member (path : List KeyPart) (text : List Char) (value : Value)

/-- A header behind the space in front of it and its first bracket. -/
def readHeader? (before cs : List Char) : Reading Statement :=
  let doubled : Bool := cs.head? = some '['
  let inner := if doubled then cs.drop 1 else cs
  match readKeyPath? inner with
  | some (path, ']' :: rest) =>
    let behind : Option (List Char) :=
      if doubled then
        match rest with
        | ']' :: rest => some rest
        | _ => none
      else some rest
    (behind.bind readLineEnd?).map fun p => (.header doubled before path p.1, p.2)
  | _ => none

/-- A key with its value. -/
def readMember? (cs : List Char) : Reading Statement :=
  match readKeyPath? cs with
  | some (path, '=' :: rest) =>
    let blank := takeBlank rest
    match readValue? blank.2 with
    | some (v, behind) =>
      (readLineEnd? behind).map fun p => (.member path (blank.1 ++ v.text ++ p.1) v.value, p.2)
    | none => none
  | _ => none

/-- The statement in front of a text that is not empty. -/
def readStatement? (cs : List Char) : Reading Statement :=
  let blank := takeBlank cs
  match blank.2 with
  | '[' :: rest => readHeader? blank.1 rest
  | start =>
    if start.isEmpty || start.head? = some '#' || (dropLineEnd? start).isSome then
      (readLineEnd? cs).map fun p => (.blank (cs.take (cs.length - p.2.length)), p.2)
    else
      readMember? cs

/-- The statements of a text; the fuel is at least the number of characters. -/
def readStatements? (cs : List Char) : Nat → Option (List Statement)
  | 0 => if cs.isEmpty then some [] else none
  | fuel + 1 =>
    match cs with
    | [] => some []
    | _ :: _ =>
      match readStatement? cs with
      | some (s, rest) => (readStatements? rest fuel).map fun ss => s :: ss
      | none => none

/-- The document without the mark that may stand in front of it. -/
def dropByteOrderMark : List Char → List Char
  | '\uFEFF' :: rest => rest
  | cs => cs

/-- The statements of a document. -/
def statements? (text : String) : Option (List Statement) :=
  let cs := dropByteOrderMark text.toList
  readStatements? cs cs.length

end SessionHost.Toml
