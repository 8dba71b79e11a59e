import SessionHost.Toml.Moment
import SessionHost.Toml.Text

/-!
# Numbers, truth values and moments

The values that are written without quotes or brackets.

Main definitions:

- `Scalar`: a whole number, a real number, a truth value or a moment of time.
- `Scalar.ofChars?`: the scalar that a run of characters spells.
-/

namespace SessionHost.Toml

/-- A value without quotes or brackets.  Real numbers are kept as they are written. -/
inductive Scalar where
  | integer (value : Int)
  | real (text : String) (inRange : Bool)
  | bool (value : Bool)
  | moment (value : Moment)

/-! ## Numbers -/

/-- The digits of a run in which single underscores may stand between two digits. -/
def plainDigits? (isDigit : Char → Bool) : List Char → Option (List Char)
  | [] => none
  | [c] => if isDigit c then some [c] else none
  | c :: '_' :: rest =>
    if isDigit c then (plainDigits? isDigit rest).map (c :: ·) else none
  | c :: rest => if isDigit c then (plainDigits? isDigit rest).map (c :: ·) else none

/-- Decimal digits without a leading zero. -/
def wholeDigits? (cs : List Char) : Option (List Char) :=
  match plainDigits? Char.isDigit cs with
  | some ('0' :: _ :: _) => none
  | digits => digits

/-- The value of digits in a base. -/
def digitsInBase (base : Nat) (cs : List Char) : Nat :=
  cs.foldl (fun acc c => acc * base + (Text.hexValue? c).getD 0) 0

/-- A sign and the rest. -/
def takeSign : List Char → Bool × List Char
  | '-' :: rest => (true, rest)
  | '+' :: rest => (false, rest)
  | cs => (false, cs)

/-- A digit of a base up to sixteen. -/
def isDigitOf (base : Nat) (c : Char) : Bool :=
  match Text.hexValue? c with
  | some d => d < base
  | none => false

/-- A whole number: decimal with an optional sign, or in base 16, 8 or 2 without one. -/
def integer? (cs : List Char) : Option Int :=
  let inBase (base : Nat) (digits : List Char) : Option Int :=
    (plainDigits? (isDigitOf base) digits).map fun ds => (digitsInBase base ds : Int)
  match cs with
  | '0' :: 'x' :: rest => inBase 16 rest
  | '0' :: 'o' :: rest => inBase 8 rest
  | '0' :: 'b' :: rest => inBase 2 rest
  | _ =>
    let signed := takeSign cs
    (wholeDigits? signed.2).map fun ds =>
      let n : Int := (digitsInBase 10 ds : Int)
      if signed.1 then -n else n

/-- `digits * 10 ^ exponent` rounds to a finite double. -/
def fitsDouble (digits : List Char) (exponent : Int) : Bool :=
  let significant := digits.dropWhile (· == '0')
  let size := (significant.length : Int) + exponent
  if significant.isEmpty || size < 300 then true
  else if 320 < size then false
  else
    let n := digitsInBase 10 significant
    let bound := Nat.pow 2 1024 - Nat.pow 2 970
    if 0 ≤ exponent then decide (n * Nat.pow 10 exponent.toNat < bound)
    else decide (n < bound * Nat.pow 10 (-exponent).toNat)

/-- The exponent that digits spell, cut off where it decides by itself. -/
def exponentOf (negative : Bool) (digits : List Char) : Int :=
  let n : Int := if 9 < (digits.dropWhile (· == '0')).length then 1000000000
    else (digitsInBase 10 digits : Int)
  if negative then -n else n

/-- A real number in digits, and whether it is in the range of doubles. -/
def decimalReal? (cs : List Char) : Option Bool :=
  let body := (takeSign cs).2
  let isMark (c : Char) : Bool := c = 'e' || c = 'E'
  let mantissa := body.takeWhile fun c => !isMark c
  let exponentPart := body.drop mantissa.length
  let whole := mantissa.takeWhile (· ≠ '.')
  let pointed := mantissa.drop whole.length
  let fraction? : Option (List Char) :=
    match pointed with
    | [] => some []
    | _ :: digits => plainDigits? Char.isDigit digits
  let exponent? : Option Int :=
    match exponentPart with
    | [] => some 0
    | _ :: rest =>
      let signed := takeSign rest
      (plainDigits? Char.isDigit signed.2).map (exponentOf signed.1)
  if pointed.isEmpty && exponentPart.isEmpty then none
  else
    match wholeDigits? whole, fraction?, exponent? with
    | some w, some f, some e => some (fitsDouble (w ++ f) (e - f.length))
    | _, _, _ => none

/-- A real number that has a name. -/
def isNamedReal (cs : List Char) : Bool :=
  let body := (takeSign cs).2
  body == "inf".toList || body == "nan".toList

/-! ## Scalars -/

/-- The scalar that all of `cs` spells. -/
def Scalar.ofChars? (cs : List Char) : Option Scalar :=
  if cs = "true".toList then some (.bool true)
  else if cs = "false".toList then some (.bool false)
  else if isNamedReal cs then some (.real (String.ofList cs) true)
  else
    match integer? cs with
    | some i => some (.integer i)
    | none =>
      match decimalReal? cs with
      | some fits => some (.real (String.ofList cs) fits)
      | none => (Moment.ofChars? cs).map .moment

/-- A character that can stand in a scalar. -/
def isScalarChar (c : Char) : Bool :=
  c.isAlphanum || c = '+' || c = '-' || c = '_' || c = '.' || c = ':'

/-- The characters of a scalar: a run, which goes on behind a space between date and time. -/
def takeScalar (cs : List Char) : List Char × List Char :=
  let run := cs.takeWhile isScalarChar
  let rest := cs.drop run.length
  match rest with
  | ' ' :: d :: more =>
    if d.isDigit && (readDate? run).any (fun p => p.2.isEmpty) then
      let time := (d :: more).takeWhile isScalarChar
      (run ++ ' ' :: time, (d :: more).drop time.length)
    else
      (run, rest)
  | _ => (run, rest)

/-- A scalar in front, with the characters that spell it. -/
def readScalar? (cs : List Char) : Reading (Scalar × List Char) :=
  let taken := takeScalar cs
  (Scalar.ofChars? taken.1).map fun s => ((s, taken.1), taken.2)

/-- A scalar that a reader of settings can pass over: whole numbers fit 128 bits, with or
without a sign, and real numbers are in the range of doubles. -/
def Scalar.isReadable : Scalar → Bool
  | .integer i => -(Nat.pow 2 127 : Int) ≤ i && i < (Nat.pow 2 128 : Int)
  | .real _ inRange => inRange
  | _ => true

/-- A scalar that an edited document can hold: whole numbers fit 64 bits with a sign. -/
def Scalar.isEditable : Scalar → Bool
  | .integer i => -(Nat.pow 2 63 : Int) ≤ i && i < (Nat.pow 2 63 : Int)
  | .real _ inRange => inRange
  | _ => true

end SessionHost.Toml
