import SessionHost.Json.Real

/-!
# JSON numbers

A numeral is the text of a number, cut into its parts.  Its value is a whole number
when it is written without fraction and exponent and fits 64 bits, and a double
otherwise.  The double is the product of a 64-bit significand and a power of ten, each
rounded on its own, and digits beyond the significand's range only shift it; so the
last bit may differ from the nearest double.  A value too large for a double does not
exist.

Main definitions:

- `Numeral`, `Numeral.ofChars?`: the grammar of RFC 8259.
- `Number`: what a reader keeps.
- `Numeral.value?`: the value of a numeral.
-/

namespace SessionHost.Json

/-- The exponent part of a numeral. -/
structure ExponentPart where
  negative : Bool
  digits : List Nat

/-- The text of a number: sign, digits before and behind the point, exponent. -/
structure Numeral where
  negative : Bool
  whole : List Nat
  fraction : List Nat
  exponent : Option ExponentPart

/-- A number as it is kept: whole, or the bits of a double. -/
inductive Number where
  | int (value : Int)
  | real (bits : UInt64)
deriving DecidableEq

/-! ## Grammar -/

/-- Splits off the leading digits. -/
def takeDigits : List Char → List Nat × List Char
  | [] => ([], [])
  | c :: rest =>
    match Text.digitValue? c with
    | some d =>
      let r := takeDigits rest
      (d :: r.1, r.2)
    | none => ([], c :: rest)

/-- Reads what may follow an `e`: a sign and at least one digit, to the end. -/
def readExponent? (cs : List Char) : Option ExponentPart :=
  let signed : Bool × List Char :=
    match cs with
    | '-' :: rest => (true, rest)
    | '+' :: rest => (false, rest)
    | _ => (false, cs)
  match takeDigits signed.2 with
  | ([], _) => none
  | (digits, []) => some ⟨signed.1, digits⟩
  | (_, _ :: _) => none

/-- Reads the optional exponent behind the digits of a numeral. -/
def readTail? (negative : Bool) (whole fraction : List Nat) : List Char → Option Numeral
  | [] => some ⟨negative, whole, fraction, none⟩
  | c :: rest =>
    if c = 'e' ∨ c = 'E' then
      (readExponent? rest).map fun e => ⟨negative, whole, fraction, some e⟩
    else
      none

/-- A numeral from all of `cs`: no leading zeros, and digits on both sides of a point. -/
def Numeral.ofChars? (cs : List Char) : Option Numeral :=
  let signed : Bool × List Char :=
    match cs with
    | '-' :: rest => (true, rest)
    | _ => (false, cs)
  match takeDigits signed.2 with
  | ([], _) => none
  | (0 :: _ :: _, _) => none
  | (whole, '.' :: rest) =>
    match takeDigits rest with
    | ([], _) => none
    | (fraction, rest) => readTail? signed.1 whole fraction rest
  | (whole, rest) => readTail? signed.1 whole [] rest

/-! ## Value -/

/-- Appends digits to a significand as long as it fits 64 bits; the digits left over. -/
def fillSignificand (significand : Nat) : List Nat → Nat × List Nat
  | [] => (significand, [])
  | d :: rest =>
    let next := significand * 10 + d
    if next ≤ Text.maxUInt64 then fillSignificand next rest else (significand, d :: rest)

/-- The value of an exponent's digits, or `none` beyond 31 bits. -/
def exponentValue? (digits : List Nat) : Option Nat :=
  (digits.foldl (fun acc d => acc * 10 + d) 0 : Nat) |> fun n =>
    if n ≤ 2147483647 then some n else none

/-- The double nearest to `10 ^ k`. -/
def powerOfTen (k : Nat) : Float :=
  Float.ofScientific 1 false k

/-- Repeated division by `1e308` for exponents below the range of a double. -/
def descend (f : Float) (exponent : Int) : Nat → Float × Int
  | 0 => (f, exponent)
  | steps + 1 =>
    if -308 ≤ exponent ∨ f == 0.0 then (f, exponent)
    else descend (f / powerOfTen 308) (exponent + 308) steps

/-- `significand * 10 ^ exponent` as a double, or `none` when it is too large. -/
def scaled? (significand : Nat) (exponent : Int) : Option Float :=
  let f := significand.toUInt64.toFloat
  if 308 < exponent then
    if f == 0.0 then some f else none
  else if 0 ≤ exponent then
    let g := f * powerOfTen exponent.toNat
    if g.isInf then none else some g
  else
    let r := descend f exponent 3
    if r.1 == 0.0 then some r.1
    else some (r.1 / powerOfTen (-r.2).toNat)

/-- A double with the sign of its numeral. -/
def signedReal (negative : Bool) (f : Float) : Number :=
  .real (if negative then (-f).toBits else f.toBits)

/-- The value of a numeral, or `none` when it is out of a double's range. -/
def Numeral.value? (n : Numeral) : Option Number :=
  let whole := fillSignificand 0 n.whole
  if n.fraction.isEmpty ∧ n.exponent.isNone ∧ whole.2.isEmpty then
    if !n.negative then some (.int whole.1)
    else if whole.1 = 0 ∨ Nat.pow 2 63 < whole.1 then
      some (signedReal true whole.1.toUInt64.toFloat)
    else some (.int (-(whole.1 : Int)))
  else
    let all := fillSignificand whole.1 n.fraction
    let shift : Int := (whole.2.length : Int) - ((n.fraction.length : Int) - all.2.length)
    match n.exponent with
    | none => (scaled? all.1 shift).map (signedReal n.negative)
    | some e =>
      match exponentValue? e.digits with
      | some k =>
        (scaled? all.1 (if e.negative then shift - k else shift + k)).map (signedReal n.negative)
      | none =>
        if all.1 = 0 ∨ e.negative then some (signedReal n.negative 0.0) else none

/-- The written form of a number. -/
def Number.text : Number → String
  | .int i => Text.signedDecimal i
  | .real bits => realText bits

end SessionHost.Json
