import SessionHost.Text.Decimal

/-!
# Decimal texts of binary fractions

A finite double is written with the fewest significant digits that read back to it,
and among those with the digits nearest to it.  The search is exact arithmetic on
natural numbers: the doubles' neighbours bound an interval of reals, and the grids
of one, two, … seventeen digits are tried in turn.

Main definitions:

- `Magnitude`: a positive finite double as significand times a power of two.
- `Magnitude.shortest`: its shortest digits and their decimal exponent.
- `realText`: the written form, positional between `1e-5` and `1e16`.
-/

namespace SessionHost.Json

/-- The number `significand * 2 ^ (exponent - 1075)`, as a double stores it. -/
structure Magnitude where
  significand : Nat
  exponent : Nat

/-- The magnitude of a finite double, from its bits. -/
def Magnitude.ofBits (bits : UInt64) : Magnitude :=
  let fraction := bits.toNat % Nat.pow 2 52
  let field := bits.toNat / Nat.pow 2 52 % Nat.pow 2 11
  if field = 0 then ⟨fraction, 1⟩ else ⟨Nat.pow 2 52 + fraction, field⟩

/-- A real interval around a value, all three over one denominator. -/
structure Interval where
  low : Nat
  value : Nat
  high : Nat
  denominator : Nat
  closed : Bool

/-- The reals that round to a magnitude.  The step below a power of two is half as wide. -/
def Magnitude.interval (x : Magnitude) : Interval :=
  let scale := Nat.pow 2 x.exponent
  let below := if x.significand = Nat.pow 2 52 ∧ 1 < x.exponent then 1 else 2
  { low := (4 * x.significand - below) * scale
    value := 4 * x.significand * scale
    high := (4 * x.significand + 2) * scale
    denominator := Nat.pow 2 1077
    closed := x.significand % 2 = 0 }

/-- The interval in units of `10 ^ k`. -/
def Interval.inUnits (i : Interval) (k : Int) : Interval :=
  if 0 ≤ k then
    { i with denominator := i.denominator * Nat.pow 10 k.toNat }
  else
    let f := Nat.pow 10 (-k).toNat
    { i with low := i.low * f, value := i.value * f, high := i.high * f }

/-- A whole number of units lies in the interval. -/
def Interval.holds (i : Interval) (n : Nat) : Bool :=
  let p := n * i.denominator
  if i.closed then i.low ≤ p && p ≤ i.high else i.low < p && p < i.high

/-- The whole number nearest to the value among its two neighbours inside the interval; a tie
goes to the even one. -/
def Interval.nearest? (i : Interval) : Option Nat :=
  let n := i.value / i.denominator
  let r := i.value % i.denominator
  match i.holds n, i.holds (n + 1) with
  | false, false => none
  | true, false => some n
  | false, true => some (n + 1)
  | true, true =>
    if 2 * r < i.denominator || (2 * r == i.denominator && n % 2 == 0) then some n
    else some (n + 1)

/-- The number of decimal digits of a natural number. -/
def digitCount (n : Nat) : Nat := (Nat.toDigits 10 n).length

/-- The exponent of the value's leading decimal digit. -/
def Interval.leadingExponent (i : Interval) : Int :=
  if i.denominator ≤ i.value then
    (digitCount (i.value / i.denominator) : Int) - 1
  else
    -(digitCount ((i.denominator - 1) / i.value) : Int)

/-- The nearest grid point with at most `most` significant digits, tried from
`most - left` digits on. -/
def Interval.search (i : Interval) (most : Nat) : Nat → Nat × Int
  | 0 =>
    let k := i.leadingExponent + 1 - most
    let u := i.inUnits k
    (u.nearest?.getD (u.value / u.denominator), k)
  | left + 1 =>
    let k := i.leadingExponent + 1 - ((most - (left + 1) : Nat) : Int)
    match (i.inUnits k).nearest? with
    | some n => (n, k)
    | none => i.search most left

/-- Digits without trailing zeros, and the exponent that keeps the value. -/
def stripZeros (digits : List Char) (k : Int) : List Char × Int :=
  let zeros := (digits.reverse.takeWhile (· == '0')).length
  (digits.take (digits.length - zeros), k + zeros)

/-- The shortest digits of a magnitude and the decimal exponent of the last one. -/
def Magnitude.shortest (x : Magnitude) : List Char × Int :=
  let found := x.interval.search 17 16
  stripZeros (Nat.toDigits 10 found.1) found.2

/-- The layout of digits whose last one has decimal exponent `k`: positional up to sixteen
places before the point and five behind it, scientific beyond. -/
def layOut (digits : List Char) (k : Int) : String :=
  let point := (digits.length : Int) + k
  if 0 ≤ k ∧ point ≤ 16 then
    String.ofList (digits ++ List.replicate k.toNat '0') ++ ".0"
  else if 0 < point ∧ point ≤ 16 then
    String.ofList (digits.take point.toNat ++ '.' :: digits.drop point.toNat)
  else if -5 < point ∧ point ≤ 0 then
    String.ofList ('0' :: '.' :: List.replicate (-point).toNat '0' ++ digits)
  else
    let exponent := "e" ++ Text.signedDecimal (point - 1)
    match digits with
    | [d] => String.ofList [d] ++ exponent
    | d :: rest => String.ofList (d :: '.' :: rest) ++ exponent
    | [] => "0.0"

/-- The text of a finite double. -/
def realText (bits : UInt64) : String :=
  let x := Magnitude.ofBits bits
  let body :=
    if x.significand = 0 then "0.0"
    else
      let s := x.shortest
      layOut s.1 s.2
  if Nat.pow 2 63 ≤ bits.toNat then "-" ++ body else body

end SessionHost.Json
