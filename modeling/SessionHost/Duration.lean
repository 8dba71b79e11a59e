import SessionHost.Text.Decimal

/-!
# Durations

Lengths of time in nanoseconds.  A duration holds at most `2 ^ 64 - 1` whole seconds; a sum
beyond that does not exist.

Main definitions:

- `Duration`, `Duration.ofMillis`, `Duration.ofSeconds`: lengths of time.
- `Duration.add?`: the sum, if it can be held.
- `Duration.text`: the shortest exact text in the greatest unit that fits.
-/

namespace SessionHost

/-- A length of time. -/
structure Duration where
  nanos : Nat
deriving DecidableEq

namespace Duration

/-- A number of milliseconds. -/
def ofMillis (n : Nat) : Duration := ⟨n * 1000000⟩

/-- A number of seconds. -/
def ofSeconds (n : Nat) : Duration := ⟨n * 1000000000⟩

/-- The whole milliseconds in a duration. -/
def millis (d : Duration) : Nat := d.nanos / 1000000

/-- The whole seconds in a duration. -/
def seconds (d : Duration) : Nat := d.nanos / 1000000000

/-- A duration that can be held. -/
def inRange (d : Duration) : Bool := d.seconds ≤ Text.maxUInt64

/-- The sum of two durations, if it can be held. -/
def add? (d e : Duration) : Option Duration :=
  let sum : Duration := ⟨d.nanos + e.nanos⟩
  if sum.inRange then some sum else none

/-- A multiple of a duration. -/
def times (d : Duration) (n : Nat) : Duration := ⟨d.nanos * n⟩

/-- A number of units of `10 ^ places` nanoseconds, with the fraction's digits up to the last
one that counts. -/
def inUnit (nanos places : Nat) : String :=
  let unit := Nat.pow 10 places
  let padded := (Nat.toDigits 10 (unit + nanos % unit)).drop 1
  let fraction := (padded.reverse.dropWhile (· == '0')).reverse
  let whole := Text.decimal (nanos / unit)
  if fraction.isEmpty then whole else whole ++ "." ++ String.ofList fraction

/-- The text of a duration, such as `1.5s`, `20ms` or `0ns`. -/
def text (d : Duration) : String :=
  if 1000000000 ≤ d.nanos then inUnit d.nanos 9 ++ "s"
  else if 1000000 ≤ d.nanos then inUnit d.nanos 6 ++ "ms"
  else if 1000 ≤ d.nanos then inUnit d.nanos 3 ++ "µs"
  else inUnit d.nanos 0 ++ "ns"

end Duration

end SessionHost
