/-!
# Decimal numbers of bounded size

Unsigned decimal numbers as they are read from version texts, folder names and
message headers, and written into messages.

Main definitions:

- `digitsValue?`: the value of a non-empty list of ASCII digits.
- `readUnsigned?`: the same after an optional plus sign, within a bound.
-/

namespace SessionHost.Text

/-- The value of an ASCII digit. -/
def digitValue? (c : Char) : Option Nat :=
  if c.isDigit then some (c.toNat - '0'.toNat) else none

/-- Reads the digits `cs` behind digits of value `acc`. -/
def digitsAfter? (acc : Nat) : List Char → Option Nat
  | [] => some acc
  | c :: rest => (digitValue? c).bind fun d => digitsAfter? (acc * 10 + d) rest

/-- The value of a non-empty list of ASCII digits. -/
def digitsValue? : List Char → Option Nat
  | [] => none
  | cs => digitsAfter? 0 cs

/-- The characters behind a leading plus sign, if there is one. -/
def dropPlus : List Char → List Char
  | '+' :: rest => rest
  | cs => cs

/-- Reads decimal digits, with a leading `+` tolerated, whose value is at most `bound`. -/
def readUnsigned? (bound : Nat) (cs : List Char) : Option Nat :=
  (digitsValue? (dropPlus cs)).filter (· ≤ bound)

/-- The greatest number of 16 bits. -/
def maxUInt16 : Nat := 65535

/-- The greatest number of 32 bits. -/
def maxUInt32 : Nat := 4294967295

/-- The greatest number of 64 bits. -/
def maxUInt64 : Nat := 18446744073709551615

/-- Decimal digits of a number. -/
def decimal (n : Nat) : String :=
  String.ofList (Nat.toDigits 10 n)

/-- Decimal digits of an integer, behind a minus sign when it is negative. -/
def signedDecimal (i : Int) : String :=
  if i < 0 then "-" ++ decimal i.natAbs else decimal i.natAbs

/-- A hexadecimal digit's value, in either letter case. -/
def hexValue? (c : Char) : Option Nat :=
  if c.isDigit then some (c.toNat - '0'.toNat)
  else if 'a' ≤ c ∧ c ≤ 'f' then some (c.toNat - 'a'.toNat + 10)
  else if 'A' ≤ c ∧ c ≤ 'F' then some (c.toNat - 'A'.toNat + 10)
  else none

/-- Exactly `width` lower-case hexadecimal digits of `n`. -/
def hexDigits (width n : Nat) : List Char :=
  match width with
  | 0 => []
  | w + 1 => hexDigits w (n / 16) ++ [Nat.digitChar (n % 16)]

end SessionHost.Text
