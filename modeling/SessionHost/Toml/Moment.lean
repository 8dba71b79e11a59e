import SessionHost.Text.Decimal

/-!
# Moments of time

A moment is a date, a time of day, or both, and with both it may say how far its clock is from
universal time.  Seconds may be missing, and of their fraction nine digits are kept.

Main definitions:

- `Date`, `TimeOfDay`, `Offset`, `Moment`: the parts, and what they make up.
- `Moment.ofChars?`: the moment that a run of characters spells.
- `Moment.text`: its text, the same for all spellings.
-/

namespace SessionHost.Toml

/-- What a reader gives: a result and the characters behind it. -/
abbrev Reading (α : Type) := Option (α × List Char)

/-- A day. -/
structure Date where
  year : Nat
  month : Nat
  day : Nat
deriving DecidableEq

/-- A time of day.  A fraction, in nanoseconds, belongs to seconds only. -/
structure TimeOfDay where
  hour : Nat
  minute : Nat
  second : Option Nat
  fraction : Option Nat
deriving DecidableEq

/-- The distance of a clock from universal time. -/
inductive Offset where
  | universal
  | minutes (value : Int)
deriving DecidableEq

/-- A date, a time of day, or both; an offset belongs to both only. -/
structure Moment where
  date : Option Date
  time : Option TimeOfDay
  offset : Option Offset
deriving DecidableEq

/-! ## Reading -/

/-- A number of exactly `width` digits. -/
def fixedNumber? (width : Nat) (cs : List Char) : Reading Nat :=
  if (cs.take width).length = width then
    (Text.digitsValue? (cs.take width)).map fun n => (n, cs.drop width)
  else
    none

/-- Leap years have a 29th of February. -/
def isLeapYear (year : Nat) : Bool :=
  (year % 4 == 0 && year % 100 != 0) || year % 400 == 0

/-- The number of days in a month. -/
def daysInMonth (year month : Nat) : Nat :=
  if month = 2 then (if isLeapYear year then 29 else 28)
  else if month = 4 ∨ month = 6 ∨ month = 9 ∨ month = 11 then 30
  else 31

/-- A date, and what follows it. -/
def readDate? (cs : List Char) : Reading Date :=
  match fixedNumber? 4 cs with
  | some (year, '-' :: rest) =>
    match fixedNumber? 2 rest with
    | some (month, '-' :: rest) =>
      match fixedNumber? 2 rest with
      | some (day, rest) =>
        if 1 ≤ month ∧ month ≤ 12 ∧ 1 ≤ day ∧ day ≤ daysInMonth year month then
          some (⟨year, month, day⟩, rest)
        else
          none
      | none => none
    | _ => none
  | _ => none

/-- Hours and minutes within their bounds. -/
def readClock? (cs : List Char) : Reading (Nat × Nat) :=
  match fixedNumber? 2 cs with
  | some (hour, ':' :: rest) =>
    match fixedNumber? 2 rest with
    | some (minute, rest) =>
      if hour ≤ 23 ∧ minute ≤ 59 then some ((hour, minute), rest) else none
    | none => none
  | _ => none

/-- The nanoseconds that the digits of a fraction spell. -/
def nanosOf (digits : List Char) : Nat :=
  (Text.digitsValue? ((digits ++ List.replicate 9 '0').take 9)).getD 0

/-- The fraction behind the seconds, if there is one. -/
def readFraction? (cs : List Char) : Reading (Option Nat) :=
  match cs with
  | '.' :: rest =>
    let digits := rest.takeWhile Char.isDigit
    if digits.isEmpty then none else some (some (nanosOf digits), rest.drop digits.length)
  | _ => some (none, cs)

/-- A time of day, with or without seconds and their fraction. -/
def readTime? (cs : List Char) : Reading TimeOfDay :=
  match readClock? cs with
  | some ((hour, minute), ':' :: rest) =>
    match fixedNumber? 2 rest with
    | some (second, rest) =>
      if second ≤ 60 then
        (readFraction? rest).map fun p => (⟨hour, minute, some second, p.1⟩, p.2)
      else
        none
    | none => none
  | some ((hour, minute), rest) => some (⟨hour, minute, none, none⟩, rest)
  | none => none

/-- The distance from universal time that all of `cs` spells. -/
def Offset.ofChars? (cs : List Char) : Option Offset :=
  let minutes (sign : Int) (rest : List Char) : Option Offset :=
    match readClock? rest with
    | some ((hour, minute), []) => some (.minutes (sign * (hour * 60 + minute : Nat)))
    | _ => none
  match cs with
  | ['Z'] => some .universal
  | ['z'] => some .universal
  | '+' :: rest => minutes 1 rest
  | '-' :: rest => minutes (-1) rest
  | _ => none

/-- The moment that all of `cs` spells. -/
def Moment.ofChars? (cs : List Char) : Option Moment :=
  match readDate? cs with
  | some (date, []) => some ⟨some date, none, none⟩
  | some (date, c :: rest) =>
    if c = 'T' ∨ c = 't' ∨ c = ' ' then
      match readTime? rest with
      | some (time, []) => some ⟨some date, some time, none⟩
      | some (time, offset) =>
        (Offset.ofChars? offset).map fun o => ⟨some date, some time, some o⟩
      | none => none
    else
      none
  | none =>
    match readTime? cs with
    | some (time, []) => some ⟨none, some time, none⟩
    | _ => none

/-! ## Writing -/

/-- A number with leading zeros up to a width. -/
def padded (width n : Nat) : String :=
  let digits := (Text.decimal n).toList
  String.ofList (List.replicate (width - digits.length) '0' ++ digits)

/-- The digits of a fraction without the zeros at its end; at least one digit. -/
def fractionText (nanos : Nat) : String :=
  let digits := (((padded 9 nanos).toList.reverse).dropWhile (· = '0')).reverse
  if digits.isEmpty then "0" else String.ofList digits

/-- The text of a date. -/
def Date.text (d : Date) : String :=
  padded 4 d.year ++ "-" ++ padded 2 d.month ++ "-" ++ padded 2 d.day

/-- The text of a time of day. -/
def TimeOfDay.text (t : TimeOfDay) : String :=
  padded 2 t.hour ++ ":" ++ padded 2 t.minute ++
  (match t.second with
    | some second => ":" ++ padded 2 second
    | none => "") ++
  (match t.fraction with
    | some nanos => "." ++ fractionText nanos
    | none => "")

/-- The text of an offset. -/
def Offset.text : Offset → String
  | .universal => "Z"
  | .minutes value =>
    let n := value.natAbs
    (if value < 0 then "-" else "+") ++ padded 2 (n / 60) ++ ":" ++ padded 2 (n % 60)

/-- The text of a moment. -/
def Moment.text (m : Moment) : String :=
  (match m.date, m.time with
    | some d, some t => d.text ++ "T" ++ t.text
    | some d, none => d.text
    | none, some t => t.text
    | none, none => "") ++
  (match m.offset with
    | some o => o.text
    | none => "")

end SessionHost.Toml
