import Reckon.Text.Bytes

/-!
# Timestamps

A timestamp is a date, or a date and a time of day. After a letter `T` the time has
a zone, after spaces it has none. Years have four digits; all other numbers have
one or two. A fraction of a second may follow the seconds.
-/

namespace Reckon

namespace Timestamp

/-- A number of one or two digits, and what follows it. -/
def number? : Bytes → Option (Nat × Bytes)
  | a :: b :: rest =>
    if !Bytes.isDigit a then none
    else if Bytes.isDigit b then some (Bytes.readDigits [a, b], rest)
    else some (Bytes.readDigits [a], b :: rest)
  | [a] => if Bytes.isDigit a then some (Bytes.readDigits [a], []) else none
  | [] => none

/-- What follows a byte. -/
def expect? (b : UInt8) : Bytes → Option Bytes
  | [] => none
  | c :: rest => if c = b then some rest else none

/-! ## Dates -/

/-- Whether a year has a leap day. -/
def isLeap (year : Nat) : Bool := year % 4 == 0 && (year % 100 != 0 || year % 400 == 0)

/-- The number of days in a month. -/
def daysIn (year month : Nat) : Nat :=
  if month == 2 then if isLeap year then 29 else 28
  else if month == 4 || month == 6 || month == 9 || month == 11 then 30
  else 31

/-- What follows a date. -/
def date? (text : Bytes) : Option Bytes := do
  let year := text.takeWhile Bytes.isDigit
  if year.length ≠ 4 then none
  let rest ← expect? Ascii.minus (text.dropWhile Bytes.isDigit)
  let (month, rest) ← number? rest
  let rest ← expect? Ascii.minus rest
  let (day, rest) ← number? rest
  if 1 ≤ month ∧ month ≤ 12 ∧ 1 ≤ day ∧ day ≤ daysIn (Bytes.readDigits year) month then some rest
  else none

/-! ## Times of day -/

/-- A number below a bound, and what follows it. -/
def below? (bound : Nat) (text : Bytes) : Option Bytes := do
  let (n, rest) ← number? text
  if n < bound then some rest else none

/-- What follows a fraction of a second, if there is one. -/
def afterFraction (text : Bytes) : Bytes :=
  match text with
  | mark :: digit :: rest =>
    if (mark = Ascii.point ∨ mark = Ascii.comma) ∧ Bytes.isDigit digit = true then
      rest.dropWhile Bytes.isDigit
    else text
  | _ => text

/-- What follows a time of day. -/
def time? (text : Bytes) : Option Bytes := do
  let rest ← below? 24 text
  let rest ← below? 60 (← expect? Ascii.colon rest)
  let rest ← below? 60 (← expect? Ascii.colon rest)
  return afterFraction rest

/-- Whether a text is a zone: the letter `Z`, or an offset in hours and minutes. -/
def isZone (text : Bytes) : Bool :=
  match text with
  | [b] => b == Ascii.capitalZ
  | [sign, a, b, colon, c, d] =>
    (sign == Ascii.plus || sign == Ascii.minus) && colon == Ascii.colon
      && [a, b, c, d].all Bytes.isDigit
      && Bytes.readDigits [a, b] ≤ 24 && Bytes.readDigits [c, d] ≤ 60
  | _ => false

/-- Whether what follows a date makes it a timestamp. -/
def isClock : Bytes → Bool
  | [] => true
  | b :: rest =>
    if b == Ascii.capitalT || b == Ascii.smallT then (time? rest).any isZone
    else b == Ascii.space && time? (rest.dropWhile (· == Ascii.space)) == some []

end Timestamp

/-- Whether a text is a timestamp. -/
def isTimestamp (text : Bytes) : Bool := (Timestamp.date? text).any Timestamp.isClock

end Reckon
