import ZodSchemas.Decimal.Numeral

/-!
# Dates and moments

Dates of the Gregorian calendar from year 1 to 9999, extended to the past
without a gap. A moment is a date, a time of day to the microsecond and, when
it is known, the offset of local time from universal time. Two moments with an
offset are the same when they name one instant; without an offset they are the
same when they read the same.
-/

namespace ZodSchemas

/-- A year, a month and a day. -/
structure Date where
  /-- The year. -/
  year : Nat
  /-- The month, from 1. -/
  month : Nat
  /-- The day of the month, from 1. -/
  day : Nat
deriving DecidableEq

namespace Date

/-- Years with a 29th of February. -/
def isLeapYear (year : Nat) : Bool :=
  year % 4 = 0 && (year % 100 != 0 || year % 400 = 0)

/-- The number of days of a month. -/
def daysInMonth (year month : Nat) : Nat :=
  if month = 2 then (if isLeapYear year then 29 else 28)
  else if month = 4 ∨ month = 6 ∨ month = 9 ∨ month = 11 then 30
  else 31

/-- A day of the calendar. -/
def isReal (d : Date) : Bool :=
  1 ≤ d.year && d.year ≤ 9999 && 1 ≤ d.month && d.month ≤ 12 &&
    1 ≤ d.day && d.day ≤ daysInMonth d.year d.month

/-- The written form: four, two and two digits with hyphens between them. -/
def text (d : Date) : Text :=
  Numeral.padded 4 d.year ++ "-" ++ Numeral.padded 2 d.month ++ "-" ++ Numeral.padded 2 d.day

/-- Read the written form of a day of the calendar; nothing may stand around it. -/
def ofText? : Text → Option Date
  | [y₁, y₂, y₃, y₄, h₁, m₁, m₂, h₂, d₁, d₂] =>
    if h₁ = ('-' : CodePoint) ∧ h₂ = ('-' : CodePoint) then
      match Numeral.decimal? [y₁, y₂, y₃, y₄], Numeral.decimal? [m₁, m₂],
        Numeral.decimal? [d₁, d₂] with
      | some year, some month, some day =>
        let d : Date := ⟨year, month, day⟩
        if d.isReal then some d else none
      | _, _, _ => none
    else none
  | _ => none

/-- Days since the day before the first of January of year 1. -/
def dayNumber (d : Date) : Nat :=
  let y := d.year - 1
  y * 365 + y / 4 - y / 100 + y / 400 +
    (List.range (d.month - 1)).foldl (fun days m => days + daysInMonth d.year (m + 1)) 0 + d.day

end Date

/-- A date with a time of day. -/
structure Moment where
  /-- The date. -/
  date : Date
  /-- Hours since midnight. -/
  hour : Nat
  /-- Minutes since the hour. -/
  minute : Nat
  /-- Seconds since the minute. -/
  second : Nat
  /-- Microseconds since the second. -/
  microsecond : Nat
  /-- Minutes by which local time is ahead of universal time, when known. -/
  offset : Option Int
deriving DecidableEq

namespace Moment

/-- A time of a day of the calendar, less than a day away from universal time. -/
def isReal (m : Moment) : Bool :=
  m.date.isReal && m.hour < 24 && m.minute < 60 && m.second < 60 &&
    (match m.offset with
      | some offset => offset.natAbs < 24 * 60
      | none => true)

/-- Microseconds of local time. -/
def localTime (m : Moment) : Int :=
  (((m.date.dayNumber * 24 + m.hour) * 60 + m.minute) * 60 + m.second) * 1000000 + m.microsecond

/-- Microseconds of universal time. -/
def instant (m : Moment) : Int := m.localTime - m.offset.getD 0 * 60000000

/-- An offset as a sign, hours and minutes. -/
def offsetText (offset : Int) : Text :=
  (if offset < 0 then ("-" : Text) else "+") ++ Numeral.padded 2 (offset.natAbs / 60) ++ ":" ++
    Numeral.padded 2 (offset.natAbs % 60)

/-- Date and time with a separator between them; microseconds only when there are some. -/
def text (separator : Text) (m : Moment) : Text :=
  m.date.text ++ separator ++ Numeral.padded 2 m.hour ++ ":" ++ Numeral.padded 2 m.minute ++ ":" ++
    Numeral.padded 2 m.second ++
    (if m.microsecond = 0 then [] else ("." : Text) ++ Numeral.padded 6 m.microsecond) ++
    (match m.offset with
      | some offset => offsetText offset
      | none => [])

end Moment

end ZodSchemas
