import ZodSchemas.Text.Digit
import ZodSchemas.Text.Utf8
import ZodSchemas.Value.Calendar

/-!
# Texts that are dates

A text is a date when it passes two tests. The first asks for its shape: four,
two and two digits with hyphens between them, where digits of any script count
and a line feed may end the text. The second reads it in one of the forms of
ISO 8601: a day of a month or of a week, with or without hyphens. It asks for
the length of such a form, counted in octets, and does not look at what stands
behind the date.
-/

namespace ZodSchemas

namespace Date

/-! ### The shape -/

/-- What follows exactly some digits of any script. -/
def behindDigits? (width : Nat) (t : Text) : Option Text :=
  let digits := t.take width
  if digits.length = width ∧ digits.all (fun c => (Digit.value? c).isSome) then some (t.drop width)
  else none

/-- What follows the shape of a date. -/
def behindShape? (t : Text) : Option Text := do
  let rest ← behindDigits? 4 t
  let rest ← behindDigits? 2 (← rest.behind? '-')
  behindDigits? 2 (← rest.behind? '-')

/-- The shape of a date, behind which there may be the end of a line. -/
def hasShape (t : Text) : Bool :=
  match behindShape? t with
  | some rest => rest = [] || rest = ("\n" : Text)
  | none => false

/-! ### Weeks -/

/-- The day after. -/
def next (d : Date) : Date :=
  if d.day < daysInMonth d.year d.month then ⟨d.year, d.month, d.day + 1⟩
  else if d.month < 12 then ⟨d.year, d.month + 1, 1⟩
  else ⟨d.year + 1, 1, 1⟩

/-- The day of the week, from Monday as 0. -/
def weekday (d : Date) : Nat := (d.dayNumber + 6) % 7

/-- The day of the week of the first of January. -/
def firstWeekday (year : Nat) : Nat := weekday ⟨year, 1, 1⟩

/-- The Monday that the weeks of a year begin with; the first Thursday is in the first week. -/
def firstMonday (year : Nat) : Date :=
  let first := firstWeekday year
  if first = 0 then ⟨year, 1, 1⟩
  else if first ≤ 3 then ⟨year - 1, 12, 32 - first⟩
  else ⟨year, 1, 8 - first⟩

/-- The number of weeks of a year. -/
def weeksInYear (year : Nat) : Nat :=
  if firstWeekday year = 3 ∨ (firstWeekday year = 2 ∧ isLeapYear year) then 53 else 52

/-- A day of a week of a year, from Monday as 1. -/
def ofWeek? (year week day : Nat) : Option Date :=
  if 1 ≤ year ∧ 1 ≤ week ∧ week ≤ weeksInYear year ∧ 1 ≤ day ∧ day ≤ 7 then
    some (Nat.repeat next (7 * (week - 1) + (day - 1)) (firstMonday year))
  else none

/-! ### The forms -/

/-- What follows a hyphen, if there has to be one. -/
def behindHyphen? (isSeparated : Bool) (t : Text) : Option Text :=
  if isSeparated then t.behind? '-' else some t

/-- A week and a day of it; the day is Monday when nothing follows the week. -/
def weekForm? (year : Nat) (isSeparated : Bool) (t : Text) : Option Date := do
  let (week, rest) ← Numeral.exactly? 2 t
  if rest.isEmpty then ofWeek? year week 1
  else
    let (day, _) ← Numeral.exactly? 1 (← behindHyphen? isSeparated rest)
    ofWeek? year week day

/-- A month and a day of it. -/
def monthForm? (year : Nat) (isSeparated : Bool) (t : Text) : Option Date := do
  let (month, rest) ← Numeral.exactly? 2 t
  let (day, _) ← Numeral.exactly? 2 (← behindHyphen? isSeparated rest)
  some ⟨year, month, day⟩

/-- A year and a day of it; a hyphen behind the year asks for another one behind what follows. -/
def isoForm? (t : Text) : Option Date := do
  let (year, rest) ← Numeral.exactly? 4 t
  let (isSeparated, rest) := match rest.behind? '-' with
    | some rest => (true, rest)
    | none => (false, rest)
  match rest.behind? 'W' with
  | some rest => weekForm? year isSeparated rest
  | none => monthForm? year isSeparated rest

/-- Read a day of the calendar in one of the forms; the text has as many octets as they have. -/
def ofIso? (t : Text) : Option Date := do
  let octets ← Utf8.encode? t
  if octets.length ∈ [7, 8, 10] then (isoForm? t).filter isReal else none

end Date

/-- A text that is a date passes both tests. -/
def Text.isDate (t : Text) : Bool := Date.hasShape t && (Date.ofIso? t).isSome

end ZodSchemas
