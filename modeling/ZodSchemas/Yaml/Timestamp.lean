import ZodSchemas.Value.Entries
import ZodSchemas.Decimal.Reading
import ZodSchemas.Yaml.Cursor

/-!
# Written dates

A date is a year of four digits, a month and a day with hyphens between them. A
time of day may follow behind the letter T or blanks, with a fraction of the
second and an offset from universal time. Which texts are dates is decided by
their shape; whether the day exists is asked afterwards.
-/

namespace ZodSchemas.Yaml

/-- A time of day as it is written. -/
structure WrittenTime where
  /-- The hour. -/
  hour : Nat
  /-- The minute. -/
  minute : Nat
  /-- The second. -/
  second : Nat
  /-- The digits behind the point. -/
  fraction : Text
  /-- The minutes by which local time is ahead of universal time. -/
  offset : Option Int

/-- A date as it is written. -/
structure WrittenDate where
  /-- The year. -/
  year : Nat
  /-- The digits of the month. -/
  month : Text
  /-- The digits of the day. -/
  day : Text
  /-- The time of day. -/
  time : Option WrittenTime

namespace WrittenDate

/-- One or two digits and what follows. -/
def oneOrTwo? (t : Text) : Option (Text × Text) :=
  let digits := (t.take 2).takeWhile CodePoint.isDigit
  if digits.isEmpty then none else some (digits, t.drop digits.length)

/-- The number of some digits. -/
def number (digits : Text) : Nat := (Numeral.decimal? digits).getD 0

/-- An offset that ends a text. -/
def offset? (t : Text) : Option Int :=
  match t with
  | [] => none
  | sign :: rest =>
    if rest.isEmpty ∧ sign = ('Z' : CodePoint) then some 0
    else if sign = ('+' : CodePoint) ∨ sign = ('-' : CodePoint) then do
      let (hours, rest) ← oneOrTwo? rest
      let minutes ← match Text.behind? ':' rest with
        | some rest => (Numeral.exactly? 2 rest).bind fun (n, rest) =>
          if rest.isEmpty then some n else none
        | none => if rest.isEmpty then some 0 else none
      let total : Int := number hours * 60 + minutes
      some (if sign = ('-' : CodePoint) then -total else total)
    else none

/-- A time of day that ends a text. -/
def time? (t : Text) : Option WrittenTime := do
  let (hour, rest) ← oneOrTwo? t
  let (minute, rest) ← Numeral.exactly? 2 (← Text.behind? ':' rest)
  let (second, rest) ← Numeral.exactly? 2 (← Text.behind? ':' rest)
  let (fraction, rest) := match Text.behind? '.' rest with
    | some rest => (rest.takeWhile CodePoint.isDigit, rest.dropWhile CodePoint.isDigit)
    | none => ([], rest)
  if rest.isEmpty then some ⟨number hour, minute, second, fraction, none⟩
  else
    let offset ← offset? (rest.dropWhile isBlank)
    some ⟨number hour, minute, second, fraction, some offset⟩

/-- What separates a date and a time of day, and the time. -/
def separated? (t : Text) : Option WrittenTime :=
  match t with
  | c :: rest =>
    if c = ('T' : CodePoint) ∨ c = ('t' : CodePoint) then time? rest
    else if isBlank c then time? (t.dropWhile isBlank)
    else none
  | [] => none

/-- A date that is a whole text. -/
def ofText? (t : Text) : Option WrittenDate := do
  let (year, rest) ← Numeral.exactly? 4 t
  let (month, rest) ← oneOrTwo? (← Text.behind? '-' rest)
  let (day, rest) ← oneOrTwo? (← Text.behind? '-' rest)
  if rest.isEmpty then some ⟨year, month, day, none⟩
  else
    let time ← separated? rest
    some ⟨year, month, day, some time⟩

/-- A text that is a date without being tagged as one: without a time of day the month and the day
have two digits. -/
def isPlainDate (t : Text) : Bool :=
  match ofText? t with
  | some d => d.time.isSome || (d.month.length = 2 && d.day.length = 2)
  | none => false

/-- The microseconds of a fraction; digits beyond the sixth are dropped. -/
def microseconds (fraction : Text) : Nat :=
  number ((fraction ++ List.replicate 6 ('0' : CodePoint)).take 6)

/-- The date or moment that is meant, if it exists. -/
def key? (d : WrittenDate) : Option Key :=
  let date : Date := ⟨d.year, number d.month, number d.day⟩
  match d.time with
  | none => if date.isReal then some (.date date) else none
  | some t =>
    let moment : Moment := ⟨date, t.hour, t.minute, t.second, microseconds t.fraction, t.offset⟩
    if moment.isReal then some (.moment moment) else none

end WrittenDate

end ZodSchemas.Yaml
