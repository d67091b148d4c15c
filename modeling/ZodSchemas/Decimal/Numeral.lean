import ZodSchemas.Text.CodePoint

/-!
# Numerals

Integers are written in decimal without padding and a minus sign in front of
negative ones; code numbers are written in lower-case hexadecimal, padded with
zeros to a width. Reading folds digits into a value; which texts are numerals
is decided by the formats that use them. Integers with more than 4300 decimal
digits are neither read nor written.
-/

namespace ZodSchemas.Numeral

/-- The decimal digits of a natural number. -/
def decimal (n : Nat) : Text := Text.ofChars (Nat.toDigits 10 n)

/-- A decimal integer with its sign. -/
def integer : Int → Text
  | .ofNat n => decimal n
  | .negSucc n => ('-' : CodePoint) :: decimal (n + 1)

/-- The greatest number of decimal digits of an integer that is read or written. -/
def digitLimit : Nat := 4300

/-- A decimal integer with its sign, unless it has too many digits. -/
def integer? (n : Int) : Option Text :=
  if (decimal n.natAbs).length ≤ digitLimit then some (integer n) else none

/-- A text holds more digits in a row than are read as one integer. -/
def HasLongRun (digits : Nat) (t : Text) : Prop :=
  digitLimit < digits ∧ ∃ run : Text, run <:+: t ∧ run.length = digits ∧
    run.all CodePoint.isDigit = true

/-- What a part of a text holds, the text holds. -/
theorem HasLongRun.of_infix {digits : Nat} {s t : Text} (h : HasLongRun digits s) (hs : s <:+: t) :
    HasLongRun digits t := by
  obtain ⟨hlimit, run, hrun, hdigits⟩ := h
  exact ⟨hlimit, run, hrun.trans hs, hdigits⟩

/-- Zeros in front up to a width; longer texts stay. -/
def padLeft (width : Nat) (t : Text) : Text :=
  List.replicate (width - t.length) ('0' : CodePoint) ++ t

/-- Lower-case hexadecimal digits, padded to a width. -/
def hex (width n : Nat) : Text := padLeft width (Text.ofChars (Nat.toDigits 16 n))

/-- A decimal number padded to a width. -/
def padded (width n : Nat) : Text := padLeft width (decimal n)

/-- The number that a sequence of digits denotes in a base. -/
def valueOf (base : Nat) (digits : List Nat) : Nat :=
  digits.foldl (fun n d => n * base + d) 0

/-- The number of a nonempty text of decimal digits. -/
def decimal? (t : Text) : Option Nat :=
  if t.isEmpty then none
  else if t.all CodePoint.isDigit then some (valueOf 10 (t.map fun c => c.value - 0x30))
  else none

/-- The number of exactly some digits and what follows. -/
def exactly? (width : Nat) (t : Text) : Option (Nat × Text) :=
  let digits := t.take width
  if digits.length = width then (Numeral.decimal? digits).map fun n => (n, t.drop width) else none

end ZodSchemas.Numeral
