import ZodSchemas.Decimal.Binary64
import ZodSchemas.Decimal.Numeral
import ZodSchemas.Text.Digit

/-!
# Numerals that are marked as numbers

Once a text is known to be a number it is read leniently: blanks around it, a
sign, digits of any script. An integer may repeat the mark of its base; a
double-precision number may be a decimal with an exponent or one of the words
for infinity and no number, in any case. Integers with more decimal digits than the
limit are refused.
-/

namespace ZodSchemas.Reading

/-- The sign in front, whether it is a minus, and the rest. -/
def splitSign (t : Text) : Bool × Text :=
  match t with
  | c :: rest =>
    if c = ('-' : CodePoint) then (true, rest)
    else if c = ('+' : CodePoint) then (false, rest)
    else (false, t)
  | [] => (false, t)

/-- An ASCII letter in lower case. -/
def lower (c : CodePoint) : CodePoint :=
  if 0x41 ≤ c.value ∧ c.value ≤ 0x5A then (CodePoint.ofNat? (c.value + 0x20)).getD c else c

/-- The letter that marks a base. -/
def baseMark? (base : Nat) : Option CodePoint :=
  match base with
  | 2 => some 'b'
  | 8 => some 'o'
  | 16 => some 'x'
  | _ => none

/-- The text without the mark of a base in front. -/
def withoutMark (base : Nat) (t : Text) : Text :=
  match t with
  | first :: letter :: rest =>
    if Digit.value? first = some 0 ∧ baseMark? base = some (lower letter) then rest else t
  | _ => t

/-- The values of digits that are all less than a base. -/
def digits? (base : Nat) (t : Text) : Option (List Nat) :=
  t.mapM fun c => (Digit.anyValue? c).filter (· < base)

/-- An integer in a base. -/
def integer? (base : Nat) (t : Text) : Option Int :=
  let (negative, unsigned) := splitSign (Digit.trim t)
  match digits? base (withoutMark base unsigned) with
  | none => none
  | some [] => none
  | some digits =>
    if base = 10 ∧ Numeral.digitLimit < digits.length then none
    else
      let n := Numeral.valueOf base digits
      some (if negative then -(n : Int) else n)

/-- A decimal integer whose digits may be grouped by single low lines. -/
def grouped? (t : Text) : Option Int :=
  let lowLine : CodePoint := '_'
  let groups := (splitSign (Digit.trim t)).2.splitOn lowLine
  if groups.all (!·.isEmpty) then integer? 10 (t.filter (· != lowLine)) else none

/-- A run of decimal digits and what follows it. -/
def spanDigits (t : Text) : List Nat × Text :=
  let run := t.takeWhile fun c => (Digit.value? c).isSome
  (run.filterMap Digit.value?, t.dropWhile fun c => (Digit.value? c).isSome)

/-- The exponent at the end of a decimal; none is zero. -/
def exponent? (t : Text) : Option Int :=
  match t with
  | [] => some 0
  | letter :: rest =>
    if lower letter = ('e' : CodePoint) then
      let (negative, digits) := splitSign rest
      match spanDigits digits with
      | (d :: ds, []) =>
        let n := Numeral.valueOf 10 (d :: ds)
        some (if negative then -(n : Int) else n)
      | _ => none
    else none

/-- A decimal without a sign: digits with a point among or around them and an exponent. -/
def decimal? (negative : Bool) (t : Text) : Option Binary64 :=
  let (whole, rest) := spanDigits t
  let (fraction, rest) := match rest with
    | point :: tail => if point = ('.' : CodePoint) then spanDigits tail else ([], rest)
    | [] => ([], rest)
  match whole ++ fraction, exponent? rest with
  | [], _ => none
  | _, none => none
  | digits, some exponent =>
    some (.ofDecimal negative (Numeral.valueOf 10 digits) (exponent - fraction.length))

/-- A double-precision number; what is none gets a mark. -/
def binary64? (mark : Nat) (t : Text) : Option Binary64 :=
  let (negative, unsigned) := splitSign (Digit.trim t)
  let word := unsigned.map lower
  if word = ("inf" : Text) ∨ word = ("infinity" : Text) then some (.infinite negative)
  else if word = ("nan" : Text) then some (.nan mark)
  else decimal? negative unsigned

end ZodSchemas.Reading
