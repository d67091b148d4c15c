/-!
# Double-precision numbers

A finite number is a sign and `mantissa · 2 ^ exponent`, so a zero keeps its
sign. Every operation is the exact result rounded once: to the nearest
representable number, a tie to the even mantissa, beyond the largest to
infinity. What is no number has a mark, by which several of them are told
apart. `Quantity` is the value without the sign of zero; numbers of different
kinds are compared through it.
-/

namespace ZodSchemas

/-- A double-precision number. -/
inductive Binary64 where
  /-- A sign and `mantissa · 2 ^ exponent`. -/
  | finite (negative : Bool) (mantissa : Nat) (exponent : Int)
  /-- Beyond every finite number. -/
  | infinite (negative : Bool)
  /-- No number. -/
  | nan (mark : Nat)
deriving DecidableEq

/-- A place on the number line, its two ends, or none at all. -/
inductive Quantity where
  /-- A rational number. -/
  | finite (value : Rat)
  /-- One of the two ends of the line. -/
  | infinite (negative : Bool)
  /-- No place. -/
  | undefined (mark : Nat)
deriving DecidableEq

namespace Quantity

/-- The order of the line; what has no place is below nothing and above nothing. -/
def lt : Quantity → Quantity → Bool
  | .finite a, .finite b => a < b
  | .finite _, .infinite negative => !negative
  | .infinite negative, .finite _ => negative
  | .infinite a, .infinite b => a && !b
  | _, _ => false

end Quantity

namespace Binary64

/-- The quotient rounded to the nearest integer, a tie to the even one. -/
def divideToNearest (num den : Nat) : Nat :=
  let q := num / den
  let r := num % den
  if 2 * r < den then q
  else if 2 * r > den then q + 1
  else if q % 2 = 0 then q else q + 1

/-- The quotient of `num` by `den · 2 ^ exponent`, to the nearest integer. -/
def mantissaAt (num den : Nat) (exponent : Int) : Nat :=
  divideToNearest (num * Nat.pow 2 (-exponent).toNat) (den * Nat.pow 2 exponent.toNat)

/-- The exponent of the leading bit of a positive quotient. -/
def leadingExponent (num den : Nat) : Int :=
  let k : Int := (Nat.log2 num : Int) - (Nat.log2 den : Int)
  if den * Nat.pow 2 k.toNat ≤ num * Nat.pow 2 (-k).toNat then k else k - 1

/-- The number nearest to a quotient with a positive denominator. -/
def ofRatio (negative : Bool) (num den : Nat) : Binary64 :=
  if num = 0 then .finite negative 0 (-1074)
  else
    let exponent := max (leadingExponent num den - 52) (-1074)
    let mantissa := mantissaAt num den exponent
    let (mantissa, exponent) :=
      if mantissa = Nat.pow 2 53 then (Nat.pow 2 52, exponent + 1) else (mantissa, exponent)
    if exponent > 971 then .infinite negative else .finite negative mantissa exponent

/-- The number nearest to `digits · 10 ^ exponent`. Exponents so far out that the
result is zero or infinite are not multiplied out. -/
def ofDecimal (negative : Bool) (digits : Nat) (exponent : Int) : Binary64 :=
  let magnitude := exponent + (Nat.toDigits 10 digits).length
  if digits = 0 ∨ magnitude < -400 then .finite negative 0 (-1074)
  else if magnitude > 400 then .infinite negative
  else ofRatio negative (digits * Nat.pow 10 exponent.toNat) (Nat.pow 10 (-exponent).toNat)

/-- The number with the other sign. -/
def negate : Binary64 → Binary64
  | .finite negative m e => .finite (!negative) m e
  | .infinite negative => .infinite (!negative)
  | .nan mark => .nan mark

/-- The exact absolute value of a finite number, as a quotient. -/
def magnitude (mantissa : Nat) (exponent : Int) : Nat × Nat :=
  (mantissa * Nat.pow 2 exponent.toNat, Nat.pow 2 (-exponent).toNat)

/-- The place of a number on the line; both zeros stand at zero. -/
def quantity : Binary64 → Quantity
  | .finite negative m e =>
    let (num, den) := magnitude m e
    .finite (mkRat (if negative then -(num : Int) else num) den)
  | .infinite negative => .infinite negative
  | .nan mark => .undefined mark

/-- The number nearest to a rational. -/
def ofRat (q : Rat) : Binary64 := ofRatio (q.num < 0) q.num.natAbs q.den

/-- The number nearest to the sum; opposite infinities have none. -/
def add (a b : Binary64) : Binary64 :=
  match a.quantity, b.quantity with
  | .finite x, .finite y => ofRat (x + y)
  | .infinite x, .infinite y => if x = y then .infinite x else .nan 0
  | .infinite x, .finite _ => .infinite x
  | .finite _, .infinite y => .infinite y
  | _, _ => .nan 0

/-- The number nearest to the product; zero and an infinity have none. -/
def mul (a b : Binary64) : Binary64 :=
  match a.quantity, b.quantity with
  | .finite x, .finite y => ofRat (x * y)
  | .infinite x, .infinite y => .infinite (x != y)
  | .infinite x, .finite y => if y = 0 then .nan 0 else .infinite (x != decide (y < 0))
  | .finite x, .infinite y => if x = 0 then .nan 0 else .infinite (y != decide (x < 0))
  | _, _ => .nan 0

/-- The number nearest to a natural number, unless that is too large. -/
def ofNat? (n : Nat) : Option Binary64 :=
  match ofRatio false n 1 with
  | .finite negative m e => some (.finite negative m e)
  | _ => none

/-- Not one of the two zeros. -/
def isNonzero : Binary64 → Bool
  | .finite _ m _ => m != 0
  | _ => true

end Binary64

end ZodSchemas
