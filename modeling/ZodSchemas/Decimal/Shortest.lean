import ZodSchemas.Decimal.Binary64
import ZodSchemas.Decimal.Numeral

/-!
# Shortest decimals

A double-precision number is written with the fewest digits that read back to
it; of several such decimals the nearest one is taken, of two equally near the
one with the even last digit. The search tries one, two, … seventeen digits and
compares by exact arithmetic. Exponents of the leading digit from -4 to 15 are
written positionally with at least one decimal place, all others with a signed
exponent of at least two digits.
-/

namespace ZodSchemas.Shortest

/-- A decimal, `digits · 10 ^ exponent`. -/
structure Decimal where
  /-- The digits as one number. -/
  digits : Nat
  /-- The power of ten. -/
  exponent : Int
deriving DecidableEq

/-- Compare `a · 10 ^ i` with `b · 2 ^ j`. -/
def compareScaled (a : Nat) (i : Int) (b : Nat) (j : Int) : Ordering :=
  compare (a * Nat.pow 10 i.toNat * Nat.pow 2 (-j).toNat)
    (b * Nat.pow 2 j.toNat * Nat.pow 10 (-i).toNat)

/-- Whether a decimal is among the reals that round to `m · 2 ^ e`. The gap below a
power of two is half as wide as the gap above; the ends count when `m` is even. -/
def readsBack (m : Nat) (e : Int) (d : Decimal) : Bool :=
  let low := if m = Nat.pow 2 52 ∧ e > -1074 then 4 * m - 1 else 4 * m - 2
  let below := compareScaled d.digits d.exponent low (e - 2)
  let above := compareScaled d.digits d.exponent (4 * m + 2) (e - 2)
  let even := m % 2 = 0
  (below = .gt ∨ (even ∧ below = .eq)) ∧ (above = .lt ∨ (even ∧ above = .eq))

/-- The least `k` with `m · 2 ^ e < 10 ^ k`. -/
def scale (m : Nat) (e : Int) : Int :=
  let estimate : Int := ((Nat.log2 m : Int) + e) * 30103 / 100000
  ([estimate, estimate + 1].find? fun k => compareScaled 1 k m e = .gt).getD (estimate + 2)

/-- The nearer neighbour of `m · 2 ^ e` on a decimal grid that reads back, if one does. -/
def onGrid (m : Nat) (e : Int) (grid : Int) : Option Decimal :=
  let f := (m * Nat.pow 2 e.toNat * Nat.pow 10 (-grid).toNat) /
    (Nat.pow 10 grid.toNat * Nat.pow 2 (-e).toNat)
  let low : Decimal := ⟨f, grid⟩
  let high : Decimal := ⟨f + 1, grid⟩
  match readsBack m e low, readsBack m e high with
  | true, true =>
    match compareScaled (2 * f + 1) grid (2 * m) e with
    | .gt => some low
    | .lt => some high
    | .eq => some (if f % 2 = 0 then low else high)
  | true, false => some low
  | false, true => some high
  | false, false => none

/-- The value itself, which needs no rounding. -/
def exact (m : Nat) (e : Int) : Decimal :=
  if 0 ≤ e then ⟨m * Nat.pow 2 e.toNat, 0⟩ else ⟨m * Nat.pow 5 (-e).toNat, e⟩

/-- The fewest digits that read back to `m · 2 ^ e`. -/
def select (m : Nat) (e : Int) : Decimal :=
  let k := scale m e
  ((List.range 17).findSome? fun (n : Nat) => onGrid m e (k - (n + 1 : Nat))).getD (exact m e)

/-- The digits without trailing zeros; the point stands after `point` of them. -/
def layout (d : Decimal) : Text × Int :=
  let digits := Numeral.decimal d.digits
  let kept := (digits.reverse.dropWhile (· = ('0' : CodePoint))).reverse
  (kept, digits.length + d.exponent)

/-- Digits with the point after the first `point` of them, positionally. -/
def positional (digits : Text) (point : Int) : Text :=
  if point ≤ 0 then
    ("0." : Text) ++ List.replicate (-point).toNat ('0' : CodePoint) ++ digits
  else
    let n := point.toNat
    let whole := digits.take n
    let whole := whole ++ List.replicate (n - whole.length) ('0' : CodePoint)
    let rest := digits.drop n
    whole ++ "." ++ (if rest.isEmpty then ("0" : Text) else rest)

/-- Digits with one before the point and a signed exponent. -/
def scientific (digits : Text) (exponent : Int) : Text :=
  let rest := digits.drop 1
  digits.take 1 ++ (if rest.isEmpty then [] else ("." : Text) ++ rest) ++
    (if exponent < 0 then ("e-" : Text) else "e+") ++ Numeral.padded 2 exponent.natAbs

/-- The text of the finite number `m · 2 ^ e` without a sign. -/
def unsigned (m : Nat) (e : Int) : Text :=
  if m = 0 then "0.0"
  else
    let (digits, point) := layout (select m e)
    if -4 ≤ point - 1 ∧ point - 1 < 16 then positional digits point
    else scientific digits (point - 1)

/-- How the values without digits are spelled. -/
structure Spelling where
  /-- Beyond every finite number. -/
  infinity : Text
  /-- No number. -/
  nan : Text

/-- The text of a number. -/
def write (spelling : Spelling) : Binary64 → Text
  | .finite negative m e => (if negative then ("-" : Text) else []) ++ unsigned m e
  | .infinite negative => (if negative then ("-" : Text) else []) ++ spelling.infinity
  | .nan _ => spelling.nan

end ZodSchemas.Shortest
