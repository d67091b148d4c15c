import ZodSchemas.Text.CodePoint

/-!
# Punycode

A text is written in ASCII as its ASCII code points, a hyphen if there are any,
and numbers that say which other code points stand where: from the least on,
each by how many pairs of a code point and a place lie between it and the one
before. The numbers are written with thirty-six digits, the least first. A
digit below a threshold ends its number; the thresholds follow from a bias,
which adapts to the sizes of the numbers so far.
-/

namespace ZodSchemas.Punycode

/-- The digit of a value: small letters first, then numerals. -/
def digit (n : Nat) : CodePoint :=
  (CodePoint.ofNat? (if n < 26 then 0x61 + n else 0x16 + n)).getD 'z'

/-- The value of a digit; letters may be capital. -/
def digitValue? (c : CodePoint) : Option Nat :=
  let n := c.value
  if 0x61 ≤ n ∧ n ≤ 0x7A then some (n - 0x61)
  else if 0x41 ≤ n ∧ n ≤ 0x5A then some (n - 0x41)
  else if c.isDigit then some (n - 0x16)
  else none

/-- The value from which on a digit at a position is not the last. -/
def threshold (bias position : Nat) : Nat := min 26 (max 1 (36 * (position + 1) - bias))

theorem threshold_pos (bias position : Nat) : 0 < threshold bias position := by
  unfold threshold
  omega

/-- The bias that suits numbers of some size. -/
def suited (size : Nat) : Nat :=
  if 455 < size then 36 + suited (size / 35) else 36 * size / (size + 38)
termination_by size
decreasing_by exact Nat.div_lt_self (by omega) (by omega)

/-- The bias in front of the first number. -/
def firstBias : Nat := 72

/-- The bias behind a number, when some code points stand in their places. The first number is
large because all of ASCII lies in front of it. -/
def adapt (isFirst : Bool) (number count : Nat) : Nat :=
  let size := if isFirst then number / 700 else number / 2
  suited (size + size / count)

/-! ### Writing -/

/-- The digits of a number from a position on. -/
def writeNumber (bias position n : Nat) : Text :=
  let least := threshold bias position
  if n < least then [digit n]
  else
    digit (least + (n - least) % (36 - least)) ::
      writeNumber bias (position + 1) ((n - least) / (36 - least))
termination_by n
decreasing_by
  have h := threshold_pos bias position
  exact Nat.lt_of_le_of_lt (Nat.div_le_self _ _) (by omega)

/-- What has been written of a text. -/
structure Written where
  /-- The digits. -/
  digits : Text := []
  /-- The bias for the next number. -/
  bias : Nat := firstBias
  /-- The pairs since the last number. -/
  skipped : Nat := 0
  /-- The code points that stand in their places. -/
  count : Nat
  /-- Whether no number has been written. -/
  isFirst : Bool := true

namespace Written

/-- Pass one place of a text while a code point is written in its places. -/
def pass (code : CodePoint) (w : Written) (c : CodePoint) : Written :=
  if c.value < code.value then { w with skipped := w.skipped + 1 }
  else if c = code then
    { digits := w.digits ++ writeNumber w.bias 0 w.skipped
      bias := adapt w.isFirst w.skipped (w.count + 1)
      skipped := 0
      count := w.count + 1
      isFirst := false }
  else w

/-- Write the places of all code points of an ascending list; the pairs with code points that do
not occur, from some number on, are skipped. -/
def places (t : Text) (w : Written) (next : Nat) : List CodePoint → Written
  | [] => w
  | code :: rest =>
    let w := { w with skipped := w.skipped + (code.value - next) * (w.count + 1) }
    let w := t.foldl (pass code) w
    places t { w with skipped := w.skipped + 1 } (code.value + 1) rest

end Written

/-- The code points of a text beyond ASCII, ascending, each once. -/
def beyond (t : Text) : List CodePoint :=
  ((t.filter fun c => 0x7F < c.value).mergeSort fun a b => a.value ≤ b.value).eraseDups

/-- A text in ASCII. -/
def encode (t : Text) : Text :=
  let plain := t.filter fun c => c.value ≤ 0x7F
  let mark : Text := if plain.isEmpty then [] else "-"
  let written : Written := { count := plain.length }
  plain ++ mark ++ (written.places t 0x80 (beyond t)).digits

/-! ### Reading -/

/-- The number in front of a text, from a position with a weight on, and what follows it. -/
def readNumber? (bias position weight : Nat) : Text → Option (Nat × Text)
  | [] => none
  | c :: rest =>
    match digitValue? c with
    | none => none
    | some d =>
      let least := threshold bias position
      if d < least then some (d * weight, rest)
      else
        (readNumber? bias (position + 1) (weight * (36 - least)) rest).map fun (n, rest) =>
          (d * weight + n, rest)

/-- A number takes at least one digit. -/
theorem readNumber?_length {bias position weight n : Nat} {t rest : Text}
    (h : readNumber? bias position weight t = some (n, rest)) : rest.length < t.length := by
  induction t generalizing position weight n rest with
  | nil => simp [readNumber?] at h
  | cons c t ih =>
    rw [readNumber?] at h
    split at h
    · simp at h
    · dsimp only at h
      split at h
      · simp only [Option.some.injEq, Prod.mk.injEq] at h
        simp [← h.2]
      · obtain ⟨⟨m, r⟩, hr, he⟩ := Option.map_eq_some_iff.mp h
        simp only [Prod.mk.injEq] at he
        have := ih hr
        rw [he.2] at this
        simpa using Nat.lt_succ_of_lt this

/-- Put code points into a text as numbers tell, from a place and a code point on. -/
def insert? (bias place code : Nat) (isFirst : Bool) (t digits : Text) : Option Text :=
  match _h : readNumber? bias 0 1 digits with
  | none => if digits.isEmpty then some t else none
  | some (n, rest) =>
    let count := t.length + 1
    match CodePoint.ofNat? (code + (place + n) / count) with
    | none => none
    | some c =>
      let spot := (place + n) % count
      insert? (adapt isFirst n count) (spot + 1) c.value false
        (t.take spot ++ c :: t.drop spot) rest
termination_by digits.length
decreasing_by exact readNumber?_length _h

/-- The text that is written in ASCII, if one is. -/
def decode? (t : Text) : Option Text :=
  match Text.beforeLast? '-' t with
  | some plain => insert? firstBias 0 0x80 true plain (Text.afterLast '-' t)
  | none => insert? firstBias 0 0x80 true [] t

end ZodSchemas.Punycode
