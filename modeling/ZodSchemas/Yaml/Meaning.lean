import ZodSchemas.Yaml.Tag
import ZodSchemas.Text.Base64

/-!
# Meanings of scalars

What a text means under the tag of a sort of scalars. The tag promises the sort;
the text has to keep the promise, and does so more freely than a text without a
tag would have to.
-/

namespace ZodSchemas.Yaml

/-- A truth value. -/
def readBool (t : Text) : Except ReadError Key :=
  let word := t.map Reading.lower
  if Tag.trueWords.any fun other => other = word then .ok (.bool true)
  else if Tag.falseWords.any fun other => other = word then .ok (.bool false)
  else .error .noTruthValue

/-- A number that must be one. -/
def readNumber {α : Type} : Option α → Except ReadError α
  | some a => .ok a
  | none => .error .noNumber

/-- Numbers separated by colons, of which each counts sixty of the next. -/
def readSixties (t : Text) : Except ReadError Int := do
  let parts ← (t.splitOn (':' : CodePoint)).mapM fun part => readNumber (Reading.integer? 10 part)
  .ok (parts.foldl (fun n part => n * 60 + part) 0)

/-- An integer without its sign. -/
def readMagnitude (t : Text) : Except ReadError Int :=
  match ("0b" : Text).isPrefixOf? t, ("0x" : Text).isPrefixOf? t with
  | some digits, _ => readNumber (Reading.integer? 2 digits)
  | none, some digits => readNumber (Reading.integer? 16 digits)
  | none, none =>
    match t with
    | [] => .error .noDigit
    | c :: _ =>
      if t = ("0" : Text) then .ok 0
      else if c = ('0' : CodePoint) then readNumber (Reading.integer? 8 t)
      else if (':' : CodePoint) ∈ t then readSixties t
      else readNumber (Reading.integer? 10 t)

/-- The digits of a number; underscores between them do not count. -/
def withoutUnderscores (t : Text) : Text := t.filter (· != ('_' : CodePoint))

/-- An integer. -/
def readInt (t : Text) : Except ReadError Key := do
  let digits := withoutUnderscores t
  if digits.isEmpty then .error .noDigit
  else
    let (negative, unsigned) := Reading.splitSign digits
    let n ← readMagnitude unsigned
    .ok (.int (if negative then -n else n))

/-- The sum of double-precision numbers of which each counts sixty of the next, from the last on:
one product and one sum at a time. -/
def sumSixties (scale : Nat) (sum : Binary64) : List Binary64 → Except ReadError Binary64
  | [] => .ok sum
  | x :: rest =>
    match Binary64.ofNat? scale with
    | some factor => sumSixties (scale * 60) (sum.add (x.mul factor)) rest
    | none => .error .tooLarge

/-- The same number; what is none gets a mark. -/
def withMark (mark : Nat) : Binary64 → Binary64
  | .nan _ => .nan mark
  | x => x

/-- A double-precision number without its sign. The word for no number stands for the same one
everywhere; what turns out to be none is marked. -/
def readUnsigned (mark : Nat) (t : Text) : Except ReadError Binary64 := do
  if t = (".inf" : Text) then .ok (.infinite false)
  else if t = (".nan" : Text) then .ok (.nan 0)
  else if (':' : CodePoint) ∈ t then
    let parts ← (t.splitOn (':' : CodePoint)).mapM fun part =>
      readNumber (Reading.binary64? mark part)
    let sum ← sumSixties 1 (.ofDecimal false 0 0) parts.reverse
    .ok (withMark mark sum)
  else readNumber (Reading.binary64? mark t)

/-- A double-precision number. -/
def readFloat (mark : Nat) (t : Text) : Except ReadError Key := do
  let digits := (withoutUnderscores t).map Reading.lower
  if digits.isEmpty then .error .noDigit
  else
    let (negative, unsigned) := Reading.splitSign digits
    let x ← readUnsigned mark unsigned
    .ok (.float (if negative then x.negate else x))

/-- A text without a line feed at its end. -/
def withoutNewline (t : Text) : Text :=
  if t.getLast? = some ('\n' : CodePoint) then t.dropLast else t

/-- A date or a moment. -/
def readDate (t : Text) : Except ReadError Key :=
  match WrittenDate.ofText? (withoutNewline t) with
  | none => .error .noDate
  | some written =>
    match written.key? with
    | some key => .ok key
    | none => .error .unrealDate

/-- Octets. -/
def readBinary (t : Text) : Except ReadError Key :=
  if t.all fun c => c.value < 0x80 then
    match Base64.decode? t with
    | some bytes => .ok (.bytes bytes)
    | none => .error .malformed
  else .error .malformed

/-- Tags of scalars. -/
def Tag.isScalar : Tag → Bool
  | .null | .bool | .int | .float | .binary | .timestamp | .str => true
  | _ => false

/-- What a text means under a tag of scalars; what is no number gets a mark. -/
def readScalar (mark : Nat) (tag : Tag) (t : Text) : Except ReadError Key :=
  match tag with
  | .null => .ok .null
  | .bool => readBool t
  | .int => readInt t
  | .float => readFloat mark t
  | .binary => readBinary t
  | .timestamp => readDate t
  | .str => .ok (.text t)
  | _ => .error .malformed

end ZodSchemas.Yaml
