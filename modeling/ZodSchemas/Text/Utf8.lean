import ZodSchemas.Text.Quoted

/-!
# UTF-8

A code point takes one to four octets, the fewest that hold it; surrogates have
no octets. A lead octet says how many octets follow and, where shorter forms,
surrogates and numbers beyond Unicode have to be kept out, narrows the range of
the next one. Octets that are no text are refused at the first that cannot
belong to the text.
-/

namespace ZodSchemas.Utf8

/-- What is wrong with octets that are no text. -/
inductive Problem where
  /-- No code point starts with this octet. -/
  | invalidStart
  /-- Another octet must follow here. -/
  | invalidContinuation
  /-- The last code point is cut off. -/
  | unexpectedEnd
deriving DecidableEq

/-- The octets at which decoding stopped. -/
structure DecodeError where
  /-- What is wrong with them. -/
  problem : Problem
  /-- The first of them. -/
  lead : Nat
  /-- Its position, from 0. -/
  start : Nat
  /-- How many there are. -/
  length : Nat
deriving DecidableEq

/-- The wording of a problem. -/
def Problem.message : Problem → Text
  | .invalidStart => "invalid start byte"
  | .invalidContinuation => "invalid continuation byte"
  | .unexpectedEnd => "unexpected end of data"

/-- The wording of a refusal. -/
def DecodeError.message (e : DecodeError) : Text :=
  let place := if e.length = 1 then
      ("byte 0x" : Text) ++ Numeral.hex 2 e.lead ++ " in position " ++ Numeral.decimal e.start
    else
      ("bytes in position " : Text) ++ Numeral.decimal e.start ++ "-" ++
        Numeral.decimal (e.start + e.length - 1)
  ("\'utf-8\' codec can\'t decode " : Text) ++ place ++ ": " ++ e.problem.message

/-- A code point whose lead octet was read. -/
structure Partial where
  /-- How many octets are owed. -/
  owed : Nat
  /-- The least value of the next one. -/
  low : Nat
  /-- The greatest value of the next one. -/
  high : Nat
  /-- The bits so far. -/
  value : Nat
  /-- The lead octet. -/
  lead : Nat
  /-- Its position. -/
  start : Nat

/-- What a lead octet beyond ASCII announces. -/
def announced? (lead start : Nat) : Option Partial :=
  if 0xC2 ≤ lead ∧ lead ≤ 0xDF then some ⟨1, 0x80, 0xBF, lead - 0xC0, lead, start⟩
  else if lead = 0xE0 then some ⟨2, 0xA0, 0xBF, 0, lead, start⟩
  else if lead = 0xED then some ⟨2, 0x80, 0x9F, 0xD, lead, start⟩
  else if 0xE1 ≤ lead ∧ lead ≤ 0xEF then some ⟨2, 0x80, 0xBF, lead - 0xE0, lead, start⟩
  else if lead = 0xF0 then some ⟨3, 0x90, 0xBF, 0, lead, start⟩
  else if lead = 0xF4 then some ⟨3, 0x80, 0x8F, 4, lead, start⟩
  else if 0xF1 ≤ lead ∧ lead ≤ 0xF3 then some ⟨3, 0x80, 0xBF, lead - 0xF0, lead, start⟩
  else none

/-- Put a code point in front of a text that was decoded. -/
def putNumber (n : Nat) (rest : Except DecodeError Text) : Except DecodeError Text :=
  rest.map fun t => match CodePoint.ofNat? n with
    | some c => c :: t
    | none => t

/-- The text of octets from a position on, perhaps inside a code point. -/
def decodeFrom : Option Partial → Nat → List UInt8 → Except DecodeError Text
  | none, _, [] => .ok []
  | some p, position, [] => .error ⟨.unexpectedEnd, p.lead, p.start, position - p.start⟩
  | none, position, b :: rest =>
    if b.toNat < 0x80 then putNumber b.toNat (decodeFrom none (position + 1) rest)
    else
      match announced? b.toNat position with
      | some p => decodeFrom (some p) (position + 1) rest
      | none => .error ⟨.invalidStart, b.toNat, position, 1⟩
  | some p, position, b :: rest =>
    if p.low ≤ b.toNat ∧ b.toNat ≤ p.high then
      let value := p.value * 64 + (b.toNat - 0x80)
      if p.owed = 1 then putNumber value (decodeFrom none (position + 1) rest)
      else decodeFrom (some ⟨p.owed - 1, 0x80, 0xBF, value, p.lead, p.start⟩) (position + 1) rest
    else .error ⟨.invalidContinuation, p.lead, p.start, position - p.start⟩

/-- The text that octets stand for. -/
def decode (bytes : List UInt8) : Except DecodeError Text := decodeFrom none 0 bytes

/-- The octets of a code point that is no surrogate. -/
def encodeCodePoint (c : CodePoint) : List UInt8 :=
  let n := c.value
  let tail (unit : Nat) : Nat := 0x80 + n / unit % 0x40
  let octets : List Nat :=
    if n < 0x80 then [n]
    else if n < 0x800 then [0xC0 + n / 0x40, tail 1]
    else if n < 0x10000 then [0xE0 + n / 0x1000, tail 0x40, tail 1]
    else [0xF0 + n / 0x40000, tail 0x1000, tail 0x40, tail 1]
  octets.map Nat.toUInt8

/-- The octets of a text; none when it holds a surrogate. -/
def encode? (t : Text) : Option (List UInt8) :=
  if t.isEncodable then some (t.flatMap encodeCodePoint) else none

end ZodSchemas.Utf8
