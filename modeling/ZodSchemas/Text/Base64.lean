import ZodSchemas.Text.CodePoint

/-!
# Base 64

Octets are written six bits a letter. Reading passes over everything that is no
letter of the alphabet; the padding ends the octets where a group of four
letters is complete with it. Bits that are left over are an error.
-/

namespace ZodSchemas.Base64

/-- The six bits of a letter. -/
def bits? (c : CodePoint) : Option Nat :=
  let n := c.value
  if 0x41 ≤ n ∧ n ≤ 0x5A then some (n - 0x41)
  else if 0x61 ≤ n ∧ n ≤ 0x7A then some (n - 0x61 + 26)
  else if 0x30 ≤ n ∧ n ≤ 0x39 then some (n - 0x30 + 52)
  else if c = ('+' : CodePoint) then some 62
  else if c = ('/' : CodePoint) then some 63
  else none

/-- The octets that a letter completes: the number of letters before it in its group of four and
the letter before it decide which. -/
def completed (letters previous bits : Nat) : List UInt8 :=
  match letters with
  | 0 => []
  | 1 => [(previous * 4 + bits / 16).toUInt8]
  | 2 => [(previous % 16 * 16 + bits / 4).toUInt8]
  | _ => [(previous % 4 * 64 + bits).toUInt8]

/-- Read on behind some letters of a group and some padding. -/
def decodeFrom (letters previous pads : Nat) : Text → Option (List UInt8)
  | [] => if letters = 0 then some [] else none
  | c :: rest =>
    if c = ('=' : CodePoint) then
      if 2 ≤ letters ∧ 4 ≤ letters + pads + 1 then some []
      else decodeFrom letters previous (if 2 ≤ letters then pads + 1 else pads) rest
    else
      match bits? c with
      | none => decodeFrom letters previous pads rest
      | some bits =>
        (decodeFrom ((letters + 1) % 4) bits 0 rest).map (completed letters previous bits ++ ·)

/-- The octets that a text stands for. -/
def decode? (t : Text) : Option (List UInt8) := decodeFrom 0 0 0 t

end ZodSchemas.Base64
