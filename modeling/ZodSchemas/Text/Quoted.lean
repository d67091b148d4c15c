import ZodSchemas.Decimal.Numeral
import ZodSchemas.Text.Printable

/-!
# Quoted texts

A value that is named in a message stands between quotes: single ones, or
double ones when it holds a single and no double quote. The quote and the
backslash get a backslash in front, line feed, carriage return and tab have
letters of their own, and every other code point that is not printable is
written by its number.
-/

namespace ZodSchemas.Quoted

/-- The number of a code point in two, four or eight hexadecimal digits. -/
def escapeNumber (n : Nat) : Text :=
  if n < 0x100 then ("\\x" : Text) ++ Numeral.hex 2 n
  else if n < 0x10000 then ("\\u" : Text) ++ Numeral.hex 4 n
  else ("\\U" : Text) ++ Numeral.hex 8 n

/-- A code point between quotes. -/
def escape (quote c : CodePoint) : Text :=
  if c = quote ∨ c = ('\\' : CodePoint) then ['\\', c]
  else if c = ('\n' : CodePoint) then "\\n"
  else if c = ('\r' : CodePoint) then "\\r"
  else if c = ('\t' : CodePoint) then "\\t"
  else if Printable.isPrintable c then [c]
  else escapeNumber c.value

/-- The quote that needs the least escaping. -/
def quoteFor (t : Text) : CodePoint :=
  if ('\'' : CodePoint) ∈ t ∧ ('\"' : CodePoint) ∉ t then '\"' else '\''

/-- A text between quotes. -/
def text (t : Text) : Text :=
  let quote := quoteFor t
  [quote] ++ t.flatMap (escape quote) ++ [quote]

/-- An octet between quotes; the code points beyond ASCII are written by number. -/
def escapeOctet (quote c : CodePoint) : Text :=
  if c.value < 0x7F then escape quote c else escapeNumber c.value

/-- Octets between quotes, marked by a letter in front. -/
def octets (bytes : List UInt8) : Text :=
  let t : Text := bytes.map fun b => .ofChar (Char.ofNat b.toNat)
  let quote := quoteFor t
  [('b' : CodePoint), quote] ++ t.flatMap (escapeOctet quote) ++ [quote]

end ZodSchemas.Quoted
