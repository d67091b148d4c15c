import ZodSchemas.Value.Fault
import ZodSchemas.Decimal.Shortest

/-!
# Written JSON

Values are written on one line in ASCII: a comma and a space between items, a
colon and a space after a name. Quote, backslash and the control characters
with a letter of their own are escaped by it, every other code point outside
the range from U+0020 to U+007E by its number, in two halves beyond U+FFFF.
Names that are numbers, truth values or null become texts. Dates, octets, sets,
integers with too many digits and containers inside themselves have no written
form.
-/

namespace ZodSchemas.Json

/-- One sixteen-bit unit by its number. -/
def unitEscape (n : Nat) : Text := ("\\u" : Text) ++ Numeral.hex 4 n

/-- A code point inside a written string. -/
def escape (c : CodePoint) : Text :=
  if c = ('\"' : CodePoint) then "\\\""
  else if c = ('\\' : CodePoint) then "\\\\"
  else if c.value = 0x0A then "\\n"
  else if c.value = 0x0D then "\\r"
  else if c.value = 0x09 then "\\t"
  else if c.value = 0x0C then "\\f"
  else if c.value = 0x08 then "\\b"
  else if 0x20 ≤ c.value ∧ c.value ≤ 0x7E then [c]
  else if c.value < 0x10000 then unitEscape c.value
  else unitEscape (0xD800 + (c.value - 0x10000) / 0x400) ++
    unitEscape (0xDC00 + (c.value - 0x10000) % 0x400)

/-- A written string. -/
def writeText (t : Text) : Text := ("\"" : Text) ++ t.flatMap escape ++ "\""

/-- Numbers without digits in written JSON. -/
def spelling : Shortest.Spelling := ⟨"Infinity", "NaN"⟩

/-- An integer that has not too many digits. -/
def writeInteger (n : Int) : Except Fault Text :=
  match Numeral.integer? n with
  | some t => .ok t
  | none => .error .tooManyDigits

/-- A value without parts; dates and octets are refused. -/
def writeKey : Key → Except Fault Text
  | .null => .ok "null"
  | .bool b => .ok (if b then "true" else "false")
  | .int n => writeInteger n
  | .float x => .ok (Shortest.write spelling x)
  | .text t => .ok (writeText t)
  | key => .error (.noLiteral (Value.atom key).kind)

/-- The name of an entry: a text, or the written form of a number, truth value or null. -/
def writeName : Key → Except Fault Text
  | .text t => .ok (writeText t)
  | key => (writeKey key).map writeText

/-- Written items between brackets. -/
def bracketed (parts : List Text) : Text := ("[" : Text) ++ List.intercalate ", " parts ++ "]"

/-- Written entries between braces. -/
def braced (parts : List Text) : Text := ("\x7b" : Text) ++ List.intercalate ", " parts ++ "\x7d"

/-- A written entry. -/
def writeEntry (name part : Text) : Text := name ++ ": " ++ part

/-- The written container at a place of a knot, given the places around it, of which it must be
none; `fuel` exceeds the number of the other places. -/
def writePlace (knot : Knot) : Nat → List Nat → Nat → Except Fault Text
  | 0, _, _ => .error .endlessLiteral
  | fuel + 1, around, n =>
    let part : Strand → Except Fault Text
      | .key key => writeKey key
      | .place m => writePlace knot fuel (n :: around) m
    if n ∈ around then .error .endlessLiteral
    else
      match knot[n]? with
      | some (.list items) => (items.mapM part).map bracketed
      | some (.pair a b) => ([a, b].mapM part).map bracketed
      | some (.map entries) => do
        let parts ← entries.mapM fun (key, strand) => do
          let name ← writeName key
          let t ← part strand
          .ok (writeEntry name t)
        .ok (braced parts)
      | some (.set _) => .error (.noLiteral .set)
      | none => writeKey .null

mutual

/-- A written value. -/
def write : Value → Except Fault Text
  | .atom key => writeKey key
  | .list items => do
    let parts ← writeItems items
    .ok (bracketed parts)
  | .pair a b => do
    let first ← write a
    let second ← write b
    .ok (bracketed [first, second])
  | .map entries => do
    let parts ← writeEntries entries
    .ok (braced parts)
  | .set _ => .error (.noLiteral .set)
  | .knot ties n => writePlace ties (ties.size + 1) [] n

/-- The written items of a list. -/
def writeItems : List Value → Except Fault (List Text)
  | [] => .ok []
  | v :: rest => do
    let part ← write v
    let parts ← writeItems rest
    .ok (part :: parts)

/-- The written entries of a mapping. -/
def writeEntries : List (Key × Value) → Except Fault (List Text)
  | [] => .ok []
  | (k, v) :: rest => do
    let name ← writeName k
    let part ← write v
    let parts ← writeEntries rest
    .ok (writeEntry name part :: parts)

end

end ZodSchemas.Json
