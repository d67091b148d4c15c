/-!
# Code points and texts

A text is a list of Unicode code points. Surrogates are code points too: an
escape such as `\ud800` in a document denotes one, so names, keys and values
can hold it although no encoded file can. The measure of a text is the number
of its code points.
-/

namespace ZodSchemas

/-- A Unicode code point, surrogates included. -/
structure CodePoint where
  /-- The number of the code point. -/
  value : Nat
  /-- Unicode ends at `10FFFF`. -/
  value_lt : value < 0x110000
deriving DecidableEq

namespace CodePoint

/-- Every character is below the end of Unicode. -/
theorem toNat_lt (c : Char) : c.toNat < 0x110000 := by
  rcases c.valid with h | h
  · exact Nat.lt_trans h (by decide)
  · exact h.2

/-- The code point of a character. -/
def ofChar (c : Char) : CodePoint := ⟨c.toNat, toNat_lt c⟩

instance : Coe Char CodePoint := ⟨ofChar⟩

/-- The code point of a number, if there is one. -/
def ofNat? (n : Nat) : Option CodePoint :=
  if h : n < 0x110000 then some ⟨n, h⟩ else none

/-- A high surrogate, the first half of a pair. -/
def isHighSurrogate (c : CodePoint) : Bool := 0xD800 ≤ c.value && c.value < 0xDC00

/-- A low surrogate, the second half of a pair. -/
def isLowSurrogate (c : CodePoint) : Bool := 0xDC00 ≤ c.value && c.value < 0xE000

/-- Neither a character nor part of one in any encoding. -/
def isSurrogate (c : CodePoint) : Bool := 0xD800 ≤ c.value && c.value < 0xE000

/-- The character of a code point; a surrogate has none and gives U+FFFD. -/
def char (c : CodePoint) : Char :=
  if h : c.value.isValidChar then Char.ofNatAux c.value h else '\ufffd'

/-- An ASCII digit. -/
def isDigit (c : CodePoint) : Bool := 0x30 ≤ c.value && c.value ≤ 0x39

/-- An ASCII letter. -/
def isLetter (c : CodePoint) : Bool :=
  (0x41 ≤ c.value && c.value ≤ 0x5A) || (0x61 ≤ c.value && c.value ≤ 0x7A)

/-- The value of a digit in a base of at most sixteen. -/
def hexDigit? (c : CodePoint) : Option Nat :=
  if 0x30 ≤ c.value ∧ c.value ≤ 0x39 then some (c.value - 0x30)
  else if 0x61 ≤ c.value ∧ c.value ≤ 0x66 then some (c.value - 0x57)
  else if 0x41 ≤ c.value ∧ c.value ≤ 0x46 then some (c.value - 0x37)
  else none

/-- Whether a code point is in the set whose members and others take turns at some boundaries. -/
def isWithin (c : CodePoint) (boundaries : List Nat) : Bool :=
  (boundaries.takeWhile (· ≤ c.value)).length % 2 = 1

@[simp] theorem value_ofChar (c : Char) : (ofChar c).value = c.toNat := rfl

/-- Code points of one number are one code point. -/
theorem eq_of_value {a b : CodePoint} (h : a.value = b.value) : a = b := by
  obtain ⟨n, hn⟩ := a
  obtain rfl : n = b.value := h
  rfl

end CodePoint

/-- A sequence of code points. -/
abbrev Text := List CodePoint

namespace Text

/-- The code points of a string. -/
def ofString (s : String) : Text := s.toList.map .ofChar

/-- The code points of a list of characters. -/
def ofChars (cs : List Char) : Text := cs.map .ofChar

instance : Coe String Text := ⟨ofString⟩

/-- The characters of a text, with U+FFFD in place of surrogates. -/
def chars (t : Text) : List Char := t.map CodePoint.char

/-- No surrogates: the text can be encoded. -/
def isEncodable (t : Text) : Bool := t.all fun c => !c.isSurrogate

/-- The part after the last occurrence of a separator, or the whole text without one. -/
def afterLast (separator : CodePoint) (t : Text) : Text :=
  (t.splitOn separator).getLast?.getD []

/-- The part before the last occurrence of a separator, if it occurs. -/
def beforeLast? (separator : CodePoint) (t : Text) : Option Text :=
  if separator ∈ t then some (t.take (t.length - (afterLast separator t).length - 1)) else none

/-- Whether a text occurs somewhere inside another. -/
def occursIn (pattern : Text) : Text → Bool
  | [] => pattern.isEmpty
  | c :: rest => pattern.isPrefixOf (c :: rest) || occursIn pattern rest

/-- What follows a code point in front. -/
def behind? (mark : CodePoint) (t : Text) : Option Text :=
  match t with
  | c :: rest => if c = mark then some rest else none
  | [] => none

end Text

end ZodSchemas
