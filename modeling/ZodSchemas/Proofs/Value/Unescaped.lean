import Mathlib.Data.List.Chain
import ZodSchemas.Json.Reader
import ZodSchemas.Proofs.Value.Printed

/-!
# Written strings read back

A written string is its code points in sixteen-bit units, so what the reader
gets back is what the units say. The two halves of a code point beyond U+FFFF
are written as two surrogates are. A text is joined when it has no such pair of
surrogates itself; then nothing is mistaken for a pair and the text comes back.
-/

namespace ZodSchemas

/-- No high surrogate directly in front of a low one. -/
def Text.IsJoined (t : Text) : Prop := t.IsChain fun c d => ¬(c.isHighSurrogate ∧ d.isLowSurrogate)

instance (t : Text) : Decidable t.IsJoined :=
  inferInstanceAs (Decidable (t.IsChain fun c d => ¬(c.isHighSurrogate ∧ d.isLowSurrogate)))

namespace Numeral

/-- The last hexadecimal digit stands behind the others. -/
theorem hex_succ {width : Nat} (hw : 0 < width) (n : Nat) :
    hex (width + 1) n = hex width (n / 16) ++ [CodePoint.ofChar (n % 16).digitChar] := by
  by_cases hn : n < 16
  · have hq : n / 16 = 0 := Nat.div_eq_of_lt hn
    obtain ⟨k, rfl⟩ : ∃ k, width = k + 1 := ⟨width - 1, by omega⟩
    have hzeros : List.replicate (k + 1) ('0' : CodePoint) =
        List.replicate k ('0' : CodePoint) ++ [('0' : CodePoint)] := List.replicate_succ'
    simp only [hex, padLeft, hq, Nat.mod_eq_of_lt hn, Nat.toDigits_of_lt_base hn,
      Nat.toDigits_zero, Text.ofChars, List.map_cons, List.map_nil, List.length_singleton,
      Nat.add_sub_cancel]
    rw [hzeros]
  · simp only [hex, padLeft, Nat.toDigits_of_base_le (by decide : 1 < 16) (Nat.not_lt.mp hn),
      Text.ofChars, List.map_append, List.map_cons, List.map_nil, List.length_append,
      List.length_singleton, Nat.add_sub_add_right, List.append_assoc]

/-- The four hexadecimal digits of a sixteen-bit number. -/
theorem hex_four {n : Nat} (h : n < 0x10000) :
    hex 4 n = [n / 16 / 16 / 16, n / 16 / 16 % 16, n / 16 % 16, n % 16].map
      fun d => CodePoint.ofChar d.digitChar := by
  have hfirst : n / 16 / 16 / 16 < 16 := by omega
  have hone : hex 1 (n / 16 / 16 / 16) = [CodePoint.ofChar (n / 16 / 16 / 16).digitChar] := by
    simp [hex, padLeft, Nat.toDigits_of_lt_base hfirst, Text.ofChars]
  rw [hex_succ (by decide), hex_succ (by decide), hex_succ (by decide), hone]
  rfl

end Numeral

namespace CodePoint

/-- A hexadecimal digit has the value that it is written for. -/
theorem hexDigit?_digitChar {d : Nat} (h : d < 16) :
    (ofChar d.digitChar).hexDigit? = some d := by
  have digits : ∀ d < 16, (ofChar d.digitChar).hexDigit? = some d := by decide
  exact digits d h

/-- The code point of the number of a code point. -/
theorem ofNat?_value (c : CodePoint) : ofNat? c.value = some c := by simp [ofNat?, c.value_lt]

end CodePoint

namespace Json

/-- The first half of a code point beyond U+FFFF. -/
def highHalf (c : CodePoint) : CodePoint :=
  ⟨0xD800 + (c.value - 0x10000) / 0x400, by have := c.value_lt; omega⟩

/-- The second half of a code point beyond U+FFFF. -/
def lowHalf (c : CodePoint) : CodePoint :=
  ⟨0xDC00 + (c.value - 0x10000) % 0x400, by omega⟩

/-- The sixteen-bit units of a code point. -/
def units (c : CodePoint) : Text :=
  if c.value < 0x10000 then [c] else [highHalf c, lowHalf c]

/-- Four written digits are read as their number. -/
theorem hexUnit?_digits {n : Nat} (h : n < 0x10000) :
    hexUnit? (.ofChar (n / 16 / 16 / 16).digitChar) (.ofChar (n / 16 / 16 % 16).digitChar)
      (.ofChar (n / 16 % 16).digitChar) (.ofChar (n % 16).digitChar) = CodePoint.ofNat? n := by
  have hvalue : Numeral.valueOf 16
      [n / 16 / 16 / 16, n / 16 / 16 % 16, n / 16 % 16, n % 16] = n := by
    simp only [Numeral.valueOf, List.foldl_cons, List.foldl_nil]
    omega
  simp only [hexUnit?, CodePoint.hexDigit?_digitChar (show n / 16 / 16 / 16 < 16 by omega),
    CodePoint.hexDigit?_digitChar (Nat.mod_lt _ (by decide : 0 < 16)), hvalue]

section Units

variable {opening rest t r : Text}

/-- A quote ends a string. -/
theorem readUnits_quote : readUnits opening (('\"' : CodePoint) :: rest) = .ok ([], rest) := by
  rw [readUnits.eq_def]
  simp only [if_true]

/-- A code point that needs no escape is read as it is. -/
theorem readUnits_cons {c : CodePoint} (hq : c ≠ ('\"' : CodePoint)) (hb : c ≠ ('\\' : CodePoint))
    (hc : 0x20 ≤ c.value) (h : readUnits opening rest = .ok (t, r)) :
    readUnits opening (c :: rest) = .ok (c :: t, r) := by
  rw [readUnits.eq_def]
  simp only [if_neg hq, if_neg hb, if_neg (Nat.not_lt.mpr hc), h]
  rfl

/-- A letter behind a backslash is read as what it stands for. -/
theorem readUnits_letter {letter c : CodePoint} (hl : letter ≠ ('u' : CodePoint))
    (hc : shortEscape? letter = some c) (h : readUnits opening rest = .ok (t, r)) :
    readUnits opening (('\\' : CodePoint) :: letter :: rest) = .ok (c :: t, r) := by
  have hq : ('\\' : CodePoint) ≠ ('\"' : CodePoint) := by decide
  rw [readUnits.eq_def]
  simp only [if_neg hq, if_neg hl, if_true, hc, h]
  rfl

/-- Four digits behind a backslash and a letter are read as the unit of that number. -/
theorem readUnits_unit {c : CodePoint} (hc : c.value < 0x10000)
    (h : readUnits opening rest = .ok (t, r)) :
    readUnits opening (unitEscape c.value ++ rest) = .ok (c :: t, r) := by
  have hq : ('\\' : CodePoint) ≠ ('\"' : CodePoint) := by decide
  have hescape : unitEscape c.value ++ rest =
      ('\\' : CodePoint) :: ('u' : CodePoint) :: (Numeral.hex 4 c.value ++ rest) := rfl
  rw [hescape, Numeral.hex_four hc]
  cases rest with
  | nil =>
    rw [readUnits.eq_def] at h
    simp at h
  | cons next after =>
    rw [readUnits.eq_def]
    simp only [if_neg hq, if_true, List.map_cons, List.map_nil, List.cons_append, List.nil_append,
      hexUnit?_digits hc, CodePoint.ofNat?_value, h]
    rfl

/-- An escaped code point is read as its units. -/
theorem readUnits_escape (c : CodePoint) (h : readUnits opening rest = .ok (t, r)) :
    readUnits opening (escape c ++ rest) = .ok (units c ++ t, r) := by
  have small : c.value < 0x10000 → units c = [c] := fun hc => if_pos hc
  have he := isEscape_escape c
  generalize escape c = escaped at he ⊢
  cases he with
  | letter hm =>
    have listed : ∀ e ∈ letters, e.1 ≠ ('u' : CodePoint) ∧ shortEscape? e.1 = some e.2 ∧
        e.2.value < 0x10000 := by decide
    obtain ⟨hl, hc, hv⟩ := listed _ hm
    rw [small hv]
    exact readUnits_letter hl hc h
  | plain hq hb hc =>
    rw [small (by omega)]
    exact readUnits_cons hq hb hc.1 h
  | unit hu =>
    rw [small hu]
    exact readUnits_unit hu h
  | halves hv =>
    have hc := c.value_lt
    have hlow := readUnits_unit (c := lowHalf c) (by simp only [lowHalf]; omega) h
    have hhigh := readUnits_unit (c := highHalf c) (by simp only [highHalf]; omega) hlow
    rw [List.append_assoc, units, if_neg (Nat.not_lt.mpr hv)]
    exact hhigh

/-- The escaped code points of a string are read as their units, up to the closing quote. -/
theorem readUnits_flatMap (t : Text) :
    readUnits opening (t.flatMap escape ++ ('\"' : CodePoint) :: rest) =
      .ok (t.flatMap units, rest) := by
  induction t with
  | nil => exact readUnits_quote
  | cons c t ih =>
    rw [List.flatMap_cons, List.flatMap_cons, List.append_assoc]
    exact readUnits_escape c ih

end Units

/-- A code point that is no first half of what follows stays alone. -/
theorem joinHalves_cons {c : CodePoint} {t : Text}
    (h : ∀ d ∈ t.head?, ¬(c.isHighSurrogate ∧ d.isLowSurrogate)) :
    joinHalves (c :: t) = c :: joinHalves t := by
  cases t with
  | nil => rfl
  | cons d t =>
    have hcd : ¬(c.isHighSurrogate && d.isLowSurrogate) = true := by simpa using h d rfl
    have hnone : ofHalves? c d = none := if_neg hcd
    simp only [joinHalves, hnone]

/-- The first half of a code point is a high surrogate. -/
theorem isHighSurrogate_highHalf (c : CodePoint) : (highHalf c).isHighSurrogate = true := by
  have hc := c.value_lt
  have hlow : 0xD800 ≤ (highHalf c).value := by simp only [highHalf]; omega
  have hhigh : (highHalf c).value < 0xDC00 := by simp only [highHalf]; omega
  simp only [CodePoint.isHighSurrogate, hlow, hhigh, decide_true, Bool.and_true]

/-- The second half of a code point is a low surrogate. -/
theorem isLowSurrogate_lowHalf (c : CodePoint) : (lowHalf c).isLowSurrogate = true := by
  have hlow : 0xDC00 ≤ (lowHalf c).value := by simp only [lowHalf]; omega
  have hhigh : (lowHalf c).value < 0xE000 := by simp only [lowHalf]; omega
  simp only [CodePoint.isLowSurrogate, hlow, hhigh, decide_true, Bool.and_true]

/-- Two halves are those of their code point. -/
theorem ofHalves?_halves {c : CodePoint} (h : 0x10000 ≤ c.value) :
    ofHalves? (highHalf c) (lowHalf c) = some c := by
  have hcond : ((highHalf c).isHighSurrogate && (lowHalf c).isLowSurrogate) = true := by
    rw [isHighSurrogate_highHalf, isLowSurrogate_lowHalf, Bool.and_true]
  have hvalue : 0x10000 + ((highHalf c).value - 0xD800) * 0x400 + ((lowHalf c).value - 0xDC00) =
      c.value := by
    simp only [highHalf, lowHalf]
    omega
  rw [ofHalves?, if_pos hcond, hvalue, CodePoint.ofNat?_value]

/-- The units of a text start with a low surrogate only if the text does. -/
theorem isLowSurrogate_head_units {t : Text} {d : CodePoint} (h : d ∈ (t.flatMap units).head?)
    (hd : d.isLowSurrogate = true) : d ∈ t.head? := by
  cases t with
  | nil => simp at h
  | cons e t =>
    by_cases he : e.value < 0x10000
    · simpa [units, he] using h
    · obtain rfl : highHalf e = d := by simpa [units, he] using h
      have hhigh := isHighSurrogate_highHalf e
      simp only [CodePoint.isLowSurrogate, CodePoint.isHighSurrogate, Bool.and_eq_true,
        decide_eq_true_eq] at hd hhigh
      omega

/-- The units of a joined text join to the text. -/
theorem joinHalves_units {t : Text} (h : t.IsJoined) : joinHalves (t.flatMap units) = t := by
  induction t with
  | nil => rfl
  | cons c t ih =>
    obtain ⟨hc, ht⟩ := List.isChain_cons.mp h
    rw [List.flatMap_cons, units]
    split
    · refine (joinHalves_cons fun d hd hcd => ?_).trans (congrArg _ (ih ht))
      exact hc d (isLowSurrogate_head_units hd hcd.2) hcd
    · next hv =>
      simp only [List.cons_append, List.nil_append, joinHalves,
        ofHalves?_halves (Nat.not_lt.mp hv), ih ht]

/-- A written string is its escaped code points between quotes. -/
theorem writeText_append (t rest : Text) : writeText t ++ rest =
    ('\"' : CodePoint) :: (t.flatMap escape ++ ('\"' : CodePoint) :: rest) := by
  have hquote : ("\"" : Text) = [('\"' : CodePoint)] := rfl
  simp [writeText, hquote]

/-- Of what starts with a written string the reader takes the string, with surrogates joined. -/
theorem readText_writeText_append (t rest : Text) :
    readText (writeText t ++ rest) = .ok (joinHalves (t.flatMap units), rest) := by
  rw [writeText_append, readText, List.drop_succ_cons, List.drop_zero, readUnits_flatMap]
  rfl

/-- A written string is read as the text that was written, unless surrogates of the text look like
the halves of a code point. -/
theorem readText_writeText {t : Text} (h : t.IsJoined) (rest : Text) :
    readText (writeText t ++ rest) = .ok (t, rest) := by
  rw [readText_writeText_append, joinHalves_units h]

end Json

end ZodSchemas
