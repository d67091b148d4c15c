import Mathlib.Data.List.Basic
import ZodSchemas.Decimal.Numeral

/-!
# ECMAScript identifiers

An identifier is written in code points and in escapes of code points, and it
stands for the value that comes of reading the escapes. The value starts with a
letter, a dollar sign or an underscore and is none of the reserved words. Which
letters there are beyond ASCII depends on the edition of Unicode, so nothing is
said about them. A text has one value at most, and what follows a part that has
a value adds to that value.
-/

namespace ZodSchemas.Identifier

/-- The code points of identifiers, by an edition of Unicode. -/
structure Alphabet where
  /-- Identifiers may start with the code point. -/
  starts : CodePoint → Prop
  /-- Identifiers may go on with the code point. -/
  continues : CodePoint → Prop
  /-- In ASCII identifiers start with letters. -/
  starts_iff : ∀ c : CodePoint, c.value < 0x80 → (starts c ↔ c.isLetter = true)
  /-- In ASCII identifiers go on with letters, digits and underscores. -/
  continues_iff : ∀ c : CodePoint, c.value < 0x80 →
    (continues c ↔ c.isLetter = true ∨ c.isDigit = true ∨ c = ('_' : CodePoint))

namespace Alphabet

/-- The alphabet without anything beyond ASCII. -/
def ascii : Alphabet where
  starts c := c.isLetter = true
  continues c := c.isLetter = true ∨ c.isDigit = true ∨ c = ('_' : CodePoint)
  starts_iff _ _ := Iff.rfl
  continues_iff _ _ := Iff.rfl

/-- What the value of an identifier may start with. -/
def IsStart (a : Alphabet) (c : CodePoint) : Prop :=
  a.starts c ∨ c = ('$' : CodePoint) ∨ c = ('_' : CodePoint)

/-- What the value of an identifier may go on with: joiners without a width count as well. -/
def IsPart (a : Alphabet) (c : CodePoint) : Prop :=
  a.continues c ∨ c = ('$' : CodePoint) ∨ c.value = 0x200C ∨ c.value = 0x200D

/-- A value starts and goes on as identifiers do. -/
def Fits (a : Alphabet) (value : Text) : Prop :=
  ∃ c rest, value = c :: rest ∧ a.IsStart c ∧ ∀ d ∈ rest, a.IsPart d

end Alphabet

/-- The words that name nothing of a module's own. -/
def reservedWords : List Text :=
  ["arguments", "await", "break", "case", "catch", "class", "const", "continue", "debugger",
   "default", "delete", "do", "else", "enum", "eval", "export", "extends", "false", "finally",
   "for", "function", "if", "implements", "import", "in", "instanceof", "interface", "let", "new",
   "null", "package", "private", "protected", "public", "return", "static", "super", "switch",
   "this", "throw", "true", "try", "typeof", "var", "void", "while", "with", "yield"]

/-- The number that hexadecimal digits denote. -/
def hexValue (digits : Text) : Nat := Numeral.valueOf 16 (digits.filterMap CodePoint.hexDigit?)

/-- Hexadecimal digits alone. -/
def AreHex (digits : Text) : Prop := ∀ d ∈ digits, d.hexDigit?.isSome = true

/-- A text that stands for one code point of an identifier. -/
inductive Denotes : Text → CodePoint → Prop where
  /-- The code point itself; a backslash is none of an identifier. -/
  | plain {c : CodePoint} (h : c ≠ ('\\' : CodePoint)) : Denotes [c] c
  /-- An escape with four digits. -/
  | short {digits : Text} {c : CodePoint} (hex : AreHex digits) (length : digits.length = 4)
      (value : hexValue digits = c.value) :
      Denotes (('\\' : CodePoint) :: ('u' : CodePoint) :: digits) c
  /-- An escape with digits in braces. -/
  | braced {digits : Text} {c : CodePoint} (hex : AreHex digits) (nonempty : digits ≠ [])
      (value : hexValue digits = c.value) :
      Denotes (('\\' : CodePoint) :: ('u' : CodePoint) :: ('\x7b' : CodePoint) ::
        (digits ++ [('\x7d' : CodePoint)])) c

/-- A text has a value when its escapes are read. -/
inductive Spells : Text → Text → Prop where
  /-- Nothing has the empty value. -/
  | nil : Spells [] []
  /-- A text that stands for one code point, and what follows. -/
  | cons {front rest value : Text} {c : CodePoint} (first : Denotes front c)
      (others : Spells rest value) : Spells (front ++ rest) (c :: value)

/-- An identifier or a reserved word. -/
def IsName (a : Alphabet) (t : Text) : Prop := ∃ value, Spells t value ∧ a.Fits value

/-- An identifier. -/
def IsIdentifier (a : Alphabet) (t : Text) : Prop :=
  ∃ value, Spells t value ∧ a.Fits value ∧ value ∉ reservedWords

/-- Two texts are the same identifier: they are equal, or they have the same value. -/
def SameIdentifier (s t : Text) : Prop := s = t ∨ ∃ value, Spells s value ∧ Spells t value

section Values

variable {s t value other front rest behind : Text} {c d : CodePoint}

/-- A brace is no digit. -/
theorem AreHex.not_brace (h : AreHex t) :
    ('\x7b' : CodePoint) ∉ t ∧ ('\x7d' : CodePoint) ∉ t := by
  constructor
  · intro hm
    exact absurd (h _ hm) (by decide)
  · intro hm
    exact absurd (h _ hm) (by decide)

/-- Something stands for a code point. -/
theorem Denotes.ne_nil (h : Denotes front c) : front ≠ [] := by
  cases h <;> simp

/-- In front of a text there is one thing at most that stands for a code point. -/
theorem Denotes.unique {front' rest' : Text} (h : Denotes front c) (ho : Denotes front' d)
    (he : front ++ rest = front' ++ rest') : c = d ∧ rest = rest' := by
  cases h with
  | plain hc =>
    cases ho with
    | plain hd => exact List.cons.inj he
    | short hex hl hv => exact absurd (List.cons.inj he).1 hc
    | braced hex hn hv => exact absurd (List.cons.inj he).1 hc
  | @short digits _ hex hl hv =>
    cases ho with
    | plain hd => exact absurd (List.cons.inj he).1.symm hd
    | @short digits' _ hex' hl' hv' =>
      have htails : digits ++ rest = digits' ++ rest' := by simpa using he
      obtain ⟨rfl, hrest⟩ := List.append_inj htails (hl.trans hl'.symm)
      exact ⟨CodePoint.eq_of_value (hv.symm.trans hv'), hrest⟩
    | @braced digits' _ hex' hn' hv' =>
      obtain ⟨x, tail, rfl⟩ := List.exists_cons_of_length_eq_add_one hl
      have hx : x = ('\x7b' : CodePoint) := by
        simp only [List.cons_append, List.cons.injEq, true_and] at he
        exact he.1
      exact absurd (by simp [hx]) hex.not_brace.1
  | @braced digits _ hex hn hv =>
    cases ho with
    | plain hd => exact absurd (List.cons.inj he).1.symm hd
    | @short digits' _ hex' hl' hv' =>
      obtain ⟨x, tail, rfl⟩ := List.exists_cons_of_length_eq_add_one hl'
      have hx : x = ('\x7b' : CodePoint) := by
        simp only [List.cons_append, List.cons.injEq, true_and] at he
        exact he.1.symm
      exact absurd (by simp [hx]) hex'.not_brace.1
    | @braced digits' _ hex' hn' hv' =>
      have htails : digits ++ ('\x7d' : CodePoint) :: rest =
          digits' ++ ('\x7d' : CodePoint) :: rest' := by
        simpa using he
      -- both stop at the first closing brace
      have hlength : digits.length = digits'.length := by
        have hfirst := congrArg (List.idxOf ('\x7d' : CodePoint)) htails
        rwa [List.idxOf_append_of_notMem hex.not_brace.2, List.idxOf_append_of_notMem
          hex'.not_brace.2, List.idxOf_cons_self, List.idxOf_cons_self] at hfirst
      obtain ⟨rfl, htail⟩ := List.append_inj htails hlength
      exact ⟨CodePoint.eq_of_value (hv.symm.trans hv'), (List.cons.inj htail).2⟩

/-- Texts with values have the values one after another. -/
theorem Spells.append (hs : Spells s value) (ht : Spells t other) :
    Spells (s ++ t) (value ++ other) := by
  induction hs with
  | nil => exact ht
  | cons first _ ih =>
    rw [List.append_assoc, List.cons_append]
    exact .cons first ih

/-- What follows a text with a value adds to that value. -/
theorem Spells.exists_append (hs : Spells s value) (h : Spells (s ++ t) other) :
    ∃ more, other = value ++ more ∧ Spells t more := by
  induction hs generalizing other with
  | nil => exact ⟨other, rfl, h⟩
  | @cons front rest value c first others ih =>
    generalize hw : front ++ rest ++ t = whole at h
    cases h with
    | nil =>
      have hempty : front = [] := by
        have hall := List.append_eq_nil_iff.mp hw
        exact (List.append_eq_nil_iff.mp hall.1).1
      exact absurd hempty first.ne_nil
    | cons first' others' =>
      rw [List.append_assoc] at hw
      obtain ⟨rfl, hrest⟩ := first.unique first' hw
      obtain ⟨more, rfl, hmore⟩ := ih (hrest ▸ others')
      exact ⟨more, rfl, hmore⟩

/-- Nothing has no other value. -/
theorem Spells.eq_nil (h : Spells [] value) : value = [] := by
  generalize ht : ([] : Text) = t at h
  cases h with
  | nil => rfl
  | cons first _ => exact absurd (List.append_eq_nil_iff.mp ht.symm).1 first.ne_nil

/-- A text has one value at most. -/
theorem Spells.unique (h : Spells t value) (ho : Spells t other) : other = value := by
  obtain ⟨more, rfl, hmore⟩ := h.exists_append (t := []) (by rwa [List.append_nil])
  rw [hmore.eq_nil, List.append_nil]

/-- A text without backslashes has itself as its value. -/
theorem spells_self (h : ('\\' : CodePoint) ∉ t) : Spells t t := by
  induction t with
  | nil => exact .nil
  | cons c rest ih =>
    rw [List.mem_cons, not_or] at h
    obtain ⟨hc, hrest⟩ := h
    have hfirst : Denotes [c] c := .plain (Ne.symm hc)
    exact .cons hfirst (ih hrest)

/-- A text with a value is an identifier when the value is of the right form and not reserved. -/
theorem isIdentifier_iff {a : Alphabet} (h : Spells t value) :
    IsIdentifier a t ↔ a.Fits value ∧ value ∉ reservedWords := by
  constructor
  · rintro ⟨other, ho, hfits, hfree⟩
    obtain rfl := h.unique ho
    exact ⟨hfits, hfree⟩
  · exact fun hv => ⟨value, h, hv⟩

/-- Texts with values are the same identifier when the values are equal. -/
theorem sameIdentifier_iff (hs : Spells s value) (ht : Spells t other) :
    SameIdentifier s t ↔ value = other := by
  constructor
  · rintro (rfl | ⟨shared, hs', ht'⟩)
    · exact ht.unique hs
    · rw [← hs.unique hs', ht.unique ht']
  · rintro rfl
    exact .inr ⟨value, hs, ht⟩

end Values

namespace Alphabet

variable {a : Alphabet} {c : CodePoint}

/-- What identifiers of ASCII go on with. -/
theorem isPart_iff (hc : c.value < 0x80) :
    a.IsPart c ↔ c.isLetter = true ∨ c.isDigit = true ∨ c = ('_' : CodePoint) ∨
      c = ('$' : CodePoint) := by
  have hjoiner : ¬ c.value = 0x200C ∧ ¬ c.value = 0x200D := by omega
  rw [IsPart, a.continues_iff c hc]
  simp only [hjoiner, or_false, or_assoc]

/-- Of what identifiers of ASCII go on with they start with all but digits. -/
theorem isStart_iff (hc : c.value < 0x80) : a.IsStart c ↔ a.IsPart c ∧ c.isDigit = false := by
  rw [a.isPart_iff hc, IsStart, a.starts_iff c hc]
  constructor
  · rintro (hletter | rfl | rfl)
    · refine ⟨.inl hletter, ?_⟩
      simp only [CodePoint.isLetter, Bool.or_eq_true, Bool.and_eq_true,
        decide_eq_true_eq] at hletter
      simp only [CodePoint.isDigit, Bool.and_eq_false_iff, decide_eq_false_iff_not]
      omega
    · decide
    · decide
  · rintro ⟨hletter | hdigit | hunderscore | hdollar, hnone⟩
    · exact .inl hletter
    · exact absurd hdigit (by simp [hnone])
    · exact .inr (.inr hunderscore)
    · exact .inr (.inl hdollar)

/-- A value of the right form goes on as identifiers do. -/
theorem fits_append {value other : Text} (hv : value ≠ []) :
    a.Fits (value ++ other) ↔ a.Fits value ∧ ∀ c ∈ other, a.IsPart c := by
  obtain ⟨first, rest, rfl⟩ := List.exists_cons_of_ne_nil hv
  simp only [Fits, List.cons_append, List.cons.injEq, exists_and_left, existsAndEq,
    List.forall_mem_append, true_and, and_assoc]

end Alphabet

end ZodSchemas.Identifier
