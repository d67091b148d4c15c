import Mathlib.Data.List.Basic
import ZodSchemas.Json.Printer
import ZodSchemas.Traced

/-!
# Written JSON is one line

Whatever a value holds, its written form consists of visible ASCII characters
and blanks: what lies outside is escaped, and numbers are written with digits,
signs, points and letters. So written JSON never breaks a line.
-/

namespace ZodSchemas

/-- What numbers are written with: digits, points, signs and the letter of exponents. -/
def CodePoint.IsNumeric (c : CodePoint) : Prop :=
  c.isDigit = true ∨ c ∈ ([('.' : CodePoint), ('-' : CodePoint), ('+' : CodePoint),
    ('e' : CodePoint)] : Text)

instance (c : CodePoint) : Decidable c.IsNumeric := inferInstanceAs (Decidable (_ ∨ _))

/-- Visible ASCII characters and blanks only. -/
def Text.IsVisible (t : Text) : Prop := ∀ c ∈ t, 0x20 ≤ c.value ∧ c.value ≤ 0x7E

/-- Only what numbers are written with. -/
def Text.IsNumeric (t : Text) : Prop := ∀ c ∈ t, c.IsNumeric

/-- Each value of a list of computations is that of one of them. -/
theorem exists_of_mem_mapM {ε α β : Type} {f : α → Except ε β} {xs : List α} {ys : List β}
    (h : xs.mapM f = .ok ys) {y : β} (hy : y ∈ ys) : ∃ x ∈ xs, f x = .ok y := by
  induction xs generalizing ys with
  | nil =>
    obtain rfl : [] = ys := by simpa [pure, Except.pure] using h
    simp at hy
  | cons x rest ih =>
    rw [List.mapM_cons] at h
    obtain ⟨first, hx, h⟩ := exceptBind_eq_ok.mp h
    obtain ⟨others, hr, h⟩ := exceptBind_eq_ok.mp h
    obtain rfl : first :: others = ys := by simpa [pure, Except.pure] using h
    rcases List.mem_cons.mp hy with rfl | hy
    · exact ⟨x, by simp, hx⟩
    · obtain ⟨z, hz, hf⟩ := ih hr hy
      exact ⟨z, List.mem_cons_of_mem _ hz, hf⟩

/-- What numbers are written with is visible. -/
theorem CodePoint.IsNumeric.isVisible {c : CodePoint} (h : c.IsNumeric) :
    0x20 ≤ c.value ∧ c.value ≤ 0x7E := by
  rcases h with h | h
  · simp only [CodePoint.isDigit, Bool.and_eq_true, decide_eq_true_eq] at h
    omega
  · have others : ∀ c ∈ ([('.' : CodePoint), ('-' : CodePoint), ('+' : CodePoint),
        ('e' : CodePoint)] : Text), 0x20 ≤ c.value ∧ c.value ≤ 0x7E := by decide
    exact others c h

namespace Text

instance (t : Text) : Decidable t.IsVisible :=
  inferInstanceAs (Decidable (∀ c ∈ t, 0x20 ≤ c.value ∧ c.value ≤ 0x7E))

instance (t : Text) : Decidable t.IsNumeric := inferInstanceAs (Decidable (∀ c ∈ t, c.IsNumeric))

/-- A text is numeric when its parts are. -/
theorem isNumeric_append {a b : Text} : IsNumeric (a ++ b) ↔ a.IsNumeric ∧ b.IsNumeric :=
  List.forall_mem_append

/-- Nothing is visible throughout. -/
@[simp] theorem isVisible_nil : IsVisible [] := by simp [IsVisible]

/-- A text is visible when its parts are. -/
@[simp] theorem isVisible_append {a b : Text} : IsVisible (a ++ b) ↔ a.IsVisible ∧ b.IsVisible :=
  List.forall_mem_append

/-- A text is visible when what its code points give is. -/
theorem isVisible_flatMap {t : Text} {f : CodePoint → Text} (h : ∀ c ∈ t, IsVisible (f c)) :
    IsVisible (t.flatMap f) := by
  intro c hc
  obtain ⟨d, hd, hc⟩ := List.mem_flatMap.mp hc
  exact h d hd c hc

/-- A numeric text is visible. -/
theorem IsNumeric.isVisible {t : Text} (h : t.IsNumeric) : t.IsVisible :=
  fun c hc => (h c hc).isVisible

/-- Visible parts with a visible text between neighbours are visible. -/
theorem isVisible_intercalate {between : Text} {parts : List Text} (hb : between.IsVisible)
    (h : ∀ p ∈ parts, IsVisible p) : IsVisible (List.intercalate between parts) := by
  induction parts with
  | nil => exact isVisible_nil
  | cons p rest ih =>
    have hp := h p (by simp)
    cases rest with
    | nil => simpa using hp
    | cons q rest =>
      rw [List.intercalate_cons_cons]
      exact isVisible_append.mpr ⟨isVisible_append.mpr ⟨hp, hb⟩,
        ih fun r hr => h r (List.mem_cons_of_mem _ hr)⟩

end Text

namespace Numeral

/-- The digits of a number are digits. -/
theorem exists_digitChar_of_mem_toDigits {base n : Nat} (hb : 1 < base) {c : Char}
    (h : c ∈ Nat.toDigits base n) : ∃ d < base, c = d.digitChar := by
  induction n using Nat.strongRecOn with
  | ind n ih =>
    rw [Nat.toDigits_eq_if hb] at h
    split at h
    · next hn => exact ⟨n, hn, List.mem_singleton.mp h⟩
    · next hn =>
      rcases List.mem_append.mp h with h | h
      · exact ih (n / base) (Nat.div_lt_self (by omega) hb) h
      · exact ⟨n % base, Nat.mod_lt n (by omega), List.mem_singleton.mp h⟩

/-- Digits of bases up to sixteen are visible. -/
theorem isVisible_toDigits {base : Nat} (hb : 1 < base) (hs : base ≤ 16) (n : Nat) :
    (Text.ofChars (Nat.toDigits base n)).IsVisible := by
  intro c hc
  obtain ⟨char, hm, rfl⟩ := List.mem_map.mp hc
  obtain ⟨d, hd, rfl⟩ := exists_digitChar_of_mem_toDigits hb hm
  have digits : ∀ d < 16, 0x20 ≤ d.digitChar.toNat ∧ d.digitChar.toNat ≤ 0x7E := by decide
  exact digits d (by omega)

/-- A decimal number consists of digits. -/
theorem isDigit_of_mem_decimal {n : Nat} {c : CodePoint} (h : c ∈ decimal n) :
    c.isDigit = true := by
  obtain ⟨char, hm, rfl⟩ := List.mem_map.mp h
  obtain ⟨d, hd, rfl⟩ := exists_digitChar_of_mem_toDigits (by decide) hm
  have digits : ∀ d < 10, (CodePoint.ofChar d.digitChar).isDigit = true := by decide
  exact digits d hd

/-- A decimal number is numeric. -/
theorem isNumeric_decimal (n : Nat) : (decimal n).IsNumeric :=
  fun _ hc => .inl (isDigit_of_mem_decimal hc)

/-- An integer is numeric. -/
theorem isNumeric_integer (n : Int) : (integer n).IsNumeric := by
  cases n with
  | ofNat n => exact isNumeric_decimal n
  | negSucc n => exact List.forall_mem_cons.mpr ⟨by decide, isNumeric_decimal (n + 1)⟩

/-- Zeros in front keep a text visible. -/
theorem isVisible_padLeft {t : Text} (h : t.IsVisible) (width : Nat) :
    (padLeft width t).IsVisible := by
  refine Text.isVisible_append.mpr ⟨fun c hc => ?_, h⟩
  rw [List.eq_of_mem_replicate hc]
  decide

end Numeral

namespace Shortest

/-- Zeros are numeric. -/
theorem isNumeric_zeros (n : Nat) : Text.IsNumeric (List.replicate n ('0' : CodePoint)) :=
  fun _ hc => List.eq_of_mem_replicate hc ▸ by decide

/-- Digits with a point among them are numeric. -/
theorem isNumeric_positional {digits : Text} (h : digits.IsNumeric) (point : Int) :
    (positional digits point).IsNumeric := by
  unfold positional
  split
  · exact Text.isNumeric_append.mpr
      ⟨Text.isNumeric_append.mpr ⟨by decide, isNumeric_zeros _⟩, h⟩
  · have hw : Text.IsNumeric (digits.take point.toNat) := fun c hc => h c (List.mem_of_mem_take hc)
    have hr : Text.IsNumeric (digits.drop point.toNat) := fun c hc => h c (List.mem_of_mem_drop hc)
    refine Text.isNumeric_append.mpr ⟨Text.isNumeric_append.mpr
      ⟨Text.isNumeric_append.mpr ⟨hw, isNumeric_zeros _⟩, by decide⟩, ?_⟩
    split
    · decide
    · exact hr

/-- Digits with an exponent are numeric. -/
theorem isNumeric_scientific {digits : Text} (h : digits.IsNumeric) (exponent : Int) :
    (scientific digits exponent).IsNumeric := by
  have hr : Text.IsNumeric (digits.drop 1) := fun c hc => h c (List.mem_of_mem_drop hc)
  refine Text.isNumeric_append.mpr ⟨Text.isNumeric_append.mpr ⟨Text.isNumeric_append.mpr
    ⟨fun c hc => h c (List.mem_of_mem_take hc), ?_⟩, ?_⟩, ?_⟩
  · split
    · decide
    · exact Text.isNumeric_append.mpr ⟨by decide, hr⟩
  · split <;> decide
  · exact Text.isNumeric_append.mpr ⟨isNumeric_zeros _, Numeral.isNumeric_decimal _⟩

/-- A finite number is numeric. -/
theorem isNumeric_unsigned (m : Nat) (e : Int) : (unsigned m e).IsNumeric := by
  unfold unsigned
  split
  · decide
  · have hd : Text.IsNumeric (layout (select m e)).1 := by
      refine fun c hc => Numeral.isNumeric_decimal (select m e).digits c ?_
      exact List.mem_reverse.mp (List.dropWhile_subset _ (List.mem_reverse.mp hc))
    dsimp only
    split
    · exact isNumeric_positional hd _
    · exact isNumeric_scientific hd _

/-- What holds of numeric texts and of the words for numbers without digits, holds of numbers. -/
theorem forall_mem_write {p : CodePoint → Prop} {spelling : Spelling}
    (hp : ∀ c : CodePoint, c.IsNumeric → p c) (hi : ∀ c ∈ spelling.infinity, p c)
    (hn : ∀ c ∈ spelling.nan, p c) (x : Binary64) : ∀ c ∈ write spelling x, p c := by
  have sign : ∀ negative : Bool, Text.IsNumeric (if negative then ("-" : Text) else []) := by decide
  cases x with
  | finite negative m e =>
    exact List.forall_mem_append.mpr
      ⟨fun c hc => hp c (sign _ c hc), fun c hc => hp c (isNumeric_unsigned m e c hc)⟩
  | infinite negative =>
    exact List.forall_mem_append.mpr ⟨fun c hc => hp c (sign _ c hc), hi⟩
  | nan _ => exact hn

end Shortest

namespace Json

/-- The letters that stand for code points behind a backslash. -/
def letters : List (CodePoint × CodePoint) :=
  [('\"', '\"'), ('\\', '\\'), ('n', '\n'), ('r', '\r'), ('t', '\t'), ('f', '\x0c'), ('b', '\x08')]

/-- How a code point is escaped. -/
inductive IsEscape (c : CodePoint) : Text → Prop where
  /-- By its letter. -/
  | letter {l : CodePoint} (listed : (l, c) ∈ letters) : IsEscape c [('\\' : CodePoint), l]
  /-- Not at all. -/
  | plain (quote : c ≠ ('\"' : CodePoint)) (backslash : c ≠ ('\\' : CodePoint))
      (visible : 0x20 ≤ c.value ∧ c.value ≤ 0x7E) : IsEscape c [c]
  /-- By its number. -/
  | unit (small : c.value < 0x10000) : IsEscape c (unitEscape c.value)
  /-- By the numbers of its halves. -/
  | halves (large : 0x10000 ≤ c.value) :
      IsEscape c (unitEscape (0xD800 + (c.value - 0x10000) / 0x400) ++
        unitEscape (0xDC00 + (c.value - 0x10000) % 0x400))

/-- Every code point is escaped in one of these ways. -/
theorem isEscape_escape (c : CodePoint) : IsEscape c (escape c) := by
  have letter : ∀ l d : CodePoint, (l, d) ∈ letters → c.value = d.value →
      IsEscape c [('\\' : CodePoint), l] := by
    intro l d hm hd
    exact .letter (CodePoint.eq_of_value hd ▸ hm)
  rw [escape]
  by_cases hq : c = ('\"' : CodePoint)
  · rw [if_pos hq]
    exact letter '\"' '\"' (by decide) (congrArg _ hq)
  rw [if_neg hq]
  by_cases hb : c = ('\\' : CodePoint)
  · rw [if_pos hb]
    exact letter '\\' '\\' (by decide) (congrArg _ hb)
  rw [if_neg hb]
  by_cases hn : c.value = 0x0A
  · rw [if_pos hn]
    exact letter 'n' '\n' (by decide) hn
  rw [if_neg hn]
  by_cases hr : c.value = 0x0D
  · rw [if_pos hr]
    exact letter 'r' '\r' (by decide) hr
  rw [if_neg hr]
  by_cases ht : c.value = 0x09
  · rw [if_pos ht]
    exact letter 't' '\t' (by decide) ht
  rw [if_neg ht]
  by_cases hf : c.value = 0x0C
  · rw [if_pos hf]
    exact letter 'f' '\x0c' (by decide) hf
  rw [if_neg hf]
  by_cases hs : c.value = 0x08
  · rw [if_pos hs]
    exact letter 'b' '\x08' (by decide) hs
  rw [if_neg hs]
  by_cases hv : 0x20 ≤ c.value ∧ c.value ≤ 0x7E
  · rw [if_pos hv]
    exact .plain hq hb hv
  rw [if_neg hv]
  by_cases hu : c.value < 0x10000
  · rw [if_pos hu]
    exact .unit hu
  rw [if_neg hu]
  exact .halves (Nat.not_lt.mp hu)

/-- An escaped code point is visible. -/
theorem isVisible_escape (c : CodePoint) : (escape c).IsVisible := by
  have unit : ∀ n, Text.IsVisible (unitEscape n) := fun n => Text.isVisible_append.mpr
    ⟨by decide, Numeral.isVisible_padLeft
      (Numeral.isVisible_toDigits (by decide) (by decide) n) 4⟩
  have h := isEscape_escape c
  generalize escape c = t at h ⊢
  cases h with
  | letter hm =>
    have visible : ∀ e ∈ letters, Text.IsVisible [('\\' : CodePoint), e.1] := by decide
    exact visible _ hm
  | plain _ _ hc => simpa [Text.IsVisible] using hc
  | unit _ => exact unit _
  | halves _ => exact Text.isVisible_append.mpr ⟨unit _, unit _⟩

/-- A written string is visible. -/
theorem isVisible_writeText (t : Text) : (writeText t).IsVisible :=
  Text.isVisible_append.mpr ⟨Text.isVisible_append.mpr
    ⟨by decide, Text.isVisible_flatMap fun c _ => isVisible_escape c⟩, by decide⟩

/-- An integer is written unless it has too many digits. -/
theorem writeInteger_eq_ok {n : Int} {t : Text} : writeInteger n = .ok t ↔
    (Numeral.decimal n.natAbs).length ≤ Numeral.digitLimit ∧ Numeral.integer n = t := by
  unfold writeInteger Numeral.integer?
  by_cases hl : (Numeral.decimal n.natAbs).length ≤ Numeral.digitLimit
  · simp [hl]
  · simp [hl]

/-- A written value without parts is visible. -/
theorem isVisible_writeKey {key : Key} {t : Text} (h : writeKey key = .ok t) : t.IsVisible := by
  cases key with
  | int n =>
    obtain ⟨-, rfl⟩ := writeInteger_eq_ok.mp h
    exact (Numeral.isNumeric_integer n).isVisible
  | null =>
    obtain rfl := Except.ok.inj h
    decide
  | bool b =>
    obtain rfl := Except.ok.inj h
    cases b <;> decide
  | float x =>
    obtain rfl := Except.ok.inj h
    exact Shortest.forall_mem_write (fun c hc => hc.isVisible) (by decide) (by decide) x
  | text t =>
    obtain rfl := Except.ok.inj h
    exact isVisible_writeText t
  | _ => simp [writeKey] at h

/-- The written name of an entry is visible. -/
theorem isVisible_writeName {key : Key} {t : Text} (h : writeName key = .ok t) : t.IsVisible := by
  unfold writeName at h
  split at h
  · obtain rfl := Except.ok.inj h
    exact isVisible_writeText _
  · obtain ⟨s, -, rfl⟩ := exceptMap_eq_ok.mp h
    exact isVisible_writeText s

/-- Visible items between brackets are visible. -/
theorem isVisible_bracketed {parts : List Text} (h : ∀ p ∈ parts, Text.IsVisible p) :
    (bracketed parts).IsVisible :=
  Text.isVisible_append.mpr ⟨Text.isVisible_append.mpr
    ⟨by decide, Text.isVisible_intercalate (by decide) h⟩, by decide⟩

/-- Visible entries between braces are visible. -/
theorem isVisible_braced {parts : List Text} (h : ∀ p ∈ parts, Text.IsVisible p) :
    (braced parts).IsVisible :=
  Text.isVisible_append.mpr ⟨Text.isVisible_append.mpr
    ⟨by decide, Text.isVisible_intercalate (by decide) h⟩, by decide⟩

/-- An entry with a visible name and value is visible. -/
theorem isVisible_writeEntry {name part : Text} (hn : name.IsVisible) (hp : part.IsVisible) :
    (writeEntry name part).IsVisible :=
  Text.isVisible_append.mpr ⟨Text.isVisible_append.mpr ⟨hn, by decide⟩, hp⟩

/-- A written container of a knot is visible. -/
theorem isVisible_writePlace {knot : Knot} {fuel : Nat} {around : List Nat} {n : Nat} {t : Text}
    (h : writePlace knot fuel around n = .ok t) : t.IsVisible := by
  induction fuel generalizing around n t with
  | zero => simp [writePlace] at h
  | succ fuel ih =>
    rw [writePlace] at h
    split at h
    · simp at h
    · cases hl : knot[n]? with
      | none =>
        simp only [hl] at h
        exact isVisible_writeKey h
      | some loop =>
        cases loop with
        | list items =>
          simp only [hl] at h
          obtain ⟨parts, hp, rfl⟩ := exceptMap_eq_ok.mp h
          refine isVisible_bracketed fun p hm => ?_
          obtain ⟨strand, -, hs⟩ := exists_of_mem_mapM hp hm
          cases strand with
          | key key => exact isVisible_writeKey hs
          | place m => exact ih hs
        | pair a b =>
          simp only [hl] at h
          obtain ⟨parts, hp, rfl⟩ := exceptMap_eq_ok.mp h
          refine isVisible_bracketed fun p hm => ?_
          obtain ⟨strand, -, hs⟩ := exists_of_mem_mapM hp hm
          cases strand with
          | key key => exact isVisible_writeKey hs
          | place m => exact ih hs
        | map entries =>
          simp only [hl] at h
          obtain ⟨parts, hp, h⟩ := exceptBind_eq_ok.mp h
          obtain rfl := Except.ok.inj h
          refine isVisible_braced fun p hm => ?_
          obtain ⟨⟨key, strand⟩, -, hs⟩ := exists_of_mem_mapM hp hm
          obtain ⟨name, hname, hs⟩ := exceptBind_eq_ok.mp hs
          obtain ⟨s, hpart, hs⟩ := exceptBind_eq_ok.mp hs
          obtain rfl := Except.ok.inj hs
          refine isVisible_writeEntry (isVisible_writeName hname) ?_
          cases strand with
          | key key => exact isVisible_writeKey hpart
          | place m => exact ih hpart
        | set items => simp [hl] at h

mutual

/-- Written JSON is visible, whatever the value holds. -/
theorem isVisible_write : ∀ (v : Value) (t : Text), write v = .ok t → t.IsVisible
  | .atom key, t, h => isVisible_writeKey (by simpa [write] using h)
  | .list items, t, h => by
    rw [write] at h
    obtain ⟨parts, hp, h⟩ := exceptBind_eq_ok.mp h
    obtain rfl := Except.ok.inj h
    exact isVisible_bracketed (isVisible_writeItems items parts hp)
  | .pair a b, t, h => by
    rw [write] at h
    obtain ⟨first, ha, h⟩ := exceptBind_eq_ok.mp h
    obtain ⟨second, hb, h⟩ := exceptBind_eq_ok.mp h
    obtain rfl := Except.ok.inj h
    refine isVisible_bracketed (List.forall_mem_cons.mpr ⟨isVisible_write a first ha, ?_⟩)
    exact List.forall_mem_singleton.mpr (isVisible_write b second hb)
  | .map entries, t, h => by
    rw [write] at h
    obtain ⟨parts, hp, h⟩ := exceptBind_eq_ok.mp h
    obtain rfl := Except.ok.inj h
    exact isVisible_braced (isVisible_writeEntries entries parts hp)
  | .set items, t, h => by simp [write] at h
  | .knot ties n, t, h => isVisible_writePlace (by simpa [write] using h)

/-- Written items are visible. -/
theorem isVisible_writeItems : ∀ (items : List Value) (parts : List Text),
    writeItems items = .ok parts → ∀ p ∈ parts, Text.IsVisible p
  | [], parts, h => by
    obtain rfl : [] = parts := by simpa [writeItems] using h
    simp
  | v :: rest, parts, h => by
    rw [writeItems] at h
    obtain ⟨first, hf, h⟩ := exceptBind_eq_ok.mp h
    obtain ⟨others, ho, h⟩ := exceptBind_eq_ok.mp h
    obtain rfl := Except.ok.inj h
    exact List.forall_mem_cons.mpr
      ⟨isVisible_write v first hf, isVisible_writeItems rest others ho⟩

/-- Written entries are visible. -/
theorem isVisible_writeEntries : ∀ (entries : List (Key × Value)) (parts : List Text),
    writeEntries entries = .ok parts → ∀ p ∈ parts, Text.IsVisible p
  | [], parts, h => by
    obtain rfl : [] = parts := by simpa [writeEntries] using h
    simp
  | (k, v) :: rest, parts, h => by
    rw [writeEntries] at h
    obtain ⟨name, hn, h⟩ := exceptBind_eq_ok.mp h
    obtain ⟨part, hp, h⟩ := exceptBind_eq_ok.mp h
    obtain ⟨others, ho, h⟩ := exceptBind_eq_ok.mp h
    obtain rfl := Except.ok.inj h
    exact List.forall_mem_cons.mpr ⟨isVisible_writeEntry (isVisible_writeName hn)
      (isVisible_write v part hp), isVisible_writeEntries rest others ho⟩

end

end Json

end ZodSchemas
