import Mathlib.Tactic.IntervalCases
import ZodSchemas.Value.IsoDate

/-!
# The texts that are dates

Neither of the two tests of a date is right alone. The shape lets digits of any
script and a line feed pass, the reader weeks, forms without hyphens and
anything behind them. A text that passes both has ASCII digits, since the reader
takes no others, and no line feed, since it would be an octet too long.
-/

namespace ZodSchemas

namespace Utf8

/-- A text has one octet for each code point when all of them are ASCII. -/
theorem exists_encode? {t : Text} (h : ∀ c ∈ t, c.value < 0x80) :
    ∃ octets, encode? t = some octets ∧ octets.length = t.length := by
  have hencodable : t.isEncodable = true := by
    refine List.all_eq_true.mpr fun c hc => ?_
    have := h c hc
    simp only [CodePoint.isSurrogate, Bool.not_eq_true', Bool.and_eq_false_iff,
      decide_eq_false_iff_not]
    omega
  have hlength : ∀ c ∈ t, (encodeCodePoint c).length = 1 := by
    intro c hc
    simp [encodeCodePoint, h c hc]
  refine ⟨t.flatMap encodeCodePoint, if_pos hencodable, ?_⟩
  rw [List.length_flatMap, List.map_congr_left hlength, List.map_const', List.sum_replicate_nat,
    Nat.mul_one]

end Utf8

namespace Numeral

variable {digits rest : Text} {width n : Nat}

/-- A number is read off ASCII digits alone. -/
theorem isDigit_of_decimal? (h : decimal? digits = some n) : ∀ c ∈ digits, c.isDigit = true := by
  unfold decimal? at h
  split at h
  · simp at h
  · split at h
    · next ha => exact List.all_eq_true.mp ha
    · simp at h

/-- The ASCII digit of a number. -/
def digit (n : Fin 10) : CodePoint := ⟨0x30 + n, by omega⟩

/-- ASCII digits are those of the numbers below ten. -/
theorem exists_digits (h : ∀ c ∈ digits, c.isDigit = true) :
    ∃ ns : List (Fin 10), digits = ns.map digit := by
  induction digits with
  | nil => exact ⟨[], rfl⟩
  | cons c rest ih =>
    obtain ⟨hc, hrest⟩ := List.forall_mem_cons.mp h
    obtain ⟨ns, rfl⟩ := ih hrest
    simp only [CodePoint.isDigit, Bool.and_eq_true, decide_eq_true_eq] at hc
    refine ⟨⟨c.value - 0x30, by omega⟩ :: ns, ?_⟩
    rw [List.map_cons, List.cons.injEq]
    refine ⟨?_, rfl⟩
    cases c
    simp only [digit, CodePoint.mk.injEq]
    simp only at hc
    omega

/-- The number that is read off ASCII digits. -/
theorem decimal?_map_digit {ns : List (Fin 10)} (h : ns ≠ []) :
    decimal? (ns.map digit) = some (valueOf 10 (ns.map Fin.val)) := by
  have hdigit : ∀ n, (digit n).isDigit = true := by decide
  have hdigits : (ns.map digit).all CodePoint.isDigit = true := by simp [hdigit]
  have hvalues : (ns.map digit).map (fun c => c.value - 0x30) = ns.map Fin.val := by
    simp [digit]
  rw [decimal?, if_neg (by simp [h]), if_pos hdigits, hvalues]

/-- A number is read off the digits that it has. -/
theorem decimal?_eq_some : decimal? digits = some n ↔ ∃ ns : List (Fin 10), ns ≠ [] ∧
    digits = ns.map digit ∧ n = valueOf 10 (ns.map Fin.val) := by
  constructor
  · intro h
    obtain ⟨ns, rfl⟩ := exists_digits (isDigit_of_decimal? h)
    have hne : ns ≠ [] := by
      rintro rfl
      simp [decimal?] at h
    rw [decimal?_map_digit hne, Option.some.injEq] at h
    exact ⟨ns, hne, rfl, h.symm⟩
  · rintro ⟨ns, hne, rfl, rfl⟩
    exact decimal?_map_digit hne

/-- The number of two digits. -/
theorem valueOf_two (a b : Fin 10) : valueOf 10 ([a, b].map Fin.val) = 10 * a + b := by
  simp [valueOf, Nat.mul_comm]

/-- The number of four digits. -/
theorem valueOf_four (a b c d : Fin 10) :
    valueOf 10 ([a, b, c, d].map Fin.val) = 1000 * a + 100 * b + 10 * c + d := by
  simp [valueOf]
  omega

/-- The number in front of a text is that of its digits. -/
theorem exactly?_append (h : digits.length = width) :
    exactly? width (digits ++ rest) = (decimal? digits).map fun n => (n, rest) := by
  subst h
  simp [exactly?]

/-- The digits of a number are ASCII. -/
theorem isAscii_of_decimal? (h : decimal? digits = some n) : ∀ c ∈ digits, c.value < 0x80 := by
  intro c hc
  have hd := isDigit_of_decimal? h c hc
  simp only [CodePoint.isDigit, Bool.and_eq_true, decide_eq_true_eq] at hd
  omega

end Numeral

namespace Date

variable {t rest y m d : Text} {date : Date} {width : Nat}

/-! ### The shape -/

/-- A text has exactly some digits of any script. -/
def AreDigits (width : Nat) (digits : Text) : Prop :=
  digits.length = width ∧ ∀ c ∈ digits, (Digit.value? c).isSome = true

/-- What is behind some digits. -/
theorem behindDigits?_eq_some : behindDigits? width t = some rest ↔
    ∃ digits, AreDigits width digits ∧ t = digits ++ rest := by
  simp only [behindDigits?, List.all_eq_true]
  constructor
  · intro h
    split at h
    · next hd =>
      obtain rfl := Option.some.inj h
      exact ⟨t.take width, hd, (List.take_append_drop width t).symm⟩
    · simp at h
  · rintro ⟨digits, ⟨rfl, hd⟩, rfl⟩
    rw [List.take_left, List.drop_left, if_pos ⟨rfl, hd⟩]

/-- What is behind a mark. -/
theorem behind?_eq_some {mark : CodePoint} : t.behind? mark = some rest ↔ t = mark :: rest := by
  cases t with
  | nil => simp [Text.behind?]
  | cons c t =>
    simp only [Text.behind?]
    split
    · next hc => simp [hc]
    · next hc => simp [hc]

/-- Digits of a year, a month and a day with hyphens between them. -/
def joined (y m d : Text) : Text := y ++ ("-" : Text) ++ m ++ ("-" : Text) ++ d

/-- What is behind the shape of a date. -/
theorem behindShape?_eq_some : behindShape? t = some rest ↔
    ∃ y m d, AreDigits 4 y ∧ AreDigits 2 m ∧ AreDigits 2 d ∧ t = joined y m d ++ rest := by
  simp only [behindShape?, bind, Option.bind_eq_some_iff, behindDigits?_eq_some, behind?_eq_some]
  constructor
  · rintro ⟨-, ⟨y, hy, rfl⟩, -, rfl, -, ⟨m, hm, rfl⟩, -, rfl, d, hd, rfl⟩
    exact ⟨y, m, d, hy, hm, hd, by simp [joined, Text.ofString]⟩
  · rintro ⟨y, m, d, hy, hm, hd, rfl⟩
    refine ⟨_, ⟨y, hy, ?_⟩, _, rfl, _, ⟨m, hm, rfl⟩, _, rfl, d, hd, rfl⟩
    simp [joined, Text.ofString]

/-- A text with the shape of a date is one, but for a line feed behind it. -/
theorem hasShape_iff : hasShape t = true ↔ ∃ y m d, AreDigits 4 y ∧ AreDigits 2 m ∧
    AreDigits 2 d ∧ (t = joined y m d ∨ t = joined y m d ++ "\n") := by
  have hrest : hasShape t = true ↔
      behindShape? t = some [] ∨ behindShape? t = some ("\n" : Text) := by
    unfold hasShape
    cases behindShape? t <;> simp
  rw [hrest, behindShape?_eq_some, behindShape?_eq_some]
  simp only [List.append_nil]
  constructor
  · rintro (⟨y, m, d, hy, hm, hd, h⟩ | ⟨y, m, d, hy, hm, hd, h⟩)
    · exact ⟨y, m, d, hy, hm, hd, .inl h⟩
    · exact ⟨y, m, d, hy, hm, hd, .inr h⟩
  · rintro ⟨y, m, d, hy, hm, hd, h | h⟩
    · exact .inl ⟨y, m, d, hy, hm, hd, h⟩
    · exact .inr ⟨y, m, d, hy, hm, hd, h⟩

/-! ### The reader -/

/-- A text of the shape of a date is read as a month and a day of it. -/
theorem isoForm?_joined (hy : AreDigits 4 y) (hm : AreDigits 2 m) (hd : AreDigits 2 d) :
    isoForm? (joined y m d ++ rest) = (Numeral.decimal? y).bind fun year =>
      (Numeral.decimal? m).bind fun month => (Numeral.decimal? d).map fun day =>
        ⟨year, month, day⟩ := by
  -- What stands behind the first hyphen is no W, but a digit.
  have hweek : Text.behind? 'W' (m ++ (("-" : Text) ++ (d ++ rest))) = none := by
    obtain ⟨hl, hdigits⟩ := hm
    cases m with
    | nil => simp at hl
    | cons c m =>
      have hc : c ≠ ('W' : CodePoint) := by
        rintro rfl
        exact absurd (hdigits (.ofChar 'W') (by simp)) (by decide)
      simp [Text.behind?, hc]
  have hhyphen : ∀ behind : Text, Text.behind? '-' (("-" : Text) ++ behind) = some behind :=
    fun _ => rfl
  simp only [isoForm?, joined, List.append_assoc, Numeral.exactly?_append hy.1]
  cases Numeral.decimal? y with
  | none => rfl
  | some year =>
    simp only [Option.map_some, bind, Option.bind_some, hhyphen, hweek, monthForm?, behindHyphen?,
      if_true, Numeral.exactly?_append hm.1]
    cases Numeral.decimal? m with
    | none => rfl
    | some month =>
      simp only [Option.map_some, Option.bind_some, hhyphen, Numeral.exactly?_append hd.1]
      cases Numeral.decimal? d <;> rfl

/-! ### Written dates -/

/-- Four, two and two ASCII digits are the year, the month and the day of a date. -/
structure HasDigits (date : Date) (y m d : Text) : Prop where
  /-- There are as many digits as there have to be. -/
  lengths : y.length = 4 ∧ m.length = 2 ∧ d.length = 2
  /-- The year is that of its digits. -/
  year : Numeral.decimal? y = some date.year
  /-- The month is that of its digits. -/
  month : Numeral.decimal? m = some date.month
  /-- The day is that of its digits. -/
  day : Numeral.decimal? d = some date.day

/-- ASCII digits are digits. -/
theorem areDigits_of_decimal? {digits : Text} {n : Nat} (h : Numeral.decimal? digits = some n)
    (hl : digits.length = width) : AreDigits width digits := by
  refine ⟨hl, fun c hc => ?_⟩
  have hd := Numeral.isDigit_of_decimal? h c hc
  simp only [CodePoint.isDigit, Bool.and_eq_true, decide_eq_true_eq] at hd
  have hzero : Digit.zeros = 0x30 :: Digit.zeros.tail := rfl
  rw [Digit.value?, hzero, List.findSome?_cons, if_pos (by omega)]
  rfl

namespace HasDigits

/-- The digits have the shape of a date. -/
theorem areDigits (h : HasDigits date y m d) : AreDigits 4 y ∧ AreDigits 2 m ∧ AreDigits 2 d :=
  ⟨areDigits_of_decimal? h.year h.lengths.1, areDigits_of_decimal? h.month h.lengths.2.1,
    areDigits_of_decimal? h.day h.lengths.2.2⟩

/-- The written form has ten code points, and all of them are ASCII. -/
theorem isAscii (h : HasDigits date y m d) :
    (joined y m d).length = 10 ∧ ∀ c ∈ joined y m d, c.value < 0x80 := by
  have hhyphen : ∀ c ∈ ("-" : Text), c.value < 0x80 := by decide
  refine ⟨by simp [joined, Text.ofString, h.lengths], ?_⟩
  simp only [joined, List.forall_mem_append]
  exact ⟨⟨⟨⟨Numeral.isAscii_of_decimal? h.year, hhyphen⟩, Numeral.isAscii_of_decimal? h.month⟩,
    hhyphen⟩, Numeral.isAscii_of_decimal? h.day⟩

end HasDigits

/-- What has the shape of a date and is read as one is written in ASCII digits. -/
theorem hasDigits_of_isoForm? (hy : AreDigits 4 y) (hm : AreDigits 2 m) (hd : AreDigits 2 d)
    (h : isoForm? (joined y m d ++ rest) = some date) : HasDigits date y m d := by
  rw [isoForm?_joined hy hm hd] at h
  simp only [Option.bind_eq_some_iff, Option.map_eq_some_iff] at h
  obtain ⟨year, hyear, month, hmonth, day, hday, rfl⟩ := h
  exact ⟨⟨hy.1, hm.1, hd.1⟩, hyear, hmonth, hday⟩

/-- Both tests together let exactly the written forms of days of the calendar pass. -/
theorem isDate_iff : t.isDate = true ↔
    ∃ date y m d, HasDigits date y m d ∧ date.isReal = true ∧ t = joined y m d := by
  simp only [Text.isDate, Bool.and_eq_true, hasShape_iff, Option.isSome_iff_exists, ofIso?, bind,
    Option.bind_eq_some_iff]
  constructor
  · rintro ⟨⟨y, m, d, hy, hm, hd, hshape⟩, date, octets, hoctets, hiso⟩
    split at hiso
    · next hlength =>
      obtain ⟨hform, hreal⟩ := Option.filter_eq_some_iff.mp hiso
      rcases hshape with rfl | rfl
      · rw [← List.append_nil (joined y m d)] at hform
        exact ⟨date, y, m, d, hasDigits_of_isoForm? hy hm hd hform, hreal, rfl⟩
      · -- With the line feed the text is an octet too long.
        obtain ⟨hten, hascii⟩ := (hasDigits_of_isoForm? hy hm hd hform).isAscii
        have hfeed : ∀ c ∈ ("\n" : Text), c.value < 0x80 := by decide
        obtain ⟨eleven, he, hl⟩ := Utf8.exists_encode? (List.forall_mem_append.mpr ⟨hascii, hfeed⟩)
        obtain rfl := Option.some.inj (he.symm.trans hoctets)
        rw [hl, List.length_append, hten] at hlength
        exact absurd hlength (by decide)
    · simp at hiso
  · rintro ⟨date, y, m, d, h, hreal, rfl⟩
    obtain ⟨hy, hm, hd⟩ := h.areDigits
    obtain ⟨hten, hascii⟩ := h.isAscii
    obtain ⟨octets, hoctets, hl⟩ := Utf8.exists_encode? hascii
    refine ⟨⟨y, m, d, hy, hm, hd, .inl rfl⟩, date, octets, hoctets, ?_⟩
    have hform : isoForm? (joined y m d) = some date := by
      rw [← List.append_nil (joined y m d), isoForm?_joined hy hm hd, h.year, h.month, h.day]
      rfl
    rw [if_pos (by simp [hl, hten]), hform]
    exact Option.filter_eq_some_iff.mpr ⟨rfl, hreal⟩

/-- The digits of a date are these eight. -/
theorem HasDigits.exists_eq (h : HasDigits date y m d) : ∃ y₁ y₂ y₃ y₄ m₁ m₂ d₁ d₂ : CodePoint,
    y = [y₁, y₂, y₃, y₄] ∧ m = [m₁, m₂] ∧ d = [d₁, d₂] := by
  obtain ⟨hy, hm, hd⟩ := h.lengths
  match y, m, d, hy, hm, hd with
  | [y₁, y₂, y₃, y₄], [m₁, m₂], [d₁, d₂], _, _, _ =>
    exact ⟨y₁, y₂, y₃, y₄, m₁, m₂, d₁, d₂, rfl, rfl, rfl⟩

/-- The written form of a day of the calendar is read as that day, and nothing else is read. -/
theorem ofText?_eq_some : ofText? t = some date ↔
    ∃ y m d, HasDigits date y m d ∧ date.isReal = true ∧ t = joined y m d := by
  constructor
  · intro h
    unfold ofText? at h
    split at h
    · next y₁ y₂ y₃ y₄ h₁ m₁ m₂ h₂ d₁ d₂ =>
      split at h
      · next hh =>
        obtain ⟨rfl, rfl⟩ := hh
        split at h
        · next year month day hy hm hd =>
          dsimp only at h
          split at h
          · next hreal =>
            obtain rfl := Option.some.inj h
            exact ⟨_, _, _, ⟨⟨rfl, rfl, rfl⟩, hy, hm, hd⟩, hreal, rfl⟩
          · simp at h
        · simp at h
      · simp at h
    · simp at h
  · rintro ⟨y, m, d, h, hreal, rfl⟩
    obtain ⟨y₁, y₂, y₃, y₄, m₁, m₂, d₁, d₂, rfl, rfl, rfl⟩ := h.exists_eq
    simp [joined, Text.ofString, ofText?, h.year, h.month, h.day, hreal]

/-! ### The days of the calendar -/

/-- The numbers of days of the months of a year. -/
def monthLengths (year : Nat) : List Nat :=
  let february := if (year % 4 = 0 ∧ year % 100 ≠ 0) ∨ year % 400 = 0 then 29 else 28
  [31, february, 31, 30, 31, 30, 31, 31, 30, 31, 30, 31]

/-- A day of the Gregorian calendar that has a written form. -/
structure IsDay (date : Date) : Prop where
  /-- Years have at most four digits, and there is no year 0. -/
  year : 1 ≤ date.year ∧ date.year ≤ 9999
  /-- Months have a number of days, and days are counted from 1. -/
  day : 1 ≤ date.month ∧ 1 ≤ date.day ∧
    ∃ last, (monthLengths date.year)[date.month - 1]? = some last ∧ date.day ≤ last

/-- A leap year is a fourth year, but of the hundredth years only the fourth is one. -/
theorem isLeapYear_iff {year : Nat} : isLeapYear year = true ↔
    (year % 4 = 0 ∧ year % 100 ≠ 0) ∨ year % 400 = 0 := by
  simp only [isLeapYear, Bool.and_eq_true, Bool.or_eq_true, decide_eq_true_eq, bne_iff_ne]
  omega

/-- The number of days of a month is the one in the table. -/
theorem monthLengths_getElem? {year month : Nat} (hl : 1 ≤ month) (hu : month ≤ 12) :
    (monthLengths year)[month - 1]? = some (daysInMonth year month) := by
  simp only [daysInMonth, isLeapYear_iff]
  interval_cases month <;> rfl

/-- The days that are real are those of the calendar. -/
theorem isReal_iff : date.isReal = true ↔ date.IsDay := by
  simp only [isReal, Bool.and_eq_true, decide_eq_true_eq]
  constructor
  · rintro ⟨⟨⟨⟨⟨hy, hy'⟩, hm⟩, hm'⟩, hd⟩, hd'⟩
    exact ⟨⟨hy, hy'⟩, hm, hd, _, monthLengths_getElem? hm hm', hd'⟩
  · rintro ⟨⟨hy, hy'⟩, hm, hd, last, hlast, hd'⟩
    obtain ⟨hin, -⟩ := List.getElem?_eq_some_iff.mp hlast
    have hm' : date.month ≤ 12 := by
      have hlength : (monthLengths date.year).length = 12 := rfl
      omega
    rw [monthLengths_getElem? hm hm', Option.some.injEq] at hlast
    exact ⟨⟨⟨⟨⟨hy, hy'⟩, hm⟩, hm'⟩, hd⟩, hlast ▸ hd'⟩

end Date

/-- A text is four, two and two ASCII digits with hyphens between them, and these are the year, the
month and the day of a day of the calendar. -/
def Text.NamesDay (t : Text) : Prop :=
  ∃ a b c d e f g h : Fin 10,
    Date.IsDay ⟨1000 * a + 100 * b + 10 * c + d, 10 * e + f, 10 * g + h⟩ ∧
    t = [a, b, c, d].map Numeral.digit ++ ("-" : Text) ++ [e, f].map Numeral.digit ++
      ("-" : Text) ++ [g, h].map Numeral.digit

/-- A text passes both tests exactly when it names a day of the calendar. -/
theorem Text.isDate_iff_namesDay {t : Text} : t.isDate = true ↔ t.NamesDay := by
  rw [Date.isDate_iff]
  constructor
  · rintro ⟨date, y, m, d, h, hreal, rfl⟩
    obtain ⟨ys, -, rfl, hyear⟩ := Numeral.decimal?_eq_some.mp h.year
    obtain ⟨ms, -, rfl, hmonth⟩ := Numeral.decimal?_eq_some.mp h.month
    obtain ⟨ds, -, rfl, hday⟩ := Numeral.decimal?_eq_some.mp h.day
    obtain ⟨hy, hm, hd⟩ := h.lengths
    clear h
    rw [List.length_map] at hy hm hd
    match ys, ms, ds, hy, hm, hd with
    | [a, b, c, d], [e, f], [g, h], _, _, _ =>
      refine ⟨a, b, c, d, e, f, g, h, ?_, rfl⟩
      rw [Numeral.valueOf_four] at hyear
      rw [Numeral.valueOf_two] at hmonth hday
      rw [← hyear, ← hmonth, ← hday]
      exact Date.isReal_iff.mp hreal
  · rintro ⟨a, b, c, d, e, f, g, h, hday, rfl⟩
    refine ⟨_, _, _, _, ⟨⟨rfl, rfl, rfl⟩, ?_, ?_, ?_⟩, Date.isReal_iff.mpr hday, rfl⟩
    · rw [Numeral.decimal?_map_digit (by simp), Numeral.valueOf_four]
    · rw [Numeral.decimal?_map_digit (by simp), Numeral.valueOf_two]
    · rw [Numeral.decimal?_map_digit (by simp), Numeral.valueOf_two]

/-- A text passes both tests exactly when it is the written form of a day of the calendar. -/
theorem Text.isDate_eq (t : Text) : t.isDate = (Date.ofText? t).isSome := by
  rw [Bool.eq_iff_iff, Date.isDate_iff, Option.isSome_iff_exists]
  simp only [Date.ofText?_eq_some]

end ZodSchemas
