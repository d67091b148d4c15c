import ZodSchemas.Proofs.Value.Keys
import ZodSchemas.Proofs.Value.Printed
import ZodSchemas.Proofs.Value.Unescaped

/-!
# Written JSON reads back

The reader takes a written value off the front of a text and leaves what stands
behind it. Only a number would go on into the rest, so the rest must not start
with what continues a number; the marks between and behind the parts of a
container do not. Strings must be joined and the names of a mapping different,
and numbers with a fraction or an exponent are left aside.
-/

namespace ZodSchemas

namespace Text

variable {p : CodePoint → Bool} {front rest : Text}

/-- A front of code points of a kind is all of that kind when the next one is not. -/
theorem takeWhile_front (hf : ∀ c ∈ front, p c = true) (hr : ∀ c ∈ rest.head?, p c = false) :
    (front ++ rest).takeWhile p = front := by
  rw [List.takeWhile_append_of_pos hf]
  cases rest with
  | nil => simp
  | cons c rest => simp [hr c rfl]

/-- Behind a front of code points of a kind stands the next one that is not. -/
theorem dropWhile_front (hf : ∀ c ∈ front, p c = true) (hr : ∀ c ∈ rest.head?, p c = false) :
    (front ++ rest).dropWhile p = rest := by
  rw [List.dropWhile_append_of_pos hf]
  cases rest with
  | nil => rfl
  | cons c rest => simp [hr c rfl]

end Text

namespace Numeral

/-- A decimal number has at least one digit. -/
theorem decimal_ne_nil (n : Nat) : decimal n ≠ [] := by
  simp [decimal, Text.ofChars, Nat.toDigits_ne_nil]

/-- A decimal number starts with a digit. -/
theorem exists_decimal_eq_cons (n : Nat) :
    ∃ c digits, decimal n = c :: digits ∧ c.isDigit = true := by
  obtain ⟨c, digits, hc⟩ := List.exists_cons_of_ne_nil (decimal_ne_nil n)
  exact ⟨c, digits, hc, isDigit_of_mem_decimal (n := n) (by simp [hc])⟩

/-- An integer starts with a sign or with a digit. -/
theorem exists_integer_eq_cons (n : Int) :
    ∃ c digits, integer n = c :: digits ∧ (c = ('-' : CodePoint) ∨ c.isDigit = true) := by
  cases n with
  | ofNat m =>
    obtain ⟨c, digits, hc, hd⟩ := exists_decimal_eq_cons m
    exact ⟨c, digits, hc, .inr hd⟩
  | negSucc m => exact ⟨_, _, rfl, .inl rfl⟩

/-- The digits of a decimal number denote it. -/
theorem decimal?_decimal (n : Nat) : decimal? (decimal n) = some n := by
  have hne : (decimal n).isEmpty = false := by simp [decimal_ne_nil]
  have hall : (decimal n).all CodePoint.isDigit = true :=
    List.all_eq_true.mpr fun c hc => isDigit_of_mem_decimal hc
  have hvalue : valueOf 10 ((decimal n).map fun c => c.value - 0x30) = n := by
    refine Eq.trans ?_ (Nat.ofDigitChars_ten_toDigits (n := n))
    simp only [valueOf, decimal, Text.ofChars, List.map_map, List.foldl_map, Nat.ofDigitChars,
      Function.comp_apply, CodePoint.value_ofChar, Nat.mul_comm 10]
    rfl
  rw [decimal?, if_neg (by simp [hne]), if_pos hall, hvalue]

/-- Only zero is written with a zero in front. -/
theorem eq_zero_of_head_decimal {n : Nat} (h : (decimal n).head? = some ('0' : CodePoint)) :
    n = 0 := by
  induction n using Nat.strongRecOn with
  | ind n ih =>
    by_cases hn : n < 10
    · have digits : ∀ n < 10, (decimal n).head? = some ('0' : CodePoint) → n = 0 := by decide
      exact digits n hn h
    · have hsplit : decimal n = decimal (n / 10) ++ [CodePoint.ofChar (n % 10).digitChar] := by
        simp only [decimal, Text.ofChars, Nat.toDigits_of_base_le (by decide : 1 < 10)
          (Nat.not_lt.mp hn), List.map_append, List.map_cons, List.map_nil]
      rw [hsplit, List.head?_append_of_ne_nil _ (decimal_ne_nil _)] at h
      have := ih (n / 10) (by omega) h
      omega

end Numeral

namespace Json

/-- What follows a number and is no part of it: no digit, no point and no exponent. -/
def EndsNumber (t : Text) : Prop :=
  ∀ c ∈ t.head?, c.isDigit = false ∧
    c ≠ ('.' : CodePoint) ∧ c ≠ ('e' : CodePoint) ∧ c ≠ ('E' : CodePoint)

variable {rest : Text}

/-- One code point that is no part of a number suffices. -/
theorem endsNumber_cons {c : CodePoint} (h : c.isDigit = false ∧
    c ≠ ('.' : CodePoint) ∧ c ≠ ('e' : CodePoint) ∧ c ≠ ('E' : CodePoint)) :
    EndsNumber (c :: rest) := fun _ hd => Option.some.inj hd ▸ h

/-- The digits in front of what follows a number are the whole number. -/
theorem splitWhole_decimal (n : Nat) (h : EndsNumber rest) :
    splitWhole (Numeral.decimal n ++ rest) = (Numeral.decimal n, rest) := by
  have hdigits : ∀ c ∈ Numeral.decimal n, c.isDigit = true := fun c =>
    Numeral.isDigit_of_mem_decimal
  have hnext : ∀ c ∈ rest.head?, c.isDigit = false := fun c hc => (h c hc).1
  have htake := Text.takeWhile_front hdigits hnext
  have hdrop := Text.dropWhile_front hdigits hnext
  obtain ⟨c, digits, hc⟩ := List.exists_cons_of_ne_nil (Numeral.decimal_ne_nil n)
  by_cases hz : c = ('0' : CodePoint)
  · obtain rfl : n = 0 := Numeral.eq_zero_of_head_decimal (by rw [hc, hz]; rfl)
    rfl
  · rw [hc] at htake hdrop ⊢
    rw [List.cons_append] at htake hdrop ⊢
    rw [splitWhole, if_neg hz, htake, hdrop]

/-- What follows a number is no fraction. -/
theorem splitFraction_eq (h : EndsNumber rest) : splitFraction rest = ([], rest) := by
  match rest with
  | [] => rfl
  | [c] => rfl
  | point :: digit :: rest =>
    rw [splitFraction, if_neg fun hp => (h point rfl).2.1 hp.1]

/-- What follows a number is no exponent. -/
theorem splitExponent_eq (h : EndsNumber rest) : splitExponent rest = (none, rest) := by
  cases rest with
  | nil => rfl
  | cons c rest =>
    rw [splitExponent.eq_def]
    exact if_neg (not_or.mpr (h c rfl).2.2)

/-- A written integer is read as a number. -/
theorem readNumber_integer {n : Int} (hl : (Numeral.decimal n.natAbs).length ≤ Numeral.digitLimit)
    (h : EndsNumber rest) : readNumber (Numeral.integer n ++ rest) = .ok (.int n, rest) := by
  have whole : ∀ m : Nat, (Numeral.decimal m).length ≤ Numeral.digitLimit →
      ¬(Numeral.decimal m).length > Numeral.digitLimit := fun m => Nat.not_lt.mpr
  cases n with
  | ofNat m =>
    obtain ⟨c, digits, hc, hdigit⟩ := Numeral.exists_decimal_eq_cons m
    have hsign : c ≠ ('-' : CodePoint) := by
      rintro rfl
      exact absurd hdigit (by decide)
    have hfirst : Numeral.integer (.ofNat m) ++ rest = c :: (digits ++ rest) := by
      rw [Numeral.integer, hc, List.cons_append]
    rw [readNumber.eq_def, hfirst]
    simp only [if_neg hsign]
    rw [← List.cons_append, ← hc]
    simp only [splitWhole_decimal m h, Numeral.decimal?_decimal, splitFraction_eq h,
      splitExponent_eq h, List.isEmpty_nil, Option.isNone_none, and_self, if_true,
      if_neg (whole m hl)]
    rfl
  | negSucc m =>
    have hfirst : Numeral.integer (.negSucc m) ++ rest =
        ('-' : CodePoint) :: (Numeral.decimal (m + 1) ++ rest) := rfl
    rw [readNumber.eq_def, hfirst]
    simp only [if_true]
    simp only [splitWhole_decimal (m + 1) h, Numeral.decimal?_decimal, splitFraction_eq h,
      splitExponent_eq h, List.isEmpty_nil, Option.isNone_none, and_self, if_true,
      if_neg (whole (m + 1) hl)]
    rfl

/-- A number starts with a digit, perhaps behind a sign. -/
theorem exists_digit_integer (n : Int) (rest : Text) :
    ∃ k < 2, ∃ c, (Numeral.integer n ++ rest)[k]? = some c ∧ c.isDigit = true := by
  cases n with
  | ofNat m =>
    obtain ⟨c, digits, hc, hd⟩ := Numeral.exists_decimal_eq_cons m
    exact ⟨0, by decide, c, by simp [Numeral.integer, hc], hd⟩
  | negSucc m =>
    obtain ⟨c, digits, hc, hd⟩ := Numeral.exists_decimal_eq_cons (m + 1)
    exact ⟨1, by decide, c, by simp [Numeral.integer, hc], hd⟩

/-- A written integer is no word. -/
theorem readAtom_integer (n : Int) (rest : Text) :
    readAtom (Numeral.integer n ++ rest) = readNumber (Numeral.integer n ++ rest) := by
  have letters : ∀ w ∈ words, ∀ k < 2, w.1[k]?.map CodePoint.isDigit = some false := by decide
  unfold readAtom
  split
  · next reading hfound =>
    obtain ⟨w, hm, hw⟩ := List.exists_of_findSome?_eq_some hfound
    obtain ⟨after, ha, -⟩ := Option.map_eq_some_iff.mp hw
    have hword := List.isPrefixOf?_eq_some_iff_append_eq.mp ha
    obtain ⟨k, hk, c, hc, hd⟩ := exists_digit_integer n rest
    obtain ⟨d, hdk, hletter⟩ := Option.map_eq_some_iff.mp (letters w hm k hk)
    obtain ⟨hlt, -⟩ := List.getElem?_eq_some_iff.mp hdk
    rw [← hword, List.getElem?_append_left hlt, hdk] at hc
    obtain rfl := Option.some.inj hc
    exact absurd (hletter.symm.trans hd) Bool.false_ne_true
  · rfl

end Json

namespace Value

/-- A value that can be read off its written form: one that JSON expresses, without numbers that
have a fraction or an exponent, and with joined texts only. -/
inductive IsLegible : Value → Prop where
  /-- No value. -/
  | null : IsLegible .null
  /-- A truth value. -/
  | bool (b : Bool) : IsLegible (.bool b)
  /-- An integer. -/
  | int (n : Int) : IsLegible (.int n)
  /-- A joined text. -/
  | text {t : Text} (joined : t.IsJoined) : IsLegible (.text t)
  /-- A list of such values. -/
  | list {items : List Value} (values : ∀ v ∈ items, IsLegible v) : IsLegible (.list items)
  /-- A mapping from different joined texts to such values. -/
  | map {entries : List (Key × Value)}
      (texts : ∀ e ∈ entries, ∃ t : Text, e.1 = .text t ∧ t.IsJoined)
      (differ : KeysDiffer (Entries.keys entries)) (values : ∀ e ∈ entries, IsLegible e.2) :
      IsLegible (.map entries)

end Value

namespace Json

/-- A written value starts with what is neither a blank nor the end of a list. -/
def StartsValue (t : Text) : Prop :=
  ∃ c tail, t = c :: tail ∧ isBlank c = false ∧ c ≠ (']' : CodePoint)

/-- What starts with a value starts a value. -/
theorem StartsValue.append {t : Text} (h : StartsValue t) (rest : Text) :
    StartsValue (t ++ rest) := by
  obtain ⟨c, tail, rfl, hc⟩ := h
  exact ⟨c, tail ++ rest, rfl, hc⟩

/-- There are no blanks in front of a value. -/
theorem StartsValue.skipBlanks {t : Text} (h : StartsValue t) : skipBlanks t = t := by
  obtain ⟨c, tail, rfl, hc, -⟩ := h
  simp [Json.skipBlanks, hc]

/-- Written values start as values do. -/
theorem startsValue_write {v : Value} {t : Text} (hv : v.IsLegible) (h : write v = .ok t) :
    StartsValue t := by
  cases hv with
  | null =>
    obtain rfl := Except.ok.inj h
    exact ⟨_, _, rfl, by decide⟩
  | bool b =>
    obtain rfl := Except.ok.inj h
    cases b <;> exact ⟨_, _, rfl, by decide⟩
  | int n =>
    obtain ⟨-, rfl⟩ := writeInteger_eq_ok.mp h
    obtain ⟨c, digits, hc, rfl | hd⟩ := Numeral.exists_integer_eq_cons n
    · exact ⟨_, digits, hc, by decide⟩
    · refine ⟨c, digits, hc, ?_, ?_⟩
      · simp only [CodePoint.isDigit, Bool.and_eq_true, decide_eq_true_eq] at hd
        simp only [isBlank, Bool.or_eq_false_iff, decide_eq_false_iff_not]
        omega
      · rintro rfl
        exact absurd hd (by decide)
  | text =>
    obtain rfl := Except.ok.inj h
    exact ⟨_, _, rfl, by decide⟩
  | list =>
    rw [write] at h
    obtain ⟨parts, -, h⟩ := exceptBind_eq_ok.mp h
    obtain rfl := Except.ok.inj h
    exact ⟨_, _, rfl, by decide⟩
  | map =>
    rw [write] at h
    obtain ⟨parts, -, h⟩ := exceptBind_eq_ok.mp h
    obtain rfl := Except.ok.inj h
    exact ⟨_, _, rfl, by decide⟩

section Steps

variable {fuel : Nat} {t more rest : Text} {v : Value} {items : List Value}

/-- The last item of a list is read up to the closing bracket. -/
theorem readItems_last (h : readValue fuel t = .ok (v, (']' : CodePoint) :: rest)) :
    readItems (fuel + 1) t = .ok ([v], rest) := by
  have hb : skipBlanks ((']' : CodePoint) :: rest) = (']' : CodePoint) :: rest := rfl
  rw [readItems, h]
  simp only [bind, Except.bind, hb, if_true]

/-- Any other item is read up to a comma, and then the items behind it. -/
theorem readItems_next
    (h : readValue fuel t = .ok (v, (',' : CodePoint) :: (' ' : CodePoint) :: more))
    (hm : StartsValue more) (hi : readItems fuel more = .ok (items, rest)) :
    readItems (fuel + 1) t = .ok (v :: items, rest) := by
  have hb : ∀ t : Text, skipBlanks ((',' : CodePoint) :: t) = (',' : CodePoint) :: t := fun _ => rfl
  have hs : skipBlanks ((' ' : CodePoint) :: more) = more := hm.skipBlanks
  have hc : (',' : CodePoint) ≠ (']' : CodePoint) := by decide
  rw [readItems, h]
  simp only [bind, Except.bind, hb, if_neg hc, if_true, hs, hi]

/-- A list with items is read item by item. -/
theorem readValue_list (ht : StartsValue t) (h : readItems fuel t = .ok (items, rest)) :
    readValue (fuel + 1) (('[' : CodePoint) :: t) = .ok (.list items, rest) := by
  obtain ⟨c, tail, rfl, hb, hc⟩ := ht
  have hs : skipBlanks (c :: tail) = c :: tail := StartsValue.skipBlanks ⟨c, tail, rfl, hb, hc⟩
  have hq : ('[' : CodePoint) ≠ ('\"' : CodePoint) := by decide
  have hbrace : ('[' : CodePoint) ≠ ('\x7b' : CodePoint) := by decide
  rw [readValue]
  simp only [if_neg hq, if_neg hbrace, if_true, hs, if_neg hc, h]
  rfl

/-- The last entry of a mapping is read up to the closing brace. -/
theorem readEntries_last {name : Text} (hn : name.IsJoined) (hm : StartsValue more)
    (h : readValue fuel more = .ok (v, ('\x7d' : CodePoint) :: rest)) :
    readEntries (fuel + 1) (writeText name ++ (": " ++ more)) = .ok ([(.text name, v)], rest) := by
  have hb : skipBlanks (('\x7d' : CodePoint) :: rest) = ('\x7d' : CodePoint) :: rest := rfl
  have hcolon : skipBlanks (": " ++ more) = (':' : CodePoint) :: (' ' : CodePoint) :: more := rfl
  have hs : skipBlanks ((' ' : CodePoint) :: more) = more := hm.skipBlanks
  have hname := readText_writeText hn (": " ++ more)
  rw [writeText_append] at hname ⊢
  rw [readEntries]
  simp only [if_true, hname, bind, Except.bind, hcolon, hs, h, hb]

/-- Any other entry is read up to a comma, and then the entries behind it. -/
theorem readEntries_next {name after : Text} {entries : List (Key × Value)} (hn : name.IsJoined)
    (hm : StartsValue more)
    (h : readValue fuel more = .ok (v, (',' : CodePoint) :: (' ' : CodePoint) :: after))
    (ha : StartsValue after) (he : readEntries fuel after = .ok (entries, rest)) :
    readEntries (fuel + 1) (writeText name ++ (": " ++ more)) =
      .ok ((.text name, v) :: entries, rest) := by
  have hb : ∀ t : Text, skipBlanks ((',' : CodePoint) :: t) = (',' : CodePoint) :: t := fun _ => rfl
  have hc : (',' : CodePoint) ≠ ('\x7d' : CodePoint) := by decide
  have hcolon : skipBlanks (": " ++ more) = (':' : CodePoint) :: (' ' : CodePoint) :: more := rfl
  have hs : skipBlanks ((' ' : CodePoint) :: more) = more := hm.skipBlanks
  have hafter : skipBlanks ((' ' : CodePoint) :: after) = after := ha.skipBlanks
  have hname := readText_writeText hn (": " ++ more)
  rw [writeText_append] at hname ⊢
  rw [readEntries]
  simp only [if_true, hname, bind, Except.bind, hcolon, hs, h, hb, if_neg hc, hafter, he]

/-- A mapping with entries is read entry by entry. -/
theorem readValue_map {name : Text} {entries : List (Key × Value)}
    (h : readEntries fuel (writeText name ++ more) = .ok (entries, rest)) :
    readValue (fuel + 1) (('\x7b' : CodePoint) :: (writeText name ++ more)) =
      .ok (.map (Entries.ofPairs entries), rest) := by
  have hs : ∀ t : Text, skipBlanks (('\"' : CodePoint) :: t) = ('\"' : CodePoint) :: t :=
    fun _ => rfl
  have hq : ('\x7b' : CodePoint) ≠ ('\"' : CodePoint) := by decide
  have hc : ('\"' : CodePoint) ≠ ('\x7d' : CodePoint) := by decide
  rw [writeText_append] at h ⊢
  rw [readValue]
  simp only [if_neg hq, if_true, hs, if_neg hc, h]
  rfl

end Steps

/-- An integer is no string, no mapping and no list. -/
theorem readValue_integer (n : Int) (fuel : Nat) (rest : Text) :
    readValue (fuel + 1) (Numeral.integer n ++ rest) = readAtom (Numeral.integer n ++ rest) := by
  obtain ⟨c, digits, hc, hs⟩ := Numeral.exists_integer_eq_cons n
  have other : ∀ d : CodePoint, d ≠ ('-' : CodePoint) → d.isDigit = false → c ≠ d := by
    rintro d hsign hdigit rfl
    rcases hs with hs | hs
    · exact hsign hs
    · exact Bool.false_ne_true (hdigit.symm.trans hs)
  have hq : c ≠ ('\"' : CodePoint) := other _ (by decide) (by decide)
  have hbrace : c ≠ ('\x7b' : CodePoint) := other _ (by decide) (by decide)
  have hbracket : c ≠ ('[' : CodePoint) := other _ (by decide) (by decide)
  rw [hc, List.cons_append, readValue]
  simp only [if_neg hq, if_neg hbrace, if_neg hbracket]

/-- A written value without parts is read back. -/
theorem readValue_writeKey {key : Key} {t rest : Text} (hv : (Value.atom key).IsLegible)
    (h : writeKey key = .ok t) (fuel : Nat) (hr : EndsNumber rest) :
    readValue (fuel + 1) (t ++ rest) = .ok (.atom key, rest) := by
  cases hv with
  | null =>
    obtain rfl := Except.ok.inj h
    rfl
  | bool b =>
    obtain rfl := Except.ok.inj h
    cases b <;> rfl
  | int n =>
    obtain ⟨hl, rfl⟩ := writeInteger_eq_ok.mp h
    rw [readValue_integer, readAtom_integer]
    exact readNumber_integer hl hr
  | text hj =>
    obtain rfl := Except.ok.inj h
    have hname := readText_writeText hj rest
    rw [writeText_append] at hname ⊢
    rw [readValue]
    simp only [if_true, hname]
    rfl

/-- Items between brackets. -/
theorem bracketed_append (parts : List Text) (rest : Text) : bracketed parts ++ rest =
    ('[' : CodePoint) :: (List.intercalate ", " parts ++ (']' : CodePoint) :: rest) := by
  simp only [bracketed, List.append_assoc]
  rfl

/-- Entries between braces. -/
theorem braced_append (parts : List Text) (rest : Text) : braced parts ++ rest =
    ('\x7b' : CodePoint) :: (List.intercalate ", " parts ++ ('\x7d' : CodePoint) :: rest) := by
  simp only [braced, List.append_assoc]
  rfl

/-- Brackets are two code points. -/
theorem length_bracketed (parts : List Text) :
    (bracketed parts).length = (List.intercalate ", " parts).length + 2 := by
  simpa using congrArg List.length (bracketed_append parts [])

/-- Braces are two code points. -/
theorem length_braced (parts : List Text) :
    (braced parts).length = (List.intercalate ", " parts).length + 2 := by
  simpa using congrArg List.length (braced_append parts [])

/-- A comma and a blank stand between the first of several parts and the others. -/
theorem intercalate_cons {part : Text} {parts : List Text} (h : parts ≠ []) :
    List.intercalate ", " (part :: parts) =
      part ++ (',' : CodePoint) :: (' ' : CodePoint) :: List.intercalate ", " parts := by
  rw [List.intercalate_cons_of_ne_nil h, List.append_assoc]
  rfl

/-- Items are written as parts. -/
theorem ne_nil_of_writeItems {v : Value} {items : List Value} {parts : List Text}
    (h : writeItems (v :: items) = .ok parts) : parts ≠ [] := by
  rw [writeItems] at h
  obtain ⟨part, -, h⟩ := exceptBind_eq_ok.mp h
  obtain ⟨others, -, h⟩ := exceptBind_eq_ok.mp h
  obtain rfl := Except.ok.inj h
  simp

/-- Entries are written as parts. -/
theorem ne_nil_of_writeEntries {e : Key × Value} {entries : List (Key × Value)}
    {parts : List Text} (h : writeEntries (e :: entries) = .ok parts) : parts ≠ [] := by
  rw [writeEntries] at h
  obtain ⟨name, -, h⟩ := exceptBind_eq_ok.mp h
  obtain ⟨part, -, h⟩ := exceptBind_eq_ok.mp h
  obtain ⟨others, -, h⟩ := exceptBind_eq_ok.mp h
  obtain rfl := Except.ok.inj h
  simp

mutual

/-- A written value is read back, whatever follows that is no part of a number. -/
theorem readValue_write : ∀ (v : Value) (t : Text), v.IsLegible → write v = .ok t →
    ∀ (fuel : Nat) (rest : Text), t.length < fuel → EndsNumber rest →
      readValue fuel (t ++ rest) = .ok (v, rest)
  | _, _, _, _, 0, _, hf, _ => absurd hf (Nat.not_lt_zero _)
  | .atom key, t, hv, h, fuel + 1, rest, _, hr => by
    rw [write] at h
    exact readValue_writeKey hv h fuel hr
  | .list [], t, hv, h, fuel + 1, rest, _, _ => by
    rw [write, writeItems] at h
    obtain rfl := Except.ok.inj h
    rfl
  | .list (v :: items), t, .list hv, h, fuel + 1, rest, hf, _ => by
    rw [write] at h
    obtain ⟨parts, hp, h⟩ := exceptBind_eq_ok.mp h
    obtain rfl := Except.ok.inj h
    rw [length_bracketed] at hf
    obtain ⟨hstart, hread⟩ := readItems_writeItems v items parts hv hp fuel rest (by omega)
    rw [bracketed_append]
    exact readValue_list (hstart.append _) hread
  | .map [], t, hv, h, fuel + 1, rest, _, _ => by
    rw [write, writeEntries] at h
    obtain rfl := Except.ok.inj h
    rfl
  | .map ((key, v) :: entries), t, .map ht hd hv, h, fuel + 1, rest, hf, _ => by
    rw [write] at h
    obtain ⟨parts, hp, h⟩ := exceptBind_eq_ok.mp h
    obtain rfl := Except.ok.inj h
    rw [length_braced] at hf
    obtain ⟨⟨name, more, hname⟩, hread⟩ :=
      readEntries_writeEntries key v entries parts ht hv hp fuel rest (by omega)
    rw [braced_append, hname]
    rw [hname] at hread
    rw [readValue_map hread, Entries.ofPairs_eq_self hd]
  | .pair a b, _, hv, _, _ + 1, _, _, _ => nomatch hv
  | .set items, _, hv, _, _ + 1, _, _, _ => nomatch hv
  | .knot ties n, _, hv, _, _ + 1, _, _, _ => nomatch hv

/-- Written items are read back up to the closing bracket. -/
theorem readItems_writeItems : ∀ (v : Value) (items : List Value) (parts : List Text),
    (∀ w ∈ v :: items, w.IsLegible) → writeItems (v :: items) = .ok parts →
    ∀ (fuel : Nat) (rest : Text), (List.intercalate ", " parts).length + 1 < fuel →
      StartsValue (List.intercalate ", " parts) ∧
      readItems fuel (List.intercalate ", " parts ++ (']' : CodePoint) :: rest) =
        .ok (v :: items, rest)
  | _, _, _, _, _, 0, _, hf => absurd hf (Nat.not_lt_zero _)
  | v, items, parts, hv, h, fuel + 1, rest, hf => by
    rw [writeItems] at h
    obtain ⟨part, hp, h⟩ := exceptBind_eq_ok.mp h
    obtain ⟨others, ho, h⟩ := exceptBind_eq_ok.mp h
    obtain rfl := Except.ok.inj h
    obtain ⟨hfirst, hothers⟩ := List.forall_mem_cons.mp hv
    have hstart := startsValue_write hfirst hp
    cases items with
    | nil =>
      obtain rfl := Except.ok.inj ho
      rw [List.intercalate_singleton] at hf ⊢
      exact ⟨hstart, readItems_last
        (readValue_write v part hfirst hp fuel _ (by omega) (endsNumber_cons (by decide)))⟩
    | cons w items =>
      rw [intercalate_cons (ne_nil_of_writeItems ho)] at hf ⊢
      simp only [List.length_append, List.length_cons] at hf
      obtain ⟨hnext, hread⟩ := readItems_writeItems w items others hothers ho fuel rest (by omega)
      refine ⟨hstart.append _, ?_⟩
      rw [List.append_assoc, List.cons_append, List.cons_append]
      refine readItems_next ?_ (hnext.append _) hread
      exact readValue_write v part hfirst hp fuel _ (by omega) (endsNumber_cons (by decide))

/-- Written entries are read back up to the closing brace. -/
theorem readEntries_writeEntries : ∀ (key : Key) (v : Value) (entries : List (Key × Value))
    (parts : List Text), (∀ e ∈ (key, v) :: entries, ∃ t : Text, e.1 = .text t ∧ t.IsJoined) →
    (∀ e ∈ (key, v) :: entries, e.2.IsLegible) → writeEntries ((key, v) :: entries) = .ok parts →
    ∀ (fuel : Nat) (rest : Text), (List.intercalate ", " parts).length + 1 < fuel →
      (∃ name more, List.intercalate ", " parts ++ ('\x7d' : CodePoint) :: rest =
        writeText name ++ more) ∧
      readEntries fuel (List.intercalate ", " parts ++ ('\x7d' : CodePoint) :: rest) =
        .ok ((key, v) :: entries, rest)
  | _, _, _, _, _, _, _, 0, _, hf => absurd hf (Nat.not_lt_zero _)
  | key, v, entries, parts, ht, hv, h, fuel + 1, rest, hf => by
    rw [writeEntries] at h
    obtain ⟨written, hn, h⟩ := exceptBind_eq_ok.mp h
    obtain ⟨part, hp, h⟩ := exceptBind_eq_ok.mp h
    obtain ⟨others, ho, h⟩ := exceptBind_eq_ok.mp h
    obtain rfl := Except.ok.inj h
    obtain ⟨⟨name, rfl, hname⟩, hnames⟩ := List.forall_mem_cons.mp ht
    obtain ⟨hfirst, hothers⟩ := List.forall_mem_cons.mp hv
    obtain rfl := Except.ok.inj hn
    have hstart := startsValue_write hfirst hp
    cases entries with
    | nil =>
      obtain rfl := Except.ok.inj ho
      rw [List.intercalate_singleton] at hf ⊢
      rw [writeEntry, List.length_append] at hf
      rw [writeEntry, List.append_assoc, List.append_assoc]
      refine ⟨⟨name, _, rfl⟩, readEntries_last hname (hstart.append _) ?_⟩
      exact readValue_write v part hfirst hp fuel _ (by omega) (endsNumber_cons (by decide))
    | cons e entries =>
      rw [intercalate_cons (ne_nil_of_writeEntries ho)] at hf ⊢
      simp only [writeEntry, List.length_append, List.length_cons] at hf
      obtain ⟨⟨next, more, hnext⟩, hread⟩ :=
        readEntries_writeEntries e.1 e.2 entries others hnames hothers ho fuel rest (by omega)
      have hafter : StartsValue (List.intercalate ", " others ++ ('\x7d' : CodePoint) :: rest) := by
        rw [hnext]
        exact ⟨_, _, rfl, by decide⟩
      rw [writeEntry, List.append_assoc, List.append_assoc, List.append_assoc, List.cons_append,
        List.cons_append]
      refine ⟨⟨name, _, rfl⟩, readEntries_next hname (hstart.append _) ?_ hafter hread⟩
      exact readValue_write v part hfirst hp fuel _ (by omega) (endsNumber_cons (by decide))

end

end Json

end ZodSchemas
