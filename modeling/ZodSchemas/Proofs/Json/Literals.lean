import ZodSchemas.Document
import ZodSchemas.Proofs.Value.Expressible
import ZodSchemas.Proofs.Value.Reread

/-!
# Literals

A value without numbers of double precision, of texts without surrogates and of
integers that have not too many digits, has a literal. As a document the literal
is the value again, so no two such values share one. Reading it from the left,
a quote that no backslash stands in front of opens or closes a string, and no
other quote does.
-/

namespace ZodSchemas

/-- A text without surrogates has no halves of code points in it. -/
theorem Text.isJoined_of_isEncodable {t : Text} (h : t.isEncodable = true) : t.IsJoined := by
  refine List.isChain_iff_forall_rel_of_append_cons_cons.mpr fun {c d front back} ht hcd => ?_
  have hc := List.all_eq_true.mp h c (by simp [ht])
  have hhigh := hcd.1
  simp only [CodePoint.isSurrogate, CodePoint.isHighSurrogate, Bool.not_eq_true',
    Bool.and_eq_true, Bool.and_eq_false_iff, decide_eq_true_eq, decide_eq_false_iff_not]
    at hc hhigh
  omega

namespace Value

/-- A value that is the same wherever JSON is written and read. -/
inductive IsPortable : Value → Prop where
  /-- No value. -/
  | null : IsPortable .null
  /-- A truth value. -/
  | bool (b : Bool) : IsPortable (.bool b)
  /-- An integer of at most 4300 digits. -/
  | int {n : Int} (short : (Numeral.decimal n.natAbs).length ≤ 4300) : IsPortable (.int n)
  /-- A text of scalar values. -/
  | text {t : Text} (scalars : t.isEncodable = true) : IsPortable (.text t)
  /-- A list of such values. -/
  | list {items : List Value} (values : ∀ v ∈ items, IsPortable v) : IsPortable (.list items)
  /-- A mapping from different texts of scalar values to such values. -/
  | map {entries : Entries Value}
      (texts : ∀ e ∈ entries, ∃ t : Text, e.1 = .text t ∧ t.isEncodable = true)
      (differ : KeysDiffer (Entries.keys entries)) (values : ∀ e ∈ entries, IsPortable e.2) :
      IsPortable (.map entries)

namespace IsPortable

variable {v : Value}

/-- Such a value is read back when it is written. -/
theorem isLegible (h : v.IsPortable) : v.IsLegible := by
  induction h with
  | null => exact .null
  | bool b => exact .bool b
  | int _ => exact .int _
  | text hs => exact .text (Text.isJoined_of_isEncodable hs)
  | list _ ih => exact .list ih
  | map ht hd _ ih =>
    refine .map (fun e he => ?_) hd ih
    obtain ⟨t, hk, hs⟩ := ht e he
    exact ⟨t, hk, Text.isJoined_of_isEncodable hs⟩

/-- Such a value can be written. -/
theorem isExpressible (h : v.IsPortable) : v.IsExpressible := by
  induction h with
  | null => exact .atom rfl ⟨_, rfl⟩
  | bool b => exact .atom rfl ⟨_, rfl⟩
  | int hs => exact .atom rfl ⟨_, Json.writeInteger_eq_ok.mpr ⟨hs, rfl⟩⟩
  | text _ => exact .atom rfl ⟨_, rfl⟩
  | list _ ih => exact .list rfl ih
  | map ht _ _ ih =>
    refine .map rfl (fun e he => ?_) ih
    obtain ⟨t, hk, -⟩ := ht e he
    exact ⟨t, hk⟩

end IsPortable

end Value

namespace Json

variable {v : Value} {t : Text}

/-! ### Reading -/

/-- A written value is a document that denotes the value. -/
theorem read_write (hv : v.IsLegible) (h : write v = .ok t) : read t = .ok v := by
  have hstart := startsValue_write hv h
  have hread := readValue_write v t hv h (t.length + 1) [] (Nat.lt_succ_self _)
    (by simp [EndsNumber])
  rw [List.append_nil] at hread
  have hwhole : readDocument.readWhole t = .ok v := by
    rw [readDocument.readWhole, hstart.skipBlanks, hread]
    rfl
  have hdocument : readDocument t = .ok v := by
    obtain ⟨c, rest, rfl, -⟩ := hstart
    have hvisible := isVisible_write v _ h c (by simp)
    rw [readDocument, if_neg (by omega), hwhole]
  rw [read, hdocument]
  rfl

/-- Values with one literal are one value. -/
theorem eq_of_write {w : Value} (hv : v.IsLegible) (hw : w.IsLegible) (h : write v = .ok t)
    (h' : write w = .ok t) : v = w := by
  simpa [read_write hv h] using read_write hw h'

/-! ### Quotes -/

/-- A part of a string in which each quote stands behind a backslash of its own. -/
inductive IsEscaped : Text → Prop where
  /-- Nothing. -/
  | nil : IsEscaped []
  /-- A code point that stands for itself. -/
  | plain {c : CodePoint} {rest : Text} (quote : c ≠ ('\"' : CodePoint))
      (backslash : c ≠ ('\\' : CodePoint)) (more : IsEscaped rest) : IsEscaped (c :: rest)
  /-- A backslash and what belongs to it. -/
  | escape {c : CodePoint} {rest : Text} (more : IsEscaped rest) :
      IsEscaped (('\\' : CodePoint) :: c :: rest)

/-- A text in which quotes stand around strings, and behind a backslash inside of them. -/
inductive IsQuoted : Text → Prop where
  /-- Nothing. -/
  | nil : IsQuoted []
  /-- A code point outside of strings. -/
  | outside {c : CodePoint} {rest : Text} (quote : c ≠ ('\"' : CodePoint)) (more : IsQuoted rest) :
      IsQuoted (c :: rest)
  /-- A string. -/
  | string {inner rest : Text} (escaped : IsEscaped inner) (more : IsQuoted rest) :
      IsQuoted (('\"' : CodePoint) :: (inner ++ ('\"' : CodePoint) :: rest))

/-- Escaped parts make an escaped part. -/
theorem IsEscaped.append {a b : Text} (ha : IsEscaped a) (hb : IsEscaped b) :
    IsEscaped (a ++ b) := by
  induction ha with
  | nil => exact hb
  | plain hq hs _ ih => exact .plain hq hs ih
  | escape _ ih => exact .escape ih

/-- Nothing has to be escaped in a part without quotes and backslashes. -/
theorem isEscaped_of_forall (h : ∀ c ∈ t, c ≠ ('\"' : CodePoint) ∧ c ≠ ('\\' : CodePoint)) :
    IsEscaped t := by
  induction t with
  | nil => exact .nil
  | cons c rest ih =>
    obtain ⟨⟨hq, hs⟩, hrest⟩ := List.forall_mem_cons.mp h
    exact .plain hq hs (ih hrest)

/-- A sixteen-bit unit is escaped. -/
theorem isEscaped_unitEscape (n : Nat) : IsEscaped (unitEscape n) := by
  have digits : ∀ d < 16, CodePoint.ofChar d.digitChar ≠ ('\"' : CodePoint) ∧
      CodePoint.ofChar d.digitChar ≠ ('\\' : CodePoint) := by decide
  have hnumber : IsEscaped (Numeral.hex 4 n) := by
    refine isEscaped_of_forall fun c hc => ?_
    rcases List.mem_append.mp hc with hc | hc
    · obtain rfl := List.eq_of_mem_replicate hc
      decide
    · obtain ⟨char, hm, rfl⟩ := List.mem_map.mp hc
      obtain ⟨d, hd, rfl⟩ := Numeral.exists_digitChar_of_mem_toDigits (by decide) hm
      exact digits d hd
  exact .escape hnumber

/-- An escaped code point is. -/
theorem isEscaped_escape (c : CodePoint) : IsEscaped (escape c) := by
  have h := isEscape_escape c
  generalize escape c = t at h ⊢
  cases h with
  | letter => exact .escape .nil
  | plain hq hs => exact .plain hq hs .nil
  | unit => exact isEscaped_unitEscape _
  | halves => exact (isEscaped_unitEscape _).append (isEscaped_unitEscape _)

/-- Escaped code points are together. -/
theorem isEscaped_flatMap (t : Text) : IsEscaped (t.flatMap escape) := by
  induction t with
  | nil => exact .nil
  | cons c rest ih => exact (isEscaped_escape c).append ih

/-- Quoted texts make a quoted text. -/
theorem IsQuoted.append {a b : Text} (ha : IsQuoted a) (hb : IsQuoted b) : IsQuoted (a ++ b) := by
  induction ha with
  | nil => exact hb
  | outside hq _ ih => exact .outside hq ih
  | string he _ ih =>
    rw [List.cons_append, List.append_assoc, List.cons_append]
    exact .string he ih

/-- A text without quotes has no strings. -/
theorem isQuoted_of_not_mem (h : ('\"' : CodePoint) ∉ t) : IsQuoted t := by
  induction t with
  | nil => exact .nil
  | cons c rest ih =>
    obtain ⟨hc, hr⟩ := List.ne_and_not_mem_of_not_mem_cons h
    exact .outside (Ne.symm hc) (ih hr)

/-- A written text is a string. -/
theorem isQuoted_writeText (t : Text) : IsQuoted (writeText t) := by
  have h : IsQuoted (('\"' : CodePoint) :: (t.flatMap escape ++ [('\"' : CodePoint)])) :=
    .string (isEscaped_flatMap t) .nil
  exact h

/-- Quoted texts with a quoted text between neighbours make a quoted text. -/
theorem isQuoted_intercalate {between : Text} {parts : List Text} (hb : IsQuoted between)
    (h : ∀ p ∈ parts, IsQuoted p) : IsQuoted (List.intercalate between parts) := by
  induction parts with
  | nil => exact .nil
  | cons p rest ih =>
    obtain ⟨hp, hrest⟩ := List.forall_mem_cons.mp h
    cases rest with
    | nil => simpa using hp
    | cons q rest =>
      rw [List.intercalate_cons_cons]
      exact (hp.append hb).append (ih hrest)

/-- What holds of each written item holds of the parts. -/
theorem forall_mem_writeItems {p : Text → Prop} {items : List Value} {parts : List Text}
    (h : writeItems items = .ok parts) (hp : ∀ v ∈ items, ∀ t, write v = .ok t → p t) :
    ∀ part ∈ parts, p part := by
  induction items generalizing parts with
  | nil =>
    obtain rfl := Except.ok.inj h
    simp
  | cons v rest ih =>
    rw [writeItems] at h
    obtain ⟨part, hpart, h⟩ := exceptBind_eq_ok.mp h
    obtain ⟨others, ho, h⟩ := exceptBind_eq_ok.mp h
    obtain rfl := Except.ok.inj h
    obtain ⟨hfirst, hrest⟩ := List.forall_mem_cons.mp hp
    exact List.forall_mem_cons.mpr ⟨hfirst part hpart, ih ho hrest⟩

/-- What holds of each written entry holds of the parts. -/
theorem forall_mem_writeEntries {p : Text → Prop} {entries : List (Key × Value)}
    {parts : List Text} (h : writeEntries entries = .ok parts)
    (hp : ∀ e ∈ entries, ∀ name t, writeName e.1 = .ok name → write e.2 = .ok t →
      p (writeEntry name t)) : ∀ part ∈ parts, p part := by
  induction entries generalizing parts with
  | nil =>
    obtain rfl := Except.ok.inj h
    simp
  | cons e rest ih =>
    rw [writeEntries] at h
    obtain ⟨name, hname, h⟩ := exceptBind_eq_ok.mp h
    obtain ⟨part, hpart, h⟩ := exceptBind_eq_ok.mp h
    obtain ⟨others, ho, h⟩ := exceptBind_eq_ok.mp h
    obtain rfl := Except.ok.inj h
    obtain ⟨hfirst, hrest⟩ := List.forall_mem_cons.mp hp
    exact List.forall_mem_cons.mpr ⟨hfirst name part hname hpart, ih ho hrest⟩

/-- Quoted parts with commas between neighbours, between marks that are no quotes. -/
theorem isQuoted_enclosed {parts : List Text} (h : ∀ p ∈ parts, IsQuoted p) :
    IsQuoted (bracketed parts) ∧ IsQuoted (braced parts) := by
  have hcomma : IsQuoted ", " := isQuoted_of_not_mem (by decide)
  have hparts := isQuoted_intercalate hcomma h
  exact ⟨((isQuoted_of_not_mem (by decide)).append hparts).append (isQuoted_of_not_mem (by decide)),
    ((isQuoted_of_not_mem (by decide)).append hparts).append (isQuoted_of_not_mem (by decide))⟩

/-- Written values are quoted. -/
theorem isQuoted_write (hv : v.IsLegible) (h : write v = .ok t) : IsQuoted t := by
  induction hv generalizing t with
  | null =>
    obtain rfl := Except.ok.inj h
    exact isQuoted_of_not_mem (by decide)
  | bool b =>
    obtain rfl := Except.ok.inj h
    exact isQuoted_of_not_mem (by cases b <;> decide)
  | int n =>
    obtain ⟨-, rfl⟩ := writeInteger_eq_ok.mp h
    exact isQuoted_of_not_mem fun hm => absurd (Numeral.isNumeric_integer n _ hm) (by decide)
  | @text t _ =>
    obtain rfl := Except.ok.inj h
    exact isQuoted_writeText t
  | list _ ih =>
    rw [write] at h
    obtain ⟨parts, hp, h⟩ := exceptBind_eq_ok.mp h
    obtain rfl := Except.ok.inj h
    exact (isQuoted_enclosed (forall_mem_writeItems hp fun v hm t ht => ih v hm ht)).1
  | map ht _ _ ih =>
    rw [write] at h
    obtain ⟨parts, hp, h⟩ := exceptBind_eq_ok.mp h
    obtain rfl := Except.ok.inj h
    have hentries : ∀ part ∈ parts, IsQuoted part := by
      refine forall_mem_writeEntries hp fun e hm name t hn hw => ?_
      obtain ⟨key, hk, -⟩ := ht e hm
      rw [hk] at hn
      obtain rfl := Except.ok.inj hn
      exact ((isQuoted_writeText key).append (isQuoted_of_not_mem (by decide))).append (ih e hm hw)
    exact (isQuoted_enclosed hentries).2

end Json

end ZodSchemas
