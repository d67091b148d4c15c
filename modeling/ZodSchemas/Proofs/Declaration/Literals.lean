import ZodSchemas.Proofs.Conversion.Known
import ZodSchemas.Proofs.Declaration.Nesting
import ZodSchemas.Proofs.Json.Literals

/-!
# Literals in code

A node that allows certain values lists their literals in one call. Literals
have no ends of lines, so the call is one line, and it stands in the code of
every node around as it is, however often lines are moved to the right.
-/

namespace ZodSchemas

open Lines

/-- The values that a node lists. -/
def Node.listedValues? : Node → Option (List Value)
  | .literal v => some [v]
  | .enum values => some values
  | _ => none

/-- The code that allows some values, given their literals. -/
def Term.literalCode : List Text → Text
  | [t] => ("z.literal(" : Text) ++ t ++ ")"
  | texts => ("z.enum([" : Text) ++ List.intercalate ", " texts ++ "])"

namespace Lines

variable {t : Text}

/-- A text with more in front of it and behind it is moved with the text in between as it is. -/
theorem indent_around (h : lineFeed ∉ t) (level : Int) (front back : Text) :
    indent level (front ++ t ++ back) = indent level front ++ t ++ hang level back := by
  rw [indent_eq, indent_eq, ← hang, hang_append, hang_append, hang_eq_self h]
  simp only [hang, List.append_assoc]

/-- However often lines are moved, the text in between stays as it is. -/
theorem foldr_indent_around (h : lineFeed ∉ t) (levels : List Int) (front back : Text) :
    levels.foldr indent (front ++ t ++ back) =
      levels.foldr indent front ++ t ++ levels.foldr hang back := by
  induction levels with
  | nil => rfl
  | cons level rest ih =>
    rw [List.foldr_cons, ih, indent_around h, List.foldr_cons, List.foldr_cons]

end Lines

/-- A visible text is one line. -/
theorem Text.IsVisible.inLine {t : Text} (h : t.IsVisible) : lineFeed ∉ t :=
  fun hm => absurd (h lineFeed hm).1 (by decide)

namespace Context

variable {c : Context}

/-- Literals are written one by one. -/
theorem forall₂_of_literals {values : List Value} {texts : List Text}
    (h : (literals values).outcome = .ok texts) :
    List.Forall₂ (fun v t => Json.write v = .ok t) values texts := by
  induction values generalizing texts with
  | nil =>
    obtain rfl := Traced.pure_eq_ok.mp h
    exact .nil
  | cons v rest ih =>
    rw [literals] at h
    obtain ⟨first, hf, h⟩ := Traced.bind_eq_ok.mp h
    obtain ⟨others, ho, h⟩ := Traced.bind_eq_ok.mp h
    obtain rfl := Traced.pure_eq_ok.mp h
    exact .cons (written_eq_ok.mp hf) (ih ho)

/-- A single value is one call with its literal. -/
theorem text_of_literalTerm {v : Value} {t : Term} (h : (literalTerm v).outcome = .ok t) :
    ∃ texts, List.Forall₂ (fun v t => Json.write v = .ok t) [v] texts ∧
      t.text = Term.literalCode texts := by
  obtain ⟨text, hw, h⟩ := Traced.bind_eq_ok.mp h
  obtain rfl := Traced.pure_eq_ok.mp h
  exact ⟨[text], .cons (written_eq_ok.mp hw) .nil, rfl⟩

/-- No value, or several, are one call with their literals. -/
theorem text_of_enumTerm {values : List Value} {t : Term} (hl : values.length ≠ 1)
    (h : (enumTerm values).outcome = .ok t) :
    ∃ texts, List.Forall₂ (fun v t => Json.write v = .ok t) values texts ∧
      t.text = Term.literalCode texts := by
  obtain ⟨texts, ht, h⟩ := Traced.bind_eq_ok.mp h
  obtain rfl := Traced.pure_eq_ok.mp h
  have hw := forall₂_of_literals ht
  refine ⟨texts, hw, ?_⟩
  rw [hw.length_eq] at hl
  match texts, hl with
  | [], _ => rfl
  | [_], hl => exact absurd rfl hl
  | _ :: _ :: _, _ => rfl

/-- A node that lists values is one call with their literals. -/
theorem text_of_listedValues? {node : Node} {values : List Value}
    (hl : node.listedValues? = some values) {path : Key} {t : Term}
    (h : (c.term node path).outcome = .ok t) :
    ∃ texts, List.Forall₂ (fun v t => Json.write v = .ok t) values texts ∧
      t.text = Term.literalCode texts := by
  unfold Node.listedValues? at hl
  split at hl
  · obtain rfl := Option.some.inj hl
    rw [term] at h
    exact text_of_literalTerm h
  · next listed =>
    obtain rfl := Option.some.inj hl
    match listed, h with
    | [], h => exact text_of_enumTerm (by simp) h
    | [v], h =>
      rw [term] at h
      exact text_of_literalTerm h
    | v :: w :: rest, h =>
      rw [term] at h
      · exact text_of_enumTerm (by simp) h
      · simp
  · simp at hl

/-- A call with literals is visible. -/
theorem isVisible_literalCode {values : List Value} {texts : List Text}
    (h : List.Forall₂ (fun v t => Json.write v = .ok t) values texts) :
    (Term.literalCode texts).IsVisible := by
  have hparts : ∀ t ∈ texts, t.IsVisible := by
    intro t ht
    obtain ⟨v, -, hw⟩ := exists_left_of_mem h ht
    exact Json.isVisible_write v t hw
  unfold Term.literalCode
  split
  · next t =>
    simp only [Text.isVisible_append]
    exact ⟨⟨by decide, hparts t (by simp)⟩, by decide⟩
  · simp only [Text.isVisible_append]
    exact ⟨⟨by decide, Text.isVisible_intercalate (by decide) hparts⟩, by decide⟩

/-- The call of a node that lists values stands in the code of every node around as it is. -/
theorem literalCode_within {inner node : Node} (hw : inner.IsWithin node) {values : List Value}
    (hl : inner.listedValues? = some values) {path : Key} {t : Term}
    (h : (c.term node path).outcome = .ok t) :
    ∃ texts, List.Forall₂ (fun v t => Json.write v = .ok t) values texts ∧
      Term.literalCode texts <:+: t.text := by
  have carried : IsCarried fun s => ∃ texts, List.Forall₂ (fun v t => Json.write v = .ok t)
      values texts ∧ Term.literalCode texts <:+: s := by
    refine ⟨?_, ?_⟩
    · rintro s ⟨texts, hv, hs⟩ front back
      exact ⟨texts, hv, (isCarried_part (isVisible_literalCode hv).inLine).surround hs front back⟩
    · rintro s ⟨texts, hv, hs⟩
      exact ⟨texts, hv, (isCarried_part (isVisible_literalCode hv).inLine).indent hs⟩
  refine carried_term carried hw (fun place s hs => ?_) path t h
  obtain ⟨texts, hv, he⟩ := text_of_listedValues? hl hs
  exact ⟨texts, hv, he ▸ List.infix_rfl⟩

end Context

/-- The literal of a value stands for the value, wherever it is written. -/
structure IsLiteral (v : Value) (t : Text) : Prop where
  /-- It has code points from U+0020 to U+007E alone. -/
  visible : ∀ c ∈ t, 0x20 ≤ c.value ∧ c.value ≤ 0x7E
  /-- Inside its strings each quote stands behind a backslash of its own. -/
  quoted : Json.IsQuoted t
  /-- As a document it is the value. -/
  read : Document.parse t ".json" = .ok v
  /-- No other value has it. -/
  own : ∀ w : Value, w.IsPortable → Json.write w = .ok t → w = v
  /-- It stays as it is when the lines around it are moved, however often. -/
  moved : ∀ (levels : List Int) (front back : Text), levels.foldr indent (front ++ t ++ back) =
    levels.foldr indent front ++ t ++ levels.foldr hang back
  /-- The code of a node holds, for each node inside it that lists the value, the call with the
  literals of the listed values, and this is one of them. -/
  nested : ∀ (c : Context) (node inner : Node) (values : List Value) (path : Key) (code : Text),
    (c.expression node path).outcome = .ok code → inner.IsWithin node →
    inner.listedValues? = some values → v ∈ values →
    ∃ texts, List.Forall₂ (fun w s => Json.write w = .ok s) values texts ∧ t ∈ texts ∧
      Term.literalCode texts <:+: code

/-- A value without numbers of double precision, of texts without surrogates and of integers with
at most 4300 digits, has a literal. -/
theorem exists_isLiteral {v : Value} (h : v.IsPortable) :
    ∃ t, Json.write v = .ok t ∧ IsLiteral v t := by
  obtain ⟨t, ht⟩ := Json.exists_write h.isExpressible
  have hvisible := Json.isVisible_write v t ht
  refine ⟨t, ht, hvisible, Json.isQuoted_write h.isLegible ht, ?_, fun w hw hwt => ?_,
    foldr_indent_around hvisible.inLine, ?_⟩
  · have hread : Document.parse t ".json" = (Json.read t).mapError .json := rfl
    rw [hread, Json.read_write h.isLegible ht]
    rfl
  · exact Json.eq_of_write hw.isLegible h.isLegible hwt ht
  · intro c node inner values path code hcode hw hl hv
    obtain ⟨term, hterm, hcode⟩ := Traced.bind_eq_ok.mp hcode
    obtain rfl := Traced.pure_eq_ok.mp hcode
    obtain ⟨texts, htexts, hin⟩ := Context.literalCode_within hw hl hterm
    refine ⟨texts, htexts, ?_, hin⟩
    obtain ⟨s, hs, hwritten⟩ := exists_right_of_mem htexts hv
    exact Except.ok.inj (ht.symm.trans hwritten) ▸ hs

/-- A value with a name of a quote and a backslash, and with a text of a line feed, U+007F and a
code point that has two halves. -/
def rareValue : Value :=
  .map [("\"\\", .list [.null, .bool true, .int (-7)]), ("", .map []), ("a", .text "\n\x7f😀")]

/-- The literal of the value. -/
def rareLiteral : Text :=
  ("\x7b\"\\\"\\\\\": [null, true, -7], \"\": \x7b\x7d, " : Text) ++
    "\"a\": \"\\n\\u007f\\ud83d\\ude00\"\x7d"

/-- The value has that literal. -/
theorem exists_isLiteral_rareValue : rareValue.IsPortable ∧ IsLiteral rareValue rareLiteral := by
  have h : rareValue.IsPortable := by
    refine .map (by simp +decide) (by simp +decide [KeysDiffer]) ?_
    simp only [List.forall_mem_cons]
    refine ⟨.list ?_, .map (by simp) .nil (by simp), .text (by decide), by simp⟩
    simp only [List.forall_mem_cons]
    exact ⟨.null, .bool true, .int (by decide), by simp⟩
  obtain ⟨t, ht, hl⟩ := exists_isLiteral h
  have hwritten : Json.write rareValue = .ok rareLiteral :=
    except_eq_ok_of_toOption (by decide +kernel)
  obtain rfl : rareLiteral = t := Except.ok.inj (hwritten.symm.trans ht)
  exact ⟨h, hl⟩

end ZodSchemas
