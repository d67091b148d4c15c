import ZodSchemas.Proofs.Declaration.Uses
import ZodSchemas.Proofs.Text.Paragraph
import ZodSchemas.Proofs.Value.Reread

/-!
# What an expression says of its node

An expression does not say everything about its node: which entry of a name a
reference means, which properties an object requires, the value of a date check,
and whether a single value was enumerated. The outline of a node is the node
without these. Its parts are read off the code here, each from the front of a
text: names and keys, literals, bounds, and the indented lines of an object.
-/

namespace ZodSchemas

/-- The check as code says it: a date check has no bound. -/
def Check.outline (check : Check) : Check :=
  match check.kind with
  | .date => ⟨.date, .null⟩
  | _ => check

namespace Node

mutual

/-- The node as its expression says it. References are known by their names, the value of a date
check and the required properties are not written, a single value is a literal, and a node of no
kind accepts anything. -/
def outline : Node → Node
  | .string checks => .string (checks.map Check.outline)
  | .number => .number
  | .boolean => .boolean
  | .object properties _ => .object (outlineProperties properties) []
  | .array element => .array element.outline
  | .union options => .union (outlineOptions options)
  | .enum values => ofValues values
  | .literal v => .literal v
  | .nullable inner => .nullable inner.outline
  | .optional inner => .optional inner.outline
  | .lazy ref => .lazy ⟨ref.name, 0⟩
  | .never => .never
  | .unknown => .unknown
  | .plain => .unknown

/-- The properties as expressions say them. -/
def outlineProperties : List (Key × Node) → List (Key × Node)
  | [] => []
  | (key, node) :: rest => (key, node.outline) :: outlineProperties rest

/-- The options as expressions say them. -/
def outlineOptions : List Node → List Node
  | [] => []
  | node :: rest => node.outline :: outlineOptions rest

end

end Node

/-- A check that can be read off its call: a date, or an integer as the bound of a length. -/
def Check.IsLegible (check : Check) : Prop :=
  check.kind = .date ∨ (check.kind = .min ∨ check.kind = .max) ∧ ∃ n : Int, check.bound = .int n

/-- A node that can be read off its expression: names of references consist of what identifiers
consist of, checks and values can be read back, and property keys are joined texts. -/
inductive Node.IsLegible : Node → Prop where
  /-- Texts. -/
  | string {checks : List Check} (legible : ∀ check ∈ checks, check.IsLegible) :
      IsLegible (.string checks)
  /-- Numbers. -/
  | number : IsLegible .number
  /-- Truth values. -/
  | boolean : IsLegible .boolean
  /-- Mappings. -/
  | object {properties : List (Key × Node)} {required : List Key}
      (keys : ∀ e ∈ properties, ∃ t : Text, e.1 = .text t ∧ t.IsJoined)
      (parts : ∀ e ∈ properties, IsLegible e.2) : IsLegible (.object properties required)
  /-- Lists. -/
  | array {element : Node} (part : IsLegible element) : IsLegible (.array element)
  /-- Any of several options. -/
  | union {options : List Node} (parts : ∀ option ∈ options, IsLegible option) :
      IsLegible (.union options)
  /-- Any of several values. -/
  | enum {values : List Value} (legible : ∀ v ∈ values, v.IsLegible) : IsLegible (.enum values)
  /-- A single value. -/
  | literal {v : Value} (legible : v.IsLegible) : IsLegible (.literal v)
  /-- Null, or what the inner node accepts. -/
  | nullable {inner : Node} (part : IsLegible inner) : IsLegible (.nullable inner)
  /-- Nothing at all, or what the inner node accepts. -/
  | optional {inner : Node} (part : IsLegible inner) : IsLegible (.optional inner)
  /-- What the schema of a name accepts. -/
  | lazy {name : Text} {origin : Nat} (part : name.all PropertyName.isPart = true) :
      IsLegible (.lazy ⟨.text name, origin⟩)
  /-- Nothing. -/
  | never : IsLegible .never
  /-- Anything. -/
  | unknown : IsLegible .unknown
  /-- No kind. -/
  | plain : IsLegible .plain

namespace Reader

/-- The text behind a front. -/
def after (front t : Text) : Option Text := front.isPrefixOf? t

/-- What stands behind the front of a text. -/
@[simp] theorem after_append (front rest : Text) : after front (front ++ rest) = some rest :=
  List.isPrefixOf?_eq_some_iff_append_eq.mpr rfl

/-- No part of an identifier follows. -/
def EndsName (t : Text) : Prop := ∀ c ∈ t.head?, PropertyName.isPart c = false

/-- The name whose identifier comes first, without the prefix of a width and the ending. -/
def readName (width : Nat) (t : Text) : Option (Text × Text) :=
  let identifier := t.takeWhile PropertyName.isPart
  let own := identifier.drop width
  if identifier.isEmpty then none
  else some (own.take (own.length - ("Schema" : Text).length), t.dropWhile PropertyName.isPart)

/-- An identifier consists of what identifiers consist of when its prefix and its name do. -/
theorem isPart_of_mem_identifier {front name : Text} (hf : front.all PropertyName.isPart = true)
    (hn : name.all PropertyName.isPart = true) :
    ∀ c ∈ front ++ name ++ ("Schema" : Text), PropertyName.isPart c = true := by
  rw [← List.all_eq_true, List.all_append, List.all_append, hf, hn]
  decide

/-- The name of an identifier is what stands between the prefix and the ending. -/
theorem readName_identifier {front name rest : Text} (hf : front.all PropertyName.isPart = true)
    (hn : name.all PropertyName.isPart = true) (hr : EndsName rest) :
    readName front.length (front ++ name ++ "Schema" ++ rest) = some (name, rest) := by
  have hi := isPart_of_mem_identifier hf hn
  have hne : ¬(front ++ name ++ ("Schema" : Text)).isEmpty = true := by simp [Text.ofString]
  rw [readName, Text.takeWhile_front hi hr, Text.dropWhile_front hi hr, if_neg hne]
  simp

/-- An identifier does not look like a call. -/
theorem after_identifier {front name : Text} (hf : front.all PropertyName.isPart = true)
    (hn : name.all PropertyName.isPart = true) (rest : Text) :
    after "z." (front ++ name ++ "Schema" ++ rest) = none := by
  refine Option.eq_none_iff_forall_ne_some.mpr fun more hm => ?_
  have htext := List.isPrefixOf?_eq_some_iff_append_eq.mp hm
  have hpoint : (front ++ name ++ ("Schema" : Text) ++ rest)[1]? = some ('.' : CodePoint) := by
    rw [← htext]
    rfl
  have hlength : 1 < (front ++ name ++ ("Schema" : Text)).length := by
    simp [Text.ofString]
    omega
  rw [List.getElem?_append_left hlength] at hpoint
  have hpart := isPart_of_mem_identifier hf hn _ (List.mem_of_getElem? hpoint)
  exact absurd hpart (by decide)

/-- The key of a property and the text behind its colon. -/
def readKey (t : Text) : Option (Text × Text) :=
  if t.head? = some ('\"' : CodePoint) then
    match Json.readText t with
    | .ok (key, rest) => (after ": " rest).map (key, ·)
    | .error _ => none
  else
    let name := t.takeWhile PropertyName.isPart
    let rest := t.dropWhile PropertyName.isPart
    match after ": " rest with
    | some rest => some (name, rest)
    | none => (after "\n: " rest).map (name ++ "\n", ·)

/-- An identifier consists of its parts and does not start with a quote. -/
theorem isPart_of_isIdentifier {name : Text} (h : PropertyName.isIdentifier name = true) :
    (∀ c ∈ name, PropertyName.isPart c = true) ∧
      ∀ rest : Text, (name ++ rest).head? ≠ some ('\"' : CodePoint) := by
  cases name with
  | nil => simp [PropertyName.isIdentifier] at h
  | cons c name =>
    obtain ⟨hc, hr⟩ := Bool.and_eq_true_iff.mp h
    refine ⟨List.forall_mem_cons.mpr ⟨?_, List.all_eq_true.mp hr⟩, fun rest hq => ?_⟩
    · rw [PropertyName.isPart, hc, Bool.true_or]
    · obtain rfl : c = ('\"' : CodePoint) := Option.some.inj hq
      exact absurd hc (by decide)

/-- A written key is read back, with or without quotes. -/
theorem readKey_writeText {key : Text} (h : key.IsJoined) (rest : Text) :
    readKey (PropertyName.writeText key ++ (": " ++ rest)) = some (key, rest) := by
  have hcolon : ∀ c ∈ (": " ++ rest : Text).head?, PropertyName.isPart c = false := by
    rintro c hc
    obtain rfl := Option.some.inj hc
    decide
  have hbreak : ∀ c ∈ ("\n: " ++ rest : Text).head?, PropertyName.isPart c = false := by
    rintro c hc
    obtain rfl := Option.some.inj hc
    decide
  unfold PropertyName.writeText
  split
  · next hb =>
    rcases Bool.or_eq_true_iff.mp hb with hi | hi
    · obtain ⟨hp, hq⟩ := isPart_of_isIdentifier hi
      rw [readKey, if_neg (hq _), Text.takeWhile_front hp hcolon, Text.dropWhile_front hp hcolon]
      simp only [after_append]
    · obtain ⟨hlast, hi⟩ := Bool.and_eq_true_iff.mp hi
      obtain ⟨hp, hq⟩ := isPart_of_isIdentifier hi
      have hsplit : key.dropLast ++ ("\n" : Text) = key :=
        List.dropLast_append_getLast? _ (of_decide_eq_true hlast)
      have hkey : key ++ (": " ++ rest) = key.dropLast ++ ("\n: " ++ rest) := by
        conv_lhs => rw [← hsplit, List.append_assoc]
        rfl
      have hnone : after ": " ("\n: " ++ rest) = none := rfl
      rw [hkey, readKey, if_neg (hq _), Text.takeWhile_front hp hbreak,
        Text.dropWhile_front hp hbreak]
      simp only [hnone, after_append, Option.map_some, hsplit]
  · have hquote : (Json.writeText key ++ (": " ++ rest)).head? = some ('\"' : CodePoint) := by
      rw [Json.writeText_append]
      rfl
    rw [readKey, if_pos hquote, Json.readText_writeText h]
    simp only [after_append, Option.map_some]

/-- The text of lines that stand two blanks deep, up to a closing brace on a line of its own. -/
def readBlock : Text → Option (Text × Text)
  | [] => none
  | c :: rest =>
    if c = Lines.lineFeed then
      match rest with
      | a :: b :: tail =>
        if a = (' ' : CodePoint) ∧ b = (' ' : CodePoint) then
          (readBlock tail).map fun (t, rest) => (c :: t, rest)
        else if a = ('\x7d' : CodePoint) then some ([], b :: tail)
        else none
      | _ => none
    else (readBlock rest).map fun (t, rest) => (c :: t, rest)

/-- Lines with blanks behind each line feed are read back. -/
theorem readBlock_flatMap (t rest : Text) :
    readBlock ((t.flatMap fun c => if c = Lines.lineFeed then Lines.lineFeed :: Lines.blanks 1
      else [c]) ++ ("\n\x7d)" ++ rest)) = some (t, ")" ++ rest) := by
  induction t with
  | nil => rfl
  | cons c t ih =>
    rw [List.flatMap_cons, List.append_assoc]
    rw [readBlock.eq_def]
    by_cases hc : c = Lines.lineFeed
    · have hblanks : Lines.blanks 1 = [(' ' : CodePoint), (' ' : CodePoint)] := rfl
      simp only [hc, if_true, hblanks, List.cons_append, List.nil_append, and_self]
      rw [← hblanks, ih]
      rfl
    · simp only [if_neg hc, List.cons_append, List.nil_append]
      rw [ih]
      rfl

/-- Indented lines are read back. -/
theorem readBlock_indent (t rest : Text) :
    readBlock (("\n" ++ Lines.indent 1 t ++ "\n\x7d)") ++ rest) =
      some (Lines.lineFeed :: t, ")" ++ rest) := by
  have h := readBlock_flatMap (Lines.lineFeed :: t) rest
  rw [List.flatMap_cons, if_pos rfl] at h
  rw [Lines.indent_eq, List.append_assoc]
  exact h

/-- Indentation makes no text shorter. -/
theorem length_le_indent (t : Text) : t.length ≤ (Lines.indent 1 t).length := by
  rw [Lines.indent_eq, List.length_append]
  refine le_trans ?_ (Nat.le_add_left _ _)
  induction t with
  | nil => exact le_rfl
  | cons c t ih =>
    rw [List.flatMap_cons, List.length_append, List.length_cons]
    split
    · simp only [List.length_cons]
      omega
    · simp only [List.length_singleton]
      omega

/-- What can be called on a validator. -/
inductive Suffix where
  | nullable | optional | date | min | max

namespace Suffix

/-- The code of a call up to its bound, if it has one. -/
def text : Suffix → Text
  | .nullable => ".nullable()"
  | .optional => ".optional()"
  | .date => ".date()"
  | .min => ".min("
  | .max => ".max("

/-- The call that comes first, and the text behind it. -/
def read (t : Text) : Option (Suffix × Text) :=
  [nullable, optional, date, min, max].findSome? fun s => (after s.text t).map (s, ·)

/-- A written call is read back. -/
theorem read_text (s : Suffix) (rest : Text) : read (s.text ++ rest) = some (s, rest) := by
  cases s <;> rfl

/-- Calls start with a point. -/
theorem read_eq_none {t : Text} (h : t.head? ≠ some ('.' : CodePoint)) : read t = none := by
  refine List.findSome?_eq_none_iff.mpr fun s _ => ?_
  refine Option.map_eq_none_iff.mpr (Option.eq_none_iff_forall_ne_some.mpr fun rest hr => h ?_)
  obtain rfl := List.isPrefixOf?_eq_some_iff_append_eq.mp hr
  cases s <;> rfl

end Suffix

/-- A value with a closing bracket behind it. -/
def readArgument (t : Text) : Option (Value × Text) :=
  match Json.readValue (t.length + 1) t with
  | .ok (v, rest) => (after ")" rest).map (v, ·)
  | .error _ => none

/-- A written value between brackets is read back. -/
theorem readArgument_write {v : Value} {t : Text} (hv : v.IsLegible) (h : Json.write v = .ok t)
    (rest : Text) : readArgument (t ++ (")" ++ rest)) = some (v, rest) := by
  have hend : Json.EndsNumber (")" ++ rest) := Json.endsNumber_cons (by decide)
  have hread := Json.readValue_write v t hv h ((t ++ (")" ++ rest)).length + 1) (")" ++ rest)
    (by simp only [List.length_append]; omega) hend
  simp only [readArgument, hread, after_append, Option.map_some]

/-- Texts that must pass one more check. -/
def addCheck (check : Check) : Node → Option Node
  | .string checks => some (.string (checks ++ [check]))
  | _ => none

/-- Texts of a bounded length. -/
def addBound (kind : CheckKind) (node : Node) (rest : Text) : Option (Node × Text) := do
  let (bound, rest) ← readArgument rest
  (addCheck ⟨kind, bound⟩ node).map (·, rest)

/-- The node that a call makes of a node, and the text behind the call. -/
def apply (s : Suffix) (node : Node) (rest : Text) : Option (Node × Text) :=
  match s with
  | .nullable => some (.nullable node, rest)
  | .optional => some (.optional node, rest)
  | .date => (addCheck ⟨.date, .null⟩ node).map (·, rest)
  | .min => addBound .min node rest
  | .max => addBound .max node rest

/-- The node that all calls behind a node make of it, and the text behind them. -/
def readSuffixes (node : Node) (t : Text) : Node × Text :=
  match (Suffix.read t).bind fun (s, rest) => apply s node rest with
  | some (next, rest) => if rest.length < t.length then readSuffixes next rest else (node, t)
  | none => (node, t)
termination_by t.length

/-- Neither a part of an identifier nor a call follows. -/
def EndsExpression (t : Text) : Prop :=
  ∀ c ∈ t.head?, PropertyName.isPart c = false ∧ c ≠ ('.' : CodePoint)

/-- Where an expression ends, a name ends too. -/
theorem EndsExpression.endsName {t : Text} (h : EndsExpression t) : EndsName t :=
  fun c hc => (h c hc).1

/-- Where an expression ends, the node is complete. -/
theorem readSuffixes_end (node : Node) {t : Text} (h : EndsExpression t) :
    readSuffixes node t = (node, t) := by
  rw [readSuffixes, Suffix.read_eq_none fun hc => (h _ hc).2 rfl]
  rfl

/-- One call is read and then those behind it. -/
theorem readSuffixes_text {s : Suffix} {node next : Node} {rest more : Text}
    (h : apply s node rest = some (next, more)) (hl : more.length ≤ rest.length) :
    readSuffixes node (s.text ++ rest) = readSuffixes next more := by
  have hpos : 0 < s.text.length := by cases s <;> decide
  have hlength : more.length < (s.text ++ rest).length := by
    rw [List.length_append]
    omega
  rw [readSuffixes, Suffix.read_text]
  simp only [Option.bind_some, h, if_pos hlength]

end Reader

namespace Context

open Reader

/-- The call of a check adds the check to texts. -/
theorem readSuffixes_checkCall {path : Key} {check : Check} {call : Text} (hl : check.IsLegible)
    (h : (checkCall path check).outcome = .ok call) (checks : List Check) (rest : Text) :
    readSuffixes (.string checks) (call ++ rest) =
      readSuffixes (.string (checks ++ [check.outline])) rest := by
  obtain ⟨kind, bound⟩ := check
  rcases hl with rfl | ⟨hk, n, rfl⟩
  · obtain rfl := Traced.pure_eq_ok.mp h
    exact readSuffixes_text (s := .date) rfl le_rfl
  · have hbound : ∀ (k : CheckKind) (t : Text), Value.plain (.int n) = .ok t →
        addBound k (.string checks) (t ++ (")" ++ rest)) =
          some (.string (checks ++ [⟨k, .int n⟩]), rest) := by
      intro k t ht
      have hwrite : Json.write (.int n) = .ok t := by
        rw [Json.write]
        exact ht
      simp only [addBound, readArgument_write (.int n) hwrite, addCheck, Option.bind_eq_bind,
        Option.bind_some, Option.map_some]
    rcases hk with rfl | rfl
    · obtain ⟨t, ht, h⟩ := Traced.bind_eq_ok.mp h
      obtain rfl := Traced.pure_eq_ok.mp h
      rw [List.append_assoc, List.append_assoc]
      refine readSuffixes_text (s := .min) (hbound .min t (written_eq_ok.mp ht)) ?_
      simp only [List.length_append]
      omega
    · obtain ⟨t, ht, h⟩ := Traced.bind_eq_ok.mp h
      obtain rfl := Traced.pure_eq_ok.mp h
      rw [List.append_assoc, List.append_assoc]
      refine readSuffixes_text (s := .max) (hbound .max t (written_eq_ok.mp ht)) ?_
      simp only [List.length_append]
      omega

/-- The calls of checks add the checks to texts. -/
theorem readSuffixes_checkCalls {path : Key} {new : List Check} {calls : Text}
    (hl : ∀ check ∈ new, check.IsLegible) (h : (checkCalls path new).outcome = .ok calls)
    (checks : List Check) (rest : Text) :
    readSuffixes (.string checks) (calls ++ rest) =
      readSuffixes (.string (checks ++ new.map Check.outline)) rest := by
  induction new generalizing checks calls with
  | nil =>
    obtain rfl : [] = calls := by simpa [checkCalls] using h
    simp
  | cons check new ih =>
    obtain ⟨call, hc, h⟩ := Traced.bind_eq_ok.mp h
    obtain ⟨others, ho, h⟩ := Traced.bind_eq_ok.mp h
    obtain rfl := Traced.pure_eq_ok.mp h
    obtain ⟨hcheck, hnew⟩ := List.forall_mem_cons.mp hl
    rw [List.append_assoc, readSuffixes_checkCall hcheck hc, ih hnew ho, List.append_assoc,
      List.map_cons, List.singleton_append]

end Context

end ZodSchemas
