import ZodSchemas.Proofs.Declaration.Reader

/-!
# Nodes read off their expressions

The code of a node can be read back, part by part, and what comes of it is the
outline of the node: two nodes with one expression differ in nothing that the
code could say. That needs joined texts. A code point beyond U+FFFF and the two
surrogates that are its halves are written alike, so a key or a value with such
surrogates is lost.
-/

namespace ZodSchemas

namespace Context

open Reader

/-- The width of the prefix of identifiers. -/
def prefixWidth (c : Context) : Nat :=
  match c.settings.namePrefix.plain with
  | .ok front => front.length
  | .error _ => 0

/-- The prefix consists of what identifiers consist of. -/
def HasPlainPrefix (c : Context) : Prop :=
  ∀ front, c.settings.namePrefix.plain = .ok front → front.all PropertyName.isPart = true

variable {c : Context}

/-- The identifier of a name that is a text. -/
theorem exists_prefix_of_identifier {name identifier : Text}
    (h : c.settings.identifier (.ofKey (.text name)) = .ok identifier) :
    ∃ front, c.settings.namePrefix.plain = .ok front ∧ c.prefixWidth = front.length ∧
      identifier = front ++ name ++ "Schema" := by
  unfold Settings.identifier at h
  split at h
  · simp at h
  · obtain ⟨front, hf, h⟩ := exceptBind_eq_ok.mp h
    obtain ⟨own, ho, h⟩ := exceptBind_eq_ok.mp h
    obtain rfl : name = own := Except.ok.inj ho
    obtain rfl := Except.ok.inj h
    refine ⟨front, hf, ?_, rfl⟩
    simp only [prefixWidth, hf]

/-- The use of a declaration is read back as a reference to its name. -/
theorem readTerm_use (hc : c.HasPlainPrefix) {name : Text} {origin : Nat} {u : Use}
    (hn : name.all PropertyName.isPart = true) (h : c.Renders ⟨.text name, origin⟩ u) {fuel : Nat}
    {rest : Text} (hf : u.text.length < fuel) (hr : EndsName rest) :
    readTerm c.prefixWidth fuel (u.text ++ rest) =
      some (readSuffixes (.lazy ⟨.text name, 0⟩) rest) := by
  obtain ⟨front, hp, hw, hi⟩ := exists_prefix_of_identifier h.identifier
  have hfront := hc front hp
  cases hd : u.isDeferred with
  | true =>
    have htext : u.text = "z." ++ (Callee.deferred.text ++ (u.identifier ++ ")")) := by
      simp only [Use.text, hd, if_true, List.append_assoc]
      rfl
    rw [htext] at hf ⊢
    refine readTerm_call _ _ hf fun f _ => ?_
    have hend : EndsName (")" ++ rest) := fun d hm => Option.some.inj hm ▸ by decide
    rw [readArguments, hi, hw, List.append_assoc, readName_identifier hfront hn hend]
    simp only [Option.bind_eq_bind, Option.bind_some, after_append, Option.map_some]
  | false =>
    have htext : u.text = u.identifier := by simp [Use.text, hd]
    obtain ⟨f, rfl⟩ : ∃ f, fuel = f + 1 := ⟨fuel - 1, by omega⟩
    rw [htext, hi, readTerm, after_identifier hfront hn, hw, readName_identifier hfront hn hr]
    rfl

/-- The term of texts is read back with its checks. -/
theorem readTerm_stringTerm {path : Key} {checks : List Check} {t : Term}
    (hl : ∀ check ∈ checks, check.IsLegible) (h : (stringTerm path checks).outcome = .ok t)
    {width fuel : Nat} {rest : Text} (hf : t.text.length < fuel) :
    readTerm width fuel (t.text ++ rest) =
      some (readSuffixes (.string (checks.map Check.outline)) rest) := by
  obtain ⟨calls, hc, h⟩ := Traced.bind_eq_ok.mp h
  obtain rfl := Traced.pure_eq_ok.mp h
  have htext : (Term.call ("z.string()" ++ calls)).text =
      "z." ++ (Callee.string.text ++ calls) := rfl
  rw [htext] at hf ⊢
  rw [readTerm_call _ _ hf fun f _ => by rw [readArguments], readSuffixes_checkCalls hl hc,
    List.nil_append]

/-- The term of a single value is read back. -/
theorem readTerm_literalTerm {v : Value} {t : Term} (hv : v.IsLegible)
    (h : (literalTerm v).outcome = .ok t) {width fuel : Nat} {rest : Text}
    (hf : t.text.length < fuel) :
    readTerm width fuel (t.text ++ rest) = some (readSuffixes (.literal v) rest) := by
  obtain ⟨value, hw, h⟩ := Traced.bind_eq_ok.mp h
  obtain rfl := Traced.pure_eq_ok.mp h
  have htext : (Term.call (("z.literal(" : Text) ++ value ++ ")")).text =
      "z." ++ (Callee.literal.text ++ (value ++ ")")) := by
    rw [Term.text, List.append_assoc]
    rfl
  rw [htext] at hf ⊢
  refine readTerm_call _ _ hf fun f _ => ?_
  rw [readArguments, List.append_assoc, readArgument_write hv (written_eq_ok.mp hw)]
  rfl

/-- Literals are the written items of a list. -/
theorem writeItems_of_literals {values : List Value} {parts : List Text}
    (h : (literals values).outcome = .ok parts) : Json.writeItems values = .ok parts := by
  induction values generalizing parts with
  | nil =>
    obtain rfl := Traced.pure_eq_ok.mp h
    rfl
  | cons v values ih =>
    obtain ⟨first, hf, h⟩ := Traced.bind_eq_ok.mp h
    obtain ⟨others, ho, h⟩ := Traced.bind_eq_ok.mp h
    obtain rfl := Traced.pure_eq_ok.mp h
    rw [Json.writeItems, written_eq_ok.mp hf, ih ho]
    rfl

/-- The term of one of several values is read back with the values. -/
theorem readTerm_enumTerm {values : List Value} {t : Term} (hv : ∀ v ∈ values, v.IsLegible)
    (h : (enumTerm values).outcome = .ok t) {width fuel : Nat} {rest : Text}
    (hf : t.text.length < fuel) :
    readTerm width fuel (t.text ++ rest) = some (readSuffixes (.enum values) rest) := by
  obtain ⟨parts, hp, h⟩ := Traced.bind_eq_ok.mp h
  obtain rfl := Traced.pure_eq_ok.mp h
  have hwrite : Json.write (.list values) = .ok (Json.bracketed parts) := by
    rw [Json.write, writeItems_of_literals hp]
    rfl
  have htext : (Term.call (("z.enum([" : Text) ++ List.intercalate ", " parts ++ "])")).text =
      "z." ++ (Callee.enum.text ++ (Json.bracketed parts ++ ")")) := by
    simp only [Term.text, Json.bracketed, List.append_assoc]
    rfl
  rw [htext] at hf ⊢
  refine readTerm_call _ _ hf fun f _ => ?_
  rw [readArguments, List.append_assoc, readArgument_write (.list hv) hwrite]
  rfl

/-- The term of a union is read back with the options, whatever tells them apart. -/
theorem readTerm_unionTerm {key : Option Key} {parts : List Term} {options : List Node} {t : Term}
    {width fuel : Nat} {rest : Text} (h : (unionTerm key parts).outcome = .ok t)
    (hf : t.text.length < fuel)
    (ho : ∀ f rest, (List.intercalate ", " (Term.optionTexts parts)).length + 1 < f →
      readOptions width f (List.intercalate ", " (Term.optionTexts parts) ++ ("]" ++ rest)) =
        some (options, rest)) :
    readTerm width fuel (t.text ++ rest) = some (readSuffixes (.union options) rest) := by
  have hone : ("]" : Text).length = 1 ∧ (")" : Text).length = 1 := by decide
  set inner := List.intercalate ", " (Term.optionTexts parts) with hinner
  cases key with
  | none =>
    obtain rfl := Traced.pure_eq_ok.mp h
    have htext : (Term.union parts).text =
        "z." ++ (Callee.union.text ++ (inner ++ ("]" ++ ")"))) := by
      simp only [Term.text, Term.bracketed, List.append_assoc, ← hinner]
      rfl
    rw [htext] at hf ⊢
    refine readTerm_call _ _ hf fun f hl => ?_
    simp only [List.length_append] at hl
    rw [readArguments, List.append_assoc, List.append_assoc, ho f _ (by omega)]
    simp only [Option.bind_eq_bind, Option.bind_some, after_append, Option.map_some]
  | some key =>
    obtain ⟨name, hn, h⟩ := Traced.bind_eq_ok.mp h
    obtain rfl := Traced.pure_eq_ok.mp h
    have hkey : Json.writeKey key = .ok name := by
      have hw := written_eq_ok.mp hn
      rwa [Value.ofKey, Json.write] at hw
    have htext : (Term.discriminated name parts).text = "z." ++ (Callee.discriminated.text ++
        (name ++ (", " ++ ("[" ++ (inner ++ ("]" ++ ")")))))) := by
      simp only [Term.text, Term.bracketed, List.append_assoc, ← hinner]
      rfl
    rw [htext] at hf ⊢
    refine readTerm_call _ _ hf fun f hl => ?_
    simp only [List.length_append] at hl
    have hskip : after ", [" (skipTag (name ++ (", " ++ ("[" ++ (inner ++
        ("]" ++ (")" ++ rest))))))) = some (inner ++ ("]" ++ (")" ++ rest))) := by
      rw [skipTag_writeKey hkey]
      exact after_append ", [" _
    simp only [List.append_assoc]
    rw [readArguments, hskip]
    simp only [Option.bind_eq_bind, Option.bind_some, ho f _ (by omega), after_append,
      Option.map_some]

/-- Options have terms. -/
theorem ne_nil_of_optionTerms {option : Node} {options : List Node} {index : Nat} {path : Key}
    {parts : List Term} (h : (c.optionTerms index (option :: options) path).outcome = .ok parts) :
    Term.optionTexts parts ≠ [] := by
  rw [optionTerms] at h
  obtain ⟨place, -, h⟩ := Traced.bind_eq_ok.mp h
  obtain ⟨first, -, h⟩ := Traced.bind_eq_ok.mp h
  obtain ⟨others, -, h⟩ := Traced.bind_eq_ok.mp h
  obtain rfl := Traced.pure_eq_ok.mp h
  simp [Term.optionTexts]

/-- Properties have terms. -/
theorem ne_nil_of_propertyTerms {e : Key × Node} {properties : List (Key × Node)} {path : Key}
    {parts : List (Text × Term)}
    (h : (c.propertyTerms (e :: properties) path).outcome = .ok parts) :
    Term.propertyTexts parts ≠ [] := by
  rw [propertyTerms] at h
  obtain ⟨name, -, h⟩ := Traced.bind_eq_ok.mp h
  obtain ⟨step, -, h⟩ := Traced.bind_eq_ok.mp h
  obtain ⟨place, -, h⟩ := Traced.bind_eq_ok.mp h
  obtain ⟨value, -, h⟩ := Traced.bind_eq_ok.mp h
  obtain ⟨others, -, h⟩ := Traced.bind_eq_ok.mp h
  obtain rfl := Traced.pure_eq_ok.mp h
  simp [Term.propertyTexts]

/-- A rendered property is its written key and the term of its node. -/
theorem exists_of_propertyTerms {key : Text} {node : Node} {properties : List (Key × Node)}
    {path : Key} {parts : List (Text × Term)}
    (h : (c.propertyTerms ((.text key, node) :: properties) path).outcome = .ok parts) :
    ∃ place value others, (c.term node place).outcome = .ok value ∧
      (c.propertyTerms properties path).outcome = .ok others ∧
      Term.propertyTexts parts =
        (PropertyName.writeText key ++ (": " ++ value.text)) :: Term.propertyTexts others := by
  rw [propertyTerms] at h
  obtain ⟨name, hn, h⟩ := Traced.bind_eq_ok.mp h
  obtain ⟨step, -, h⟩ := Traced.bind_eq_ok.mp h
  obtain ⟨place, -, h⟩ := Traced.bind_eq_ok.mp h
  obtain ⟨value, hv, h⟩ := Traced.bind_eq_ok.mp h
  obtain ⟨others, ho, h⟩ := Traced.bind_eq_ok.mp h
  obtain rfl := Traced.pure_eq_ok.mp h
  obtain rfl : PropertyName.writeText key = name := Except.ok.inj (written_eq_ok.mp hn)
  exact ⟨place, value, others, hv, ho, by rw [Term.propertyTexts, List.append_assoc]⟩

mutual

/-- The term of a node is read back as the outline of the node, with whatever calls follow. -/
theorem readTerm_term (c : Context) (hc : c.HasPlainPrefix) : ∀ (node : Node) (path : Key)
    (t : Term), node.IsLegible → (c.term node path).outcome = .ok t →
    ∀ (fuel : Nat) (rest : Text), t.text.length < fuel → EndsName rest →
      readTerm c.prefixWidth fuel (t.text ++ rest) = some (readSuffixes node.outline rest)
  | .lazy _, path, t, .lazy hn, h, fuel, rest, hf, hr => by
    rw [term] at h
    obtain ⟨u, hu, h⟩ := Traced.bind_eq_ok.mp h
    obtain rfl := Traced.pure_eq_ok.mp h
    exact readTerm_use hc hn (renders_use hu) hf hr
  | .object [] required, path, t, _, h, fuel, rest, hf, hr => by
    rw [term, propertyTerms] at h
    obtain rfl := Traced.pure_eq_ok.mp h
    exact readTerm_call .object "\x7d)" hf fun f _ => by
      rw [readArguments, after_append]
      rfl
  | .object (e :: properties) required, path, t, .object hk hl, h, fuel, rest, hf, hr => by
    rw [term] at h
    obtain ⟨parts, hp, h⟩ := Traced.bind_eq_ok.mp h
    obtain rfl := Traced.pure_eq_ok.mp h
    have hread := readProperties_propertyTerms c hc (e :: properties) path parts hk hl hp (by simp)
    set inner := List.intercalate ",\n" (Term.propertyTexts parts) with hinner
    have htext : (Term.object parts).text =
        "z." ++ (Callee.object.text ++ ("\n" ++ Lines.indent 1 inner ++ "\n\x7d)")) :=
      objectText_eq (ne_nil_of_propertyTerms hp)
    rw [htext] at hf ⊢
    refine readTerm_call _ _ hf fun f hlength => ?_
    have hle := length_le_indent inner
    simp only [List.length_append] at hlength
    have hbrace : after "\x7d)" (("\n" ++ Lines.indent 1 inner ++ "\n\x7d)") ++ rest) = none := rfl
    rw [readArguments, hbrace, readBlock_indent]
    simp only [Option.bind_eq_bind, Option.bind_some, List.drop_succ_cons, List.drop_zero,
      hread f (by omega), after_append, Option.map_some]
    rfl
  | .array element, path, t, .array hl, h, fuel, rest, hf, hr => by
    rw [term] at h
    obtain ⟨place, -, h⟩ := Traced.bind_eq_ok.mp h
    obtain ⟨inner, hi, h⟩ := Traced.bind_eq_ok.mp h
    obtain rfl := Traced.pure_eq_ok.mp h
    have htext : (Term.array inner).text = "z." ++ (Callee.array.text ++ (inner.text ++ ")")) := by
      simp only [Term.text, List.append_assoc]
      rfl
    rw [htext] at hf ⊢
    refine readTerm_call _ _ hf fun f hlength => ?_
    rw [List.length_append] at hlength
    have hend : EndsExpression (")" ++ rest) := fun d hm => Option.some.inj hm ▸ by decide
    have hpart := readTerm_term c hc element place inner hl hi f _ (by omega) hend.endsName
    rw [readSuffixes_end _ hend] at hpart
    rw [readArguments, List.append_assoc, hpart]
    simp only [Option.bind_eq_bind, Option.bind_some, after_append, Option.map_some]
    rfl
  | .union options, path, t, .union hl, h, fuel, rest, hf, hr => by
    rw [term] at h
    obtain ⟨parts, hp, h⟩ := Traced.bind_eq_ok.mp h
    obtain ⟨key, -, h⟩ := Traced.bind_eq_ok.mp h
    exact readTerm_unionTerm h hf (readOptions_optionTerms c hc options 0 path parts hl hp)
  | .nullable inner, path, t, .nullable hl, h, fuel, rest, hf, hr => by
    rw [term] at h
    obtain ⟨part, hp, h⟩ := Traced.bind_eq_ok.mp h
    obtain rfl := Traced.pure_eq_ok.mp h
    have hend : EndsName (Suffix.nullable.text ++ rest) := fun d hm =>
      Option.some.inj hm ▸ by decide
    rw [Term.text, List.length_append] at hf
    rw [Term.text, List.append_assoc]
    refine (readTerm_term c hc inner path part hl hp fuel _ (by omega) hend).trans ?_
    exact congrArg some (readSuffixes_text (s := .nullable) rfl le_rfl)
  | .optional inner, path, t, .optional hl, h, fuel, rest, hf, hr => by
    rw [term] at h
    obtain ⟨part, hp, h⟩ := Traced.bind_eq_ok.mp h
    obtain rfl := Traced.pure_eq_ok.mp h
    have hend : EndsName (Suffix.optional.text ++ rest) := fun d hm =>
      Option.some.inj hm ▸ by decide
    rw [Term.text, List.length_append] at hf
    rw [Term.text, List.append_assoc]
    refine (readTerm_term c hc inner path part hl hp fuel _ (by omega) hend).trans ?_
    exact congrArg some (readSuffixes_text (s := .optional) rfl le_rfl)
  | .string checks, path, t, .string hl, h, fuel, rest, hf, hr => by
    rw [term] at h
    exact readTerm_stringTerm hl h hf
  | .enum [], path, t, .enum hl, h, fuel, rest, hf, hr => by
    change (enumTerm []).outcome = .ok t at h
    exact readTerm_enumTerm hl h hf
  | .enum [v], path, t, .enum hl, h, fuel, rest, hf, hr => by
    rw [term] at h
    exact readTerm_literalTerm (hl v (by simp)) h hf
  | .enum (v :: w :: values), path, t, .enum hl, h, fuel, rest, hf, hr => by
    change (enumTerm (v :: w :: values)).outcome = .ok t at h
    exact readTerm_enumTerm hl h hf
  | .literal v, path, t, .literal hl, h, fuel, rest, hf, hr => by
    rw [term] at h
    exact readTerm_literalTerm hl h hf
  | .number, path, t, _, h, fuel, rest, hf, hr => by
    rw [term] at h
    obtain rfl := Traced.pure_eq_ok.mp h
    exact readTerm_call .number [] hf fun f _ => by
      rw [readArguments]
      rfl
  | .boolean, path, t, _, h, fuel, rest, hf, hr => by
    rw [term] at h
    obtain rfl := Traced.pure_eq_ok.mp h
    exact readTerm_call .boolean [] hf fun f _ => by
      rw [readArguments]
      rfl
  | .never, path, t, _, h, fuel, rest, hf, hr => by
    rw [term] at h
    obtain rfl := Traced.pure_eq_ok.mp h
    exact readTerm_call .never [] hf fun f _ => by
      rw [readArguments]
      rfl
  | .unknown, path, t, _, h, fuel, rest, hf, hr | .plain, path, t, _, h, fuel, rest, hf, hr => by
    rw [term] at h
    obtain rfl := Traced.pure_eq_ok.mp h
    exact readTerm_call .unknown [] hf fun f _ => by
      rw [readArguments]
      rfl

/-- The terms of options are read back as the outlines of the options. -/
theorem readOptions_optionTerms (c : Context) (hc : c.HasPlainPrefix) : ∀ (options : List Node)
    (index : Nat) (path : Key) (parts : List Term), (∀ option ∈ options, option.IsLegible) →
    (c.optionTerms index options path).outcome = .ok parts → ∀ (fuel : Nat) (rest : Text),
      (List.intercalate ", " (Term.optionTexts parts)).length + 1 < fuel →
      readOptions c.prefixWidth fuel
          (List.intercalate ", " (Term.optionTexts parts) ++ ("]" ++ rest)) =
        some (Node.outlineOptions options, rest)
  | _, _, _, _, _, _, 0, _, hf => absurd hf (Nat.not_lt_zero _)
  | [], index, path, parts, hl, h, fuel + 1, rest, hf => by
    obtain rfl : [] = parts := by simpa [optionTerms] using h
    exact readOptions_nil
  | option :: options, index, path, parts, hl, h, fuel + 1, rest, hf => by
    rw [optionTerms] at h
    obtain ⟨place, -, h⟩ := Traced.bind_eq_ok.mp h
    obtain ⟨first, ht, h⟩ := Traced.bind_eq_ok.mp h
    obtain ⟨others, ho, h⟩ := Traced.bind_eq_ok.mp h
    obtain rfl := Traced.pure_eq_ok.mp h
    obtain ⟨hfirst, hothers⟩ := List.forall_mem_cons.mp hl
    have hread := readTerm_term c hc option place first hfirst ht fuel
    rw [Term.optionTexts] at hf ⊢
    cases options with
    | nil =>
      obtain rfl : [] = others := by simpa [optionTerms] using ho
      rw [Term.optionTexts, List.intercalate_singleton] at hf ⊢
      have hend : EndsExpression ("]" ++ rest) := fun d hm => Option.some.inj hm ▸ by decide
      have hlast := hread _ (by omega) hend.endsName
      rw [readSuffixes_end _ hend] at hlast
      exact readOptions_last hlast
    | cons next options =>
      rw [List.intercalate_cons_of_ne_nil (ne_nil_of_optionTerms ho)] at hf ⊢
      simp only [List.length_append] at hf
      have hcomma : (", " : Text).length = 2 := rfl
      have hrest := readOptions_optionTerms c hc (next :: options) (index + 1) path others hothers
        ho fuel rest (by omega)
      set inner := List.intercalate ", " (Term.optionTexts others)
      have hend : EndsExpression (", " ++ (inner ++ ("]" ++ rest))) := fun d hm =>
        Option.some.inj hm ▸ by decide
      have hfront := hread _ (by omega) hend.endsName
      rw [readSuffixes_end _ hend] at hfront
      rw [List.append_assoc, List.append_assoc]
      exact readOptions_next hfront hrest

/-- The terms of properties are read back as the outlines of the properties. -/
theorem readProperties_propertyTerms (c : Context) (hc : c.HasPlainPrefix) :
    ∀ (properties : List (Key × Node)) (path : Key) (parts : List (Text × Term)),
    (∀ e ∈ properties, ∃ t : Text, e.1 = .text t ∧ t.IsJoined) →
    (∀ e ∈ properties, e.2.IsLegible) → (c.propertyTerms properties path).outcome = .ok parts →
    properties ≠ [] → ∀ fuel : Nat,
      (List.intercalate ",\n" (Term.propertyTexts parts)).length < fuel →
      readProperties c.prefixWidth fuel (List.intercalate ",\n" (Term.propertyTexts parts)) =
        some (Node.outlineProperties properties)
  | _, _, _, _, _, _, _, 0, hf => absurd hf (Nat.not_lt_zero _)
  | [], _, _, _, _, _, hne, _ + 1, _ => absurd rfl hne
  | (key, node) :: properties, path, parts, hk, hl, h, _, fuel + 1, hf => by
    obtain ⟨⟨key, rfl, hkey⟩, hkeys⟩ := List.forall_mem_cons.mp hk
    obtain ⟨hnode, hnodes⟩ := List.forall_mem_cons.mp hl
    obtain ⟨place, value, others, hv, ho, htexts⟩ := exists_of_propertyTerms h
    have hread := readTerm_term c hc node place value hnode hv fuel
    rw [htexts] at hf ⊢
    cases properties with
    | nil =>
      obtain rfl : [] = others := by simpa [propertyTerms] using ho
      rw [Term.propertyTexts, List.intercalate_singleton] at hf ⊢
      simp only [List.length_append] at hf
      have hcolon : (": " : Text).length = 2 := rfl
      have hend : EndsExpression [] := by simp [EndsExpression]
      have hlast := hread [] (by omega) hend.endsName
      rw [readSuffixes_end _ hend, List.append_nil] at hlast
      exact readProperties_last hkey hlast
    | cons e properties =>
      rw [List.intercalate_cons_of_ne_nil (ne_nil_of_propertyTerms ho)] at hf ⊢
      simp only [List.length_append] at hf
      have hcomma : (",\n" : Text).length = 2 := rfl
      have hrest := readProperties_propertyTerms c hc (e :: properties) path others hkeys hnodes ho
        (by simp) fuel (by omega)
      set inner := List.intercalate ",\n" (Term.propertyTexts others)
      have hend : EndsExpression (",\n" ++ inner) := fun d hm => Option.some.inj hm ▸ by decide
      have hfront := hread _ (by omega) hend.endsName
      rw [readSuffixes_end _ hend] at hfront
      rw [List.append_assoc, List.append_assoc, List.append_assoc]
      exact readProperties_next hkey hfront hrest

end

/-- The expression of a node is read back as the outline of the node. -/
theorem readTerm_expression (hc : c.HasPlainPrefix) {node : Node} (hl : node.IsLegible) {path : Key}
    {t : Text} (h : (c.expression node path).outcome = .ok t) :
    readTerm c.prefixWidth (t.length + 1) t = some (node.outline, []) := by
  obtain ⟨term, ht, h⟩ := Traced.bind_eq_ok.mp h
  obtain rfl := Traced.pure_eq_ok.mp h
  have hend : EndsExpression [] := by simp [EndsExpression]
  have hread := readTerm_term c hc node path term hl ht (term.text.length + 1) [] (by omega)
    hend.endsName
  rwa [List.append_nil, readSuffixes_end _ hend] at hread

/-- Nodes with one expression have one outline: in an expression no part of the outline is lost. -/
theorem outline_eq_of_expression {c : Context} (hc : c.HasPlainPrefix) {a b : Node}
    (ha : a.IsLegible) (hb : b.IsLegible) {p q : Key} {t : Text}
    (hta : (c.expression a p).outcome = .ok t) (htb : (c.expression b q).outcome = .ok t) :
    a.outline = b.outline := by
  have hread := (readTerm_expression hc ha hta).symm.trans (readTerm_expression hc hb htb)
  exact congrArg Prod.fst (Option.some.inj hread)

/-- A context without entries and with the settings that are taken by default. -/
def initial : Context := ⟨⟨[], [], fun _ => .error .endless, fun _ => []⟩, {}, {}⟩

/-- No prefix is a plain one. -/
theorem hasPlainPrefix_initial : initial.HasPlainPrefix := by
  intro front hf
  obtain rfl := Except.ok.inj hf
  rfl

/-- Objects that differ in nothing but what code does not say: what is required, where a reference
stems from, the value of a date check, and whether a single value is enumerated. -/
def orderNode (required : List Key) (origin : Nat) (date : Value) (status : Node) : Node :=
  .object [("placed at", .optional (.string [⟨.min, .int 1⟩, ⟨.date, date⟩])),
    ("pets", .array (.lazy ⟨.text "Pet", origin⟩)), ("status", .nullable status)] required

/-- The code of such objects. -/
def orderCode : Text :=
  "z.object(\x7b\n  \"placed at\": z.string().min(1).date().optional(),\n" ++
    "  pets: z.array(z.lazy(() => PetSchema)),\n  status: z.literal(\"open\").nullable()\n\x7d)"

/-- Such objects are legible when their status is. -/
theorem isLegible_orderNode {required : List Key} {origin : Nat} {date : Value} {status : Node}
    (h : status.IsLegible) : (orderNode required origin date status).IsLegible := by
  have hplaced : (Node.optional (.string [⟨.min, .int 1⟩, ⟨.date, date⟩])).IsLegible := by
    refine .optional (.string (List.forall_mem_cons.mpr ⟨.inr ⟨.inl rfl, 1, rfl⟩, ?_⟩))
    exact List.forall_mem_singleton.mpr (.inl rfl)
  have hpets : (Node.array (.lazy ⟨.text "Pet", origin⟩)).IsLegible := .array (.lazy (by decide))
  refine .object ?_ ?_
  · simp only [List.forall_mem_cons, List.not_mem_nil, false_implies, implies_true, and_true]
    exact ⟨⟨_, rfl, by decide⟩, ⟨_, rfl, by decide⟩, ⟨_, rfl, by decide⟩⟩
  · simp only [List.forall_mem_cons, List.not_mem_nil, false_implies, implies_true, and_true]
    exact ⟨hplaced, hpets, .nullable h⟩

/-- Such objects have one expression and one outline. -/
theorem outline_eq_of_expression_order :
    let a := orderNode ["status"] 1 (.bool true) (.enum ["open"])
    let b := orderNode [] 2 .null (.literal "open")
    initial.HasPlainPrefix ∧ a.IsLegible ∧ b.IsLegible ∧
      (initial.expression a "Order").outcome = .ok orderCode ∧
      (initial.expression b "Purchase").outcome = .ok orderCode ∧ a.outline = b.outline := by
  intro a b
  have hopen : Value.IsLegible (.text "open") := .text (by decide)
  have ha : a.IsLegible := isLegible_orderNode (.enum fun v hv => List.mem_singleton.mp hv ▸ hopen)
  have hb : b.IsLegible := isLegible_orderNode (.literal hopen)
  have code : ∀ {x : Except GenerationError Text},
      x.toOption = some orderCode → x = .ok orderCode := by
    intro x hx
    cases x with
    | error e => simp [Except.toOption] at hx
    | ok t => exact congrArg _ (Option.some.inj hx)
  have hta : (initial.expression a "Order").outcome = .ok orderCode := code (by decide +kernel)
  have htb : (initial.expression b "Purchase").outcome = .ok orderCode := code (by decide +kernel)
  exact ⟨hasPlainPrefix_initial, ha, hb, hta, htb,
    outline_eq_of_expression hasPlainPrefix_initial ha hb hta htb⟩

/-- An object with one property. -/
def propertyNode (key : Text) : Node := .object [(.text key, .number)] []

/-- A code point beyond U+FFFF. -/
def wideKey : Text := [⟨0x1F600, by decide⟩]

/-- The two surrogates that are the halves of the code point. -/
def halvesKey : Text := [⟨0xD83D, by decide⟩, ⟨0xDE00, by decide⟩]

/-- A code point and its halves are written alike, so a key with such surrogates is lost. -/
theorem expression_eq_of_halves : initial.HasPlainPrefix ∧
    ∃ t, (initial.expression (propertyNode wideKey) "A").outcome = .ok t ∧
      (initial.expression (propertyNode halvesKey) "A").outcome = .ok t ∧
      (propertyNode wideKey).outline ≠ (propertyNode halvesKey).outline := by
  refine ⟨hasPlainPrefix_initial, "z.object(\x7b\n  \"\\ud83d\\ude00\": z.number()\n\x7d)", rfl,
    rfl, fun h => ?_⟩
  have hkeys : wideKey = halvesKey := by
    simpa [propertyNode, Node.outline, Node.outlineProperties] using h
  exact absurd hkeys (by decide)

end Context

end ZodSchemas
