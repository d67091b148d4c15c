import ZodSchemas.Proofs.Conversion.Forms
import ZodSchemas.Proofs.Schema.Meaning
import ZodSchemas.Proofs.Validation.Regular

/-!
# The bodies of well-formed definitions

The references that a node follows for one value are those that its schema
comes to, so where no name comes to itself no reference leads back to itself.
Where lengths can be written, all bodies are regular.
-/

namespace ZodSchemas

/-- The lengths that a schema asks for can be written. -/
def HasWritableLengths (schema : Entries Value) : Prop :=
  ∀ keyword ∈ lengthKeywords, ∀ n, Entries.find? keyword schema = some (.int n) →
    ∃ t, Numeral.integer? n = some t

/-- An option of a schema is inside it. -/
theorem HasOptions.inside {schema sub : Entries Value} {options : List Value} {m : Value}
    (h : HasOptions schema options) (hm : m ∈ options) (hs : m.entries? = some sub) :
    Inside sub schema := by
  obtain ⟨keyword, hk, -, hl⟩ := h
  refine .member ?_ hl hm hs
  rcases hk with rfl | rfl
  · simp [memberKeywords]
  · simp [memberKeywords]

namespace Source

variable {source : Source} {definitions : Entries Value}

/-- What holds of the node of a schema when it holds of the nodes of the schemas inside holds of
the nodes of all well-formed schemas. -/
theorem converts_induction {motive : Entries Value → Node → Prop}
    (hd : source.definitions.entries? = some definitions)
    (step : ∀ schema inner, IsSchema schema → source.HasForm schema inner →
      (∀ sub node, Relation.TransGen Inside sub schema → source.Converts sub node →
        motive sub node) → motive schema (wrapped schema inner))
    {schema : Entries Value} {node : Node} (hs : IsSchema schema)
    (hf : (Value.map schema).isFinite = true) (h : source.Converts schema node) :
    motive schema node := by
  revert node hs
  refine schema_induction (motive := fun schema => ∀ {node}, IsSchema schema →
    source.Converts schema node → motive schema node) (fun schema hf ih node hs h => ?_) hf
  obtain ⟨inner, hform, rfl⟩ := hasForm_of_converts hd hs hf h
  exact step schema inner hs hform fun sub node hi hc => ih sub hi (hs.inside hi) hc

/-- The references that options follow together are those of each. -/
theorem mem_unguardedRefs_anyOf {nodes : List Node} {ref : Ref} :
    ref ∈ (anyOf nodes).unguardedRefs ↔ ∃ node ∈ nodes, ref ∈ node.unguardedRefs := by
  unfold anyOf
  split
  · simp [Node.unguardedRefs]
  · simp
  · rw [Node.unguardedRefs, Node.mem_unguardedOptionRefs]

/-- A node may be null without following more references. -/
theorem unguardedRefs_wrapped (schema : Entries Value) (node : Node) :
    (wrapped schema node).unguardedRefs = node.unguardedRefs := by
  unfold wrapped
  split
  · rw [Node.unguardedRefs]
  · rfl

/-- A list of values follows no reference. -/
theorem unguardedRefs_ofValues (values : List Value) :
    (Node.ofValues values).unguardedRefs = [] := by
  unfold Node.ofValues
  split <;> rfl

/-- A node follows the references that its schema comes to. -/
theorem comesTo_of_unguardedRefs (hd : source.definitions.entries? = some definitions)
    {schema : Entries Value} {node : Node} (hs : IsSchema schema)
    (hf : (Value.map schema).isFinite = true) (h : source.Converts schema node) :
    ∀ ref ∈ node.unguardedRefs, ∃ t, ref.name = .text t ∧ ComesTo schema t := by
  refine converts_induction (motive := fun schema node => ∀ ref ∈ node.unguardedRefs,
    ∃ t, ref.name = .text t ∧ ComesTo schema t) hd (fun schema inner hs hform ih => ?_) hs hf h
  intro ref hm
  rw [unguardedRefs_wrapped] at hm
  cases hform with
  | @reference t target hfound _ =>
    obtain rfl := List.mem_singleton.mp hm
    exact ⟨t.afterLast '/', rfl, .reference hfound⟩
  | @options options nodes hoptions hconverted =>
    obtain ⟨node, hn, hm⟩ := mem_unguardedRefs_anyOf.mp hm
    obtain ⟨m, hmem, sub, hsub, hc⟩ := exists_left_of_mem hconverted hn
    obtain ⟨t, ht, hcomes⟩ := ih sub node (.single (hoptions.inside hmem hsub)) hc ref hm
    exact ⟨t, ht, .option hoptions hmem hsub hcomes⟩
  | choice _ _ => simp [unguardedRefs_ofValues] at hm
  | _ => simp [Node.unguardedRefs] at hm

/-- The checks of a schema of texts are those for its lengths and its format. -/
theorem mem_stringChecks {schema : Entries Value} {check : Check} :
    check ∈ stringChecks schema ↔
      (∃ v, Entries.find? "minLength" schema = some v ∧ check = ⟨.min, v⟩) ∨
      (∃ v, Entries.find? "maxLength" schema = some v ∧ check = ⟨.max, v⟩) ∨
      Entries.find? "format" schema = some (.text "date") ∧ check = ⟨.date, .null⟩ := by
  have date : ((Entries.find? "format" schema).any fun v => v.equals "date") = true ↔
      Entries.find? "format" schema = some (.text "date") := by
    cases Entries.find? "format" schema with
    | none => simp
    | some v => simpa using Value.equals_text
  unfold stringChecks
  simp only [List.append_assoc, List.mem_append]
  refine or_congr ?_ (or_congr ?_ ?_)
  · cases Entries.find? "minLength" schema <;> simp
  · cases Entries.find? "maxLength" schema <;> simp
  · split
    · next hd => simp [date.mp hd]
    · next hd => simp [mt date.mpr hd]

/-- The checks for lengths that can be written can be made. -/
theorem isWritable_of_mem_stringChecks {schema : Entries Value} (hs : IsShaped schema)
    (hl : HasWritableLengths schema) : ∀ check ∈ stringChecks schema, check.IsWritable := by
  have integer : ∀ keyword ∈ lengthKeywords, ∀ v, Entries.find? keyword schema = some v →
      ∃ q t, v.quantity? = some q ∧ v.plain = .ok t := by
    intro keyword hk v hv
    obtain ⟨n, rfl⟩ := hs.lengths keyword hk v hv
    obtain ⟨t, ht⟩ := hl keyword hk n hv
    exact ⟨.finite n, t, rfl, by simp [Value.plain, Key.plain, Key.quoted, ht]⟩
  intro check hm _
  rcases mem_stringChecks.mp hm with ⟨v, hv, rfl⟩ | ⟨v, hv, rfl⟩ | ⟨-, rfl⟩
  · exact integer "minLength" (by simp [lengthKeywords]) v hv
  · exact integer "maxLength" (by simp [lengthKeywords]) v hv
  · simp_all

/-- Options that are regular are regular together. -/
theorem isRegular_anyOf {nodes : List Node} (h : ∀ node ∈ nodes, node.IsRegular) :
    (anyOf nodes).IsRegular := by
  unfold anyOf
  split
  · exact .never
  · exact h _ (by simp)
  · exact .union h

/-- Texts can be written, alone and among others. -/
theorem isRegular_ofTexts (texts : List Text) : (Node.ofValues (texts.map .text)).IsRegular := by
  have written : ∀ v ∈ texts.map Value.text, ∃ t, v.quoted = .ok t := by
    intro v hv
    obtain ⟨t, -, rfl⟩ := List.mem_map.mp hv
    exact ⟨_, rfl⟩
  unfold Node.ofValues
  split
  · next v he => exact .literal (written v (by simp [he]))
  · exact .enum written

/-- The node of a schema whose lengths can be written is regular. -/
theorem isRegular_of_converts (hd : source.definitions.entries? = some definitions)
    {schema : Entries Value} {node : Node} (hs : IsSchema schema)
    (hf : (Value.map schema).isFinite = true) (hl : Throughout HasWritableLengths schema)
    (h : source.Converts schema node) : node.IsRegular := by
  revert hl
  refine converts_induction (motive := fun schema node => Throughout HasWritableLengths schema →
    node.IsRegular) hd (fun schema inner hs hform ih hl => ?_) hs hf h
  have inside : ∀ {sub : Entries Value} {node : Node}, Relation.TransGen Inside sub schema →
      source.Converts sub node → node.IsRegular :=
    fun hi hc => ih _ _ hi hc (hl.inside hi)
  suffices hi : inner.IsRegular by
    unfold wrapped
    split
    · exact .nullable hi
    · exact hi
  cases hform with
  | reference _ _ => exact .lazy
  | dangling _ => exact .unknown
  | @object members nodes required hmembers _ hproperties =>
    refine .object fun e he => ?_
    obtain ⟨sub, found, node, hgov, hfound, hc, hval⟩ := (hproperties e).mp he
    have hnode := inside (inside_of_governs hs hmembers hgov hfound) hc
    rw [hval]
    split
    · exact hnode
    · exact .optional hnode
  | options hoptions hconverted =>
    refine isRegular_anyOf fun node hn => ?_
    obtain ⟨m, hm, sub, hsub, hc⟩ := exists_left_of_mem hconverted hn
    exact inside (.single (hoptions.inside hm hsub)) hc
  | array _ hfound hmapping hc => exact .array (inside (.single (.items hfound hmapping)) hc)
  | list _ _ => exact .array .unknown
  | choice _ _ => exact isRegular_ofTexts _
  | text _ _ => exact .string (isWritable_of_mem_stringChecks hs.self hl.self)
  | number _ => exact .number
  | boolean _ => exact .boolean
  | nothing _ => exact .unknown

end Source

namespace Converter

variable {c : Converter}

/-- No reference leads back to itself where no name comes to itself. -/
theorem isAcyclic (hd : AreDefinitions c.definitions) (hf : AreFinite c.definitions)
    (hn : NamesApart c.definitions) : c.registry.IsAcyclic := by
  obtain ⟨entries, he, -⟩ := hd.mapping
  have leads : ∀ ref next, c.registry.LeadsTo ref next → ∃ t, next.name = .text t ∧
      ∀ name, ref.name = .text name → NameLeads c.definitions name t := by
    rintro ref next ⟨body, hb, hm⟩
    rcases body_eq_ok.mp hb with ⟨schema, hs, hc⟩ | ⟨-, rfl⟩
    · obtain ⟨t, ht, hcomes⟩ := Source.comesTo_of_unguardedRefs he (hd.schemas _ _ hs)
        (hf _ _ hs) hc next hm
      exact ⟨t, ht, fun name hname => ⟨schema, hname ▸ hs, hcomes⟩⟩
    · simp [Node.unguardedRefs] at hm
  have leads_far : ∀ ref next, Relation.TransGen c.registry.LeadsTo ref next →
      ∃ t, next.name = .text t ∧ ∀ name, ref.name = .text name →
        Relation.TransGen (NameLeads c.definitions) name t := by
    intro ref next h
    induction h with
    | single h =>
      obtain ⟨t, ht, hlead⟩ := leads _ _ h
      exact ⟨t, ht, fun name hname => .single (hlead name hname)⟩
    | tail _ h ih =>
      obtain ⟨s, hs, hfar⟩ := ih
      obtain ⟨t, ht, hlead⟩ := leads _ _ h
      exact ⟨t, ht, fun name hname => (hfar name hname).tail (hlead s hs)⟩
  intro ref h
  obtain ⟨t, ht, hfar⟩ := leads_far ref ref h
  exact hn t (hfar t ht)

/-- Every reference has a regular body where the lengths of definitions can be written. -/
theorem hasRegularBodies (hd : AreDefinitions c.definitions) (hf : AreFinite c.definitions)
    (hl : ∀ name schema, Reference.definition? c.definitions name = .ok (some schema) →
      Throughout HasWritableLengths schema) : Validation.HasRegularBodies c.registry := by
  obtain ⟨entries, he, -⟩ := hd.mapping
  intro ref
  obtain ⟨found, hr⟩ := Source.exists_definition? he ref.name
  cases found with
  | none => exact ⟨.unknown, body_eq_ok.mpr (.inr ⟨hr, rfl⟩), .unknown⟩
  | some schema =>
    have hs := hd.schemas _ _ hr
    obtain ⟨node, hc⟩ := c.source.exists_converts he hs (hf _ _ hr)
    exact ⟨node, body_eq_ok.mpr (.inl ⟨schema, hr, hc⟩),
      Source.isRegular_of_converts he hs (hf _ _ hr) (hl _ _ hr) hc⟩

end Converter

end ZodSchemas
