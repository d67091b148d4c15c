import ZodSchemas.Proofs.Schema.Meaning

/-!
# What a schema asks for, by its topic

The first leading keyword of a schema, or else its type, settles which of the
rules of acceptance apply to it: there is one topic for each of them. So what a
schema accepts is characterized topic by topic.
-/

namespace ZodSchemas

/-- The rules of acceptance. -/
inductive Topic where
  /-- A reference. -/
  | reference
  /-- Options. -/
  | options
  /-- An object. -/
  | object
  /-- A list. -/
  | array
  /-- A text. -/
  | string
  /-- A number. -/
  | number
  /-- A truth value. -/
  | boolean
  /-- Anything. -/
  | anything
deriving DecidableEq

/-- The topic of a type. -/
def Topic.ofType (name : Text) : Topic :=
  if name = "object" then .object
  else if name = "array" then .array
  else if name = "string" then .string
  else if name = "number" ∨ name = "integer" then .number
  else if name = "boolean" then .boolean
  else .anything

/-- The topic of a schema. -/
def Topic.of (schema : Entries Value) : Topic :=
  match decisive schema with
  | some keyword =>
    if keyword = "$ref" then .reference
    else if keyword = "allOf" then .object
    else .options
  | none =>
    match Entries.find? "type" schema with
    | some (.text name) => .ofType name
    | _ => .anything

section Topics

variable {definitions : Value} {schema : Entries Value}

/-- A schema that refers to something is about that. -/
theorem RefersTo.topic {target : Option (Entries Value)} (h : RefersTo definitions schema target) :
    Topic.of schema = .reference := by
  obtain ⟨t, ht, -⟩ := h
  have hd : decisive schema = some "$ref" := by simp [decisive, leadingKeywords, Entries.has, ht]
  simp [Topic.of, hd]

/-- A schema with options is about them. -/
theorem HasOptions.topic {options : List Value} (h : HasOptions schema options) :
    Topic.of schema = .options := by
  obtain ⟨keyword, rfl | rfl, hd, -⟩ := h
  · rw [Topic.of, hd]
    rfl
  · rw [Topic.of, hd]
    rfl

/-- A schema with a type is about that. -/
theorem HasType.topic {name : Text} (h : HasType schema name) :
    Topic.of schema = .ofType name := by
  rw [Topic.of, h.1, h.2]

/-- A schema with members is about an object. -/
theorem HasMembers.topic {members : List (Entries Value)} (h : HasMembers schema members) :
    Topic.of schema = .object := by
  cases h with
  | own h => exact h.topic
  | allOf hd _ =>
    rw [Topic.of, hd]
    rfl

/-- A schema of numbers is about them. -/
theorem topic_number (h : HasType schema "number" ∨ HasType schema "integer") :
    Topic.of schema = .number := by
  rcases h with h | h
  · exact h.topic
  · exact h.topic

/-- A schema that asks for nothing is about nothing. -/
theorem AsksNothing.topic (h : AsksNothing schema) : Topic.of schema = .anything := by
  obtain ⟨hd, hn⟩ := h
  rw [Topic.of, hd]
  simp only []
  split
  · next name ht =>
    have hne : ∀ known ∈ knownTypes, name ≠ known := fun known hk he => hn known hk (he ▸ ht)
    simp only [knownTypes, List.forall_mem_cons] at hne
    simp [Topic.ofType, hne]
  · rfl

/-- A schema refers to one thing. -/
theorem RefersTo.unique {target other : Option (Entries Value)}
    (h : RefersTo definitions schema target) (ho : RefersTo definitions schema other) :
    target = other := by
  obtain ⟨t, ht, hd⟩ := h
  obtain ⟨s, hs, ho⟩ := ho
  obtain rfl : t = s := by simpa [ht] using hs
  simpa [hd] using ho

/-- A keyword lists one thing. -/
theorem Lists.unique {keyword : Text} {items others : List Value}
    (h : Lists schema keyword items) (ho : Lists schema keyword others) : items = others := by
  obtain ⟨v, hv, hs⟩ := h
  obtain ⟨w, hw, ho⟩ := ho
  obtain rfl : v = w := by simpa [hv] using hw
  simpa [hs] using ho

/-- A schema has its options once. -/
theorem HasOptions.unique {options others : List Value} (h : HasOptions schema options)
    (ho : HasOptions schema others) : options = others := by
  obtain ⟨keyword, -, hd, hl⟩ := h
  obtain ⟨other, -, hd', hl'⟩ := ho
  obtain rfl : keyword = other := by simpa [hd] using hd'
  exact hl.unique hl'

/-- A schema has its members once. -/
theorem HasMembers.unique {members others : List (Entries Value)} (h : HasMembers schema members)
    (ho : HasMembers schema others) : members = others := by
  cases h with
  | own h =>
    cases ho with
    | own _ => rfl
    | allOf hd _ => simp [h.1] at hd
  | allOf hd hl =>
    cases ho with
    | own ho => simp [ho.1] at hd
    | allOf _ hl' => rw [hl.unique hl']

end Topics

section Values

variable {definitions : Value} {schema : Entries Value} {v : Value}

/-- What a schema of some topic asks a value for. -/
def Topic.Asks (definitions : Value) (schema : Entries Value) (v : Value) : Topic → Prop
  | .reference => ∃ target, RefersTo definitions schema target ∧
      ∀ found, target = some found → Accepts definitions found v
  | .options => ∃ options, HasOptions schema options ∧
      ∃ m ∈ options, ∃ sub, m.entries? = some sub ∧ Accepts definitions sub v
  | .object => ∃ members entries, HasMembers schema members ∧ v.entries? = some entries ∧
      (∀ key sub inner w, Governs members key sub → sub.entries? = some inner →
        Entries.find? key entries = some w → Accepts definitions inner w) ∧
      ∀ key sub inner, Governs members key sub → sub.entries? = some inner →
        Entries.find? key entries = none → Requires members key → AcceptsAbsent definitions inner
  | .array => ∃ items, Validation.listItems? v = some items ∧
      ∀ sub inner w, Entries.find? "items" schema = some sub → sub.entries? = some inner →
        w ∈ items → Accepts definitions inner w
  | .string => ∃ t, v = .text t ∧
      ((∃ texts : List Text, Lists schema "enum" (texts.map .text) ∧ t ∈ texts) ∨
        Entries.find? "enum" schema = none ∧ IsTextOf schema t)
  | .number => (∃ n, v = .int n) ∨ ∃ x, v = .float x
  | .boolean => ∃ b, v = .bool b
  | .anything => True

/-- A value that a schema asks for is what its topic asks for. -/
theorem AsksFor.topic (h : AsksFor definitions schema v) :
    (Topic.of schema).Asks definitions schema v := by
  cases h with
  | reference h accepted =>
    rw [h.topic]
    refine ⟨_, h, ?_⟩
    rintro found ⟨⟩
    exact accepted
  | dangling h =>
    rw [h.topic]
    exact ⟨none, h, by simp⟩
  | option h member mapping accepted =>
    rw [h.topic]
    exact ⟨_, h, _, member, _, mapping, accepted⟩
  | object h mapping present absent =>
    rw [h.topic]
    exact ⟨_, _, h, mapping, present, absent⟩
  | array h listed elements =>
    rw [h.topic]
    exact ⟨_, listed, elements⟩
  | choice h listed member =>
    rw [h.topic]
    exact ⟨_, rfl, .inl ⟨_, listed, member⟩⟩
  | text h free fit =>
    rw [h.topic]
    exact ⟨_, rfl, .inr ⟨free, fit⟩⟩
  | integer h =>
    rw [topic_number h]
    exact .inl ⟨_, rfl⟩
  | float h =>
    rw [topic_number h]
    exact .inr ⟨_, rfl⟩
  | boolean h =>
    rw [h.topic]
    exact ⟨_, rfl⟩
  | nothing h =>
    rw [h.topic]
    trivial

/-- A schema that refers to a definition asks for what that accepts. -/
theorem asksFor_reference {target : Entries Value} (h : RefersTo definitions schema (some target)) :
    AsksFor definitions schema v ↔ Accepts definitions target v := by
  refine ⟨fun ha => ?_, .reference h⟩
  have hv := ha.topic
  rw [h.topic] at hv
  obtain ⟨other, ho, accepted⟩ := hv
  exact accepted target (ho.unique h)

/-- A schema with options asks for what one of them accepts. -/
theorem asksFor_options {options : List Value} (h : HasOptions schema options) :
    AsksFor definitions schema v ↔
      ∃ m ∈ options, ∃ sub, m.entries? = some sub ∧ Accepts definitions sub v := by
  constructor
  · intro ha
    have hv := ha.topic
    rw [h.topic] at hv
    obtain ⟨others, ho, hm⟩ := hv
    exact h.unique ho ▸ hm
  · rintro ⟨m, hm, sub, hs, accepted⟩
    exact .option h hm hs accepted

/-- A schema with members asks for a mapping with their properties. -/
theorem asksFor_object {members : List (Entries Value)} (h : HasMembers schema members) :
    AsksFor definitions schema v ↔ ∃ entries, v.entries? = some entries ∧
      (∀ key sub inner w, Governs members key sub → sub.entries? = some inner →
        Entries.find? key entries = some w → Accepts definitions inner w) ∧
      ∀ key sub inner, Governs members key sub → sub.entries? = some inner →
        Entries.find? key entries = none → Requires members key →
        AcceptsAbsent definitions inner := by
  constructor
  · intro ha
    have hv := ha.topic
    rw [h.topic] at hv
    obtain ⟨others, entries, ho, hentries, hparts⟩ := hv
    obtain rfl := h.unique ho
    exact ⟨entries, hentries, hparts⟩
  · rintro ⟨entries, hv, present, absent⟩
    exact .object h hv present absent

/-- A schema of lists asks for one with elements that are accepted. -/
theorem asksFor_array (h : HasType schema "array") :
    AsksFor definitions schema v ↔ ∃ items, Validation.listItems? v = some items ∧
      ∀ sub inner w, Entries.find? "items" schema = some sub → sub.entries? = some inner →
        w ∈ items → Accepts definitions inner w := by
  constructor
  · intro ha
    have hv := ha.topic
    rw [h.topic] at hv
    exact hv
  · rintro ⟨items, hv, elements⟩
    exact .array h hv elements

/-- A schema that lists texts asks for one of them. -/
theorem asksFor_choice {texts : List Text} (h : HasType schema "string")
    (hl : Lists schema "enum" (texts.map .text)) :
    AsksFor definitions schema v ↔ v ∈ texts.map Value.text := by
  constructor
  · intro ha
    have hv := ha.topic
    rw [h.topic] at hv
    obtain ⟨t, rfl, ⟨others, ho, ht⟩ | ⟨free, -⟩⟩ := hv
    · rw [hl.unique ho]
      exact List.mem_map_of_mem ht
    · obtain ⟨w, hw, -⟩ := hl
      simp [free] at hw
  · intro hv
    obtain ⟨t, ht, rfl⟩ := List.mem_map.mp hv
    exact .choice h hl ht

/-- A schema of texts asks for one of the right length and format. -/
theorem asksFor_text (h : HasType schema "string") (free : Entries.find? "enum" schema = none) :
    AsksFor definitions schema v ↔ ∃ t, v = .text t ∧ IsTextOf schema t := by
  constructor
  · intro ha
    have hv := ha.topic
    rw [h.topic] at hv
    obtain ⟨t, rfl, ⟨others, ⟨w, hw, -⟩, -⟩ | ⟨-, fit⟩⟩ := hv
    · simp [free] at hw
    · exact ⟨t, rfl, fit⟩
  · rintro ⟨t, rfl, fit⟩
    exact .text h free fit

/-- A schema of numbers asks for one. -/
theorem asksFor_number (h : HasType schema "number" ∨ HasType schema "integer") :
    AsksFor definitions schema v ↔ (∃ n, v = .int n) ∨ ∃ x, v = .float x := by
  constructor
  · intro ha
    have hv := ha.topic
    rw [topic_number h] at hv
    exact hv
  · rintro (⟨n, rfl⟩ | ⟨x, rfl⟩)
    · exact .integer h
    · exact .float h

/-- A schema of truth values asks for one. -/
theorem asksFor_boolean (h : HasType schema "boolean") :
    AsksFor definitions schema v ↔ ∃ b, v = .bool b := by
  constructor
  · intro ha
    have hv := ha.topic
    rw [h.topic] at hv
    exact hv
  · rintro ⟨b, rfl⟩
    exact .boolean h

end Values

section Absence

variable {definitions : Value} {schema : Entries Value}

/-- What has to hold for a schema of some topic to accept the absence of a value. -/
def Topic.MayBeAbsent (definitions : Value) (schema : Entries Value) : Topic → Prop
  | .reference => ∃ target, RefersTo definitions schema target ∧
      ∀ found, target = some found → AcceptsAbsent definitions found
  | .options => ∃ m sub, HasOptions schema [m] ∧ m.entries? = some sub ∧
      AcceptsAbsent definitions sub
  | .anything => True
  | _ => False

/-- A schema that accepts absence does so by its topic. -/
theorem AcceptsAbsent.topic (h : AcceptsAbsent definitions schema) :
    (Topic.of schema).MayBeAbsent definitions schema := by
  cases h with
  | reference _ h absent =>
    rw [h.topic]
    refine ⟨_, h, ?_⟩
    rintro found ⟨⟩
    exact absent
  | dangling _ h =>
    rw [h.topic]
    exact ⟨none, h, by simp⟩
  | option _ h mapping absent =>
    rw [h.topic]
    exact ⟨_, _, h, mapping, absent⟩
  | nothing _ h =>
    rw [h.topic]
    trivial

/-- A schema that accepts absence does not accept null instead. -/
theorem AcceptsAbsent.present (h : AcceptsAbsent definitions schema) : ¬ AcceptsNull schema := by
  cases h with
  | reference hp => exact hp
  | dangling hp => exact hp
  | option hp => exact hp
  | nothing hp => exact hp

/-- A schema that refers to a definition accepts absence when that does. -/
theorem acceptsAbsent_reference {target : Entries Value} (hp : ¬ AcceptsNull schema)
    (h : RefersTo definitions schema (some target)) :
    AcceptsAbsent definitions schema ↔ AcceptsAbsent definitions target := by
  refine ⟨fun ha => ?_, .reference hp h⟩
  have hv := ha.topic
  rw [h.topic] at hv
  obtain ⟨other, ho, absent⟩ := hv
  exact absent target (ho.unique h)

/-- A schema with options accepts absence when there is one option, which does. -/
theorem acceptsAbsent_options {options : List Value} (hp : ¬ AcceptsNull schema)
    (h : HasOptions schema options) :
    AcceptsAbsent definitions schema ↔ ∃ m sub, options = [m] ∧ m.entries? = some sub ∧
      AcceptsAbsent definitions sub := by
  constructor
  · intro ha
    have hv := ha.topic
    rw [h.topic] at hv
    obtain ⟨m, sub, ho, hs, absent⟩ := hv
    exact ⟨m, sub, h.unique ho, hs, absent⟩
  · rintro ⟨m, sub, rfl, hs, absent⟩
    exact .option hp h hs absent

/-- Only references, options and nothing at all accept absence. -/
theorem not_acceptsAbsent (h : Topic.of schema ∉ [.reference, .options, .anything]) :
    ¬ AcceptsAbsent definitions schema := by
  intro ha
  cases ha with
  | reference _ hr => exact h (by simp [hr.topic])
  | dangling _ hr => exact h (by simp [hr.topic])
  | option _ ho => exact h (by simp [ho.topic])
  | nothing _ hn => exact h (by simp [hn.topic])

end Absence

end ZodSchemas
