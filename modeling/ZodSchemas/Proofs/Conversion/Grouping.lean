import ZodSchemas.Proofs.Conversion.Dangling
import ZodSchemas.Proofs.Conversion.Forms
import ZodSchemas.Proofs.Conversion.Unbounded
import ZodSchemas.Proofs.Value.Overlays

/-!
# Members taken together in groups

Members that are taken together come to one schema of type object: each property
at its first place and as the last member has it, and all required names one
after another. Taking them together is associative: members may be taken
together in groups, and the schemas of the groups after that. Members of other
types are its identities, taking all members once more changes nothing, and a
single member of type object stands for its own properties and required names.
-/

namespace ZodSchemas

/-- A schema that takes some members together. -/
def togetherSchema (members : List Value) : Value := .map [("allOf", .list members)]

/-- A schema of type object with what stands under the two keywords of objects, if anything. -/
def objectSchema (properties required : Option Value) : Value :=
  .map (("type", "object") :: ((properties.map fun v => (("properties" : Key), v)).toList ++
    (required.map fun v => (("required" : Key), v)).toList))

/-- The schema of type object that some members come to: each property at the place where it comes
first and as it comes last, and the required names one after another. -/
def gathered (members : List Value) : Value :=
  objectSchema (some (.map (Entries.overlaid ((objectMembers members).flatMap propertiesOf))))
    (some (.list ((objectMembers members).flatMap requiredOf)))

/-- A member is a schema with values of the right sort under its keywords. -/
def IsMember (m : Value) : Prop := ∃ schema, m.entries? = some schema ∧ IsShaped schema

/-- A schema of type object is a member when it declares schemas or nothing under different texts
and requires texts. -/
theorem isMember_objectSchema {entries : Entries Value} (hd : KeysDiffer (Entries.keys entries))
    (he : ∀ e ∈ entries, (∃ t, e.1 = .text t) ∧ (e.2 = .null ∨ ∃ sub, e.2.entries? = some sub))
    (names : List Text) :
    IsMember (objectSchema (some (.map entries)) (some (.list (names.map .text)))) := by
  refine ⟨_, rfl, ?_⟩
  constructor
  case properties =>
    intro v hv
    obtain rfl : Value.map entries = v := by simpa +decide [Entries.find?] using hv
    exact ⟨entries, rfl, hd, he⟩
  case required =>
    intro v hv
    obtain rfl : Value.list (names.map .text) = v := by simpa +decide [Entries.find?] using hv
    exact ⟨names, rfl⟩
  all_goals simp +decide [Entries.find?, memberKeywords, lengthKeywords]

/-- A value is finite when its parts are. -/
theorem Value.isFinite_of_parts {v : Value} (h : ∀ w ∈ v.parts, w.isFinite = true) :
    v.isFinite = true :=
  isFinite_iff.mpr ⟨v.depth + 1, fits_succ.mpr fun w hw =>
    fits_mono (h w hw) (depth_le_of_mem_parts hw)⟩

/-- The members of type object of two groups stand one after another. -/
theorem objectMembers_append (xs ys : List Value) :
    objectMembers (xs ++ ys) = objectMembers xs ++ objectMembers ys := by
  rw [objectMembers, List.filterMap_append, List.filter_append]
  rfl

/-- Each of the members of type object has values of the right sort under its keywords. -/
theorem isShaped_of_objectMembers {members : List Value} (h : ∀ m ∈ members, IsMember m) :
    ∀ schema ∈ objectMembers members, IsShaped schema := by
  intro schema hs
  obtain ⟨m, hm, he⟩ := List.mem_filterMap.mp (List.mem_filter.mp hs).1
  obtain ⟨schema', he', hshaped⟩ := h m hm
  rwa [Option.some.inj (he.symm.trans he')]

/-- The properties of all members are the properties of one after another, laid over one another. -/
theorem propertiesOfAll_eq_ofPairs (members : List (Entries Value)) :
    Merged.propertiesOfAll members = Entries.ofPairs (members.flatMap propertiesOf) := by
  induction members using List.reverseRecOn with
  | nil => rfl
  | append_singleton members m ih =>
    rw [Merged.propertiesOfAll_append, ih, List.flatMap_append, List.flatMap_singleton,
      Entries.ofPairs_append, Entries.merge_ofPairs (Entries.keysDiffer_ofPairs _)]

section Gathered

variable (members : List Value)

/-- What members come to is of type object. -/
theorem objectMembers_gathered : objectMembers [gathered members] = [([("type", "object"),
    ("properties", .map (Entries.overlaid ((objectMembers members).flatMap propertiesOf))),
    ("required", .list ((objectMembers members).flatMap requiredOf))] : Entries Value)] := by
  simp +decide [objectMembers, gathered, objectSchema, Value.entries?, Value.shape, isObject,
    Entries.find?, Value.equals_text]

/-- What members come to has the properties of all of them, laid over one another. -/
theorem propertiesOf_gathered : (objectMembers [gathered members]).flatMap propertiesOf =
    Entries.ofPairs ((objectMembers members).flatMap propertiesOf) := by
  rw [objectMembers_gathered, Entries.ofPairs_eq_overlaid]
  simp +decide [propertiesOf, Entries.find?, Value.entries?, Value.shape]

/-- What members come to requires what each of them requires. -/
theorem requiredOf_gathered : (objectMembers [gathered members]).flatMap requiredOf =
    (objectMembers members).flatMap requiredOf := by
  rw [objectMembers_gathered]
  simp +decide [requiredOf, Entries.find?, Value.items?, Value.shape]

variable {members}

/-- What members come to is a member itself. -/
theorem isMember_gathered (h : ∀ m ∈ members, IsMember m) : IsMember (gathered members) := by
  have hshaped := isShaped_of_objectMembers h
  obtain ⟨hd, hg⟩ := Merged.propertiesOfAll_spec hshaped
  obtain ⟨names, hn, -⟩ := exists_names_of_members hshaped
  rw [propertiesOfAll_eq_ofPairs, Entries.ofPairs_eq_overlaid] at hd hg
  rw [gathered, hn]
  exact isMember_objectSchema hd
    (fun e he => ⟨((hg e he).spec hshaped).1, ((hg e he).spec hshaped).2.1⟩) names

end Gathered

namespace Source

/-- Two schemas are converted to the same node, or fail for the same reason, and mention the same
references in the same order unless the conversion never ends. -/
structure ConvertsAlike (source : Source) (v w : Value) : Prop where
  /-- The same node. -/
  outcome : (source.convert v).outcome = (source.convert w).outcome
  /-- The same references. -/
  mentions : (source.convert v).outcome ≠ .error .endless →
    (source.convert v).events = (source.convert w).events

/-- The node of an object with some properties, of which those under some keys are required. -/
def objectWith (convert : Value → Conversion Node) (entries : Entries Value) (names : List Key) :
    Conversion Node := do
  let nodes ← properties convert (distinctKeys names) entries
  pure (.object nodes (distinctKeys names))

section Converting

variable {source : Source} {f : Value → Conversion Node}

/-- Schemas are converted alike when they ask the same of the schemas inside them, in whatever way
those are converted. -/
theorem convertsAlike_of_ofSchema_eq {v w : Value}
    (h : ∀ f, source.ofSchema f v = source.ofSchema f w) : source.ConvertsAlike v w := by
  have hwithin : ∀ n, source.convertWithin n v = source.convertWithin n w := by
    intro n
    cases n with
    | zero => rfl
    | succ n => exact h _
  have hvw : (source.convert v).Reaches (source.convert w) := by
    rw [convert, hwithin]
    exact convertWithin_reaches _ w
  have hwv : (source.convert w).Reaches (source.convert v) := by
    rw [convert, ← hwithin]
    exact convertWithin_reaches _ v
  by_cases hv : (source.convert v).outcome = .error .endless
  · refine ⟨?_, fun hne => absurd hv hne⟩
    by_cases hw : (source.convert w).outcome = .error .endless
    · rw [hv, hw]
    · exact congrArg Traced.outcome (hwv hw)
  · have he := hvw hv
    exact ⟨congrArg Traced.outcome he.symm, fun _ => congrArg Traced.events he.symm⟩

/-- An object is converted by its entries and by the distinct names that it requires. -/
theorem object_eq {schemas : Option Value} {entries : Entries Value} {values : List Value}
    {names : List Key} (he : (Value.orEmpty schemas).entries? = some entries)
    (hn : keysOf values = .ok names) :
    object f schemas (.ok values) = objectWith f entries names := by
  have hkeys : (Except.ok values : Except Fault (List Value)).bind keysOf = .ok names := hn
  rw [object, hkeys, objectWith, Value.entriesOf, he]
  rfl

/-- A schema that says nothing of null is converted by its form. -/
theorem ofSchema_eq_ofForm {schema : Entries Value} (h : Entries.find? "nullable" schema = none) :
    source.ofSchema f (.map schema) = source.ofForm f (.of schema) := by
  have hentries : (Value.map schema).entries? = some schema := rfl
  have hnull : isNullable schema = false := by rw [isNullable, h, Option.any_none]
  simp only [ofSchema, hentries, hnull, Bool.false_eq_true, if_false, bind_pure]

/-- Schemas of type object are converted as objects. -/
theorem ofSchema_objectSchema (properties required : Option Value) :
    source.ofSchema f (objectSchema properties required) =
      object f properties (Value.itemsIfAny required) := by
  rw [objectSchema, ofSchema_eq_ofForm]
  · cases properties <;> cases required <;>
      simp +decide [Form.of, Form.ofType, Entries.find?, ofForm, Value.equals_text]
  · cases properties <;> cases required <;> simp +decide [Entries.find?]

/-- Members that are taken together are converted as one object, of the properties of all and the
required names of all. -/
theorem ofSchema_togetherSchema {members : List Value} (h : ∀ m ∈ members, IsMember m)
    {names : List Key} (hn : keysOf ((objectMembers members).flatMap requiredOf) = .ok names) :
    source.ofSchema f (togetherSchema members) =
      objectWith f (Entries.ofPairs ((objectMembers members).flatMap propertiesOf)) names := by
  have hitems : Value.itemsOf (.list members) = .ok members := rfl
  have hform : Form.of [("allOf", .list members)] = .allOf (.list members) := by
    simp +decide [Form.of, Entries.find?]
  have hobject := object_eq (f := f)
    (orEmpty_of_entries? (v := .map (Merged.propertiesOfAll (objectMembers members))) rfl) hn
  rw [togetherSchema, ofSchema_eq_ofForm (by simp +decide [Entries.find?]),
    ← propertiesOfAll_eq_ofPairs, ← hobject, hform, ofForm, hitems]
  simp only [Traced.liftM_ok, Traced.bind_ok, Merged.ofMembers_eq h]
  rfl

end Converting

/-- What members list as required is known by keys. -/
theorem exists_keysOf {members : List Value} (h : ∀ m ∈ members, IsMember m) :
    ∃ names, keysOf ((objectMembers members).flatMap requiredOf) = .ok names := by
  obtain ⟨names, hn, -⟩ := exists_names_of_members (isShaped_of_objectMembers h)
  exact ⟨_, hn ▸ keysOf_texts names⟩

/-- Members are taken together alike when their properties come to the same and they require the
same names, however often. -/
theorem convertsAlike_together {source : Source} {xs ys : List Value} {names others : List Key}
    (hx : ∀ m ∈ xs, IsMember m) (hy : ∀ m ∈ ys, IsMember m)
    (hp : Entries.ofPairs ((objectMembers xs).flatMap propertiesOf) =
      Entries.ofPairs ((objectMembers ys).flatMap propertiesOf))
    (hn : keysOf ((objectMembers xs).flatMap requiredOf) = .ok names)
    (ho : keysOf ((objectMembers ys).flatMap requiredOf) = .ok others)
    (hd : distinctKeys names = distinctKeys others) :
    source.ConvertsAlike (togetherSchema xs) (togetherSchema ys) :=
  convertsAlike_of_ofSchema_eq fun f => by
    rw [ofSchema_togetherSchema hx hn, ofSchema_togetherSchema hy ho, hp, objectWith, hd]
    rfl

/-- Taking members together is as lawful as laying entries over one another. -/
structure MergesLawfully (source : Source) (xs ys : List Value) : Prop where
  /-- Two groups may be taken together first. -/
  grouped : source.ConvertsAlike (togetherSchema (xs ++ ys))
    (togetherSchema [gathered xs, gathered ys])
  /-- Members of other types may come in anywhere. -/
  others : ∀ zs, (∀ m ∈ zs, IsMember m) → objectMembers zs = objectMembers xs →
    source.ConvertsAlike (togetherSchema zs) (togetherSchema xs)
  /-- The whole group may come again. -/
  repeated : source.ConvertsAlike (togetherSchema (xs ++ xs)) (togetherSchema xs)
  /-- A single member of type object stands for its own properties and required names. -/
  single : ∀ m ∈ xs, ∀ schema, m.entries? = some schema → isObject schema = true →
    source.ConvertsAlike (togetherSchema [m])
      (objectSchema (Entries.find? "properties" schema) (Entries.find? "required" schema))
  /-- There is a node, where references can be looked up and no schema is inside itself. -/
  converts : ∀ definitions, source.definitions.entries? = some definitions →
    (∀ m ∈ xs ++ ys, ∃ schema, m.entries? = some schema ∧ IsSchema schema ∧ m.isFinite = true) →
    ∃ node, (source.convert (togetherSchema (xs ++ ys))).outcome = .ok node

section Laws

variable {source : Source} {xs ys zs : List Value}

/-- Two groups may be taken together first, and the schemas that they come to after that. -/
theorem convertsAlike_grouped (hx : ∀ m ∈ xs, IsMember m) (hy : ∀ m ∈ ys, IsMember m) :
    source.ConvertsAlike (togetherSchema (xs ++ ys))
      (togetherSchema [gathered xs, gathered ys]) := by
  have hxy : ∀ m ∈ xs ++ ys, IsMember m := List.forall_mem_append.mpr ⟨hx, hy⟩
  have hgroups : ∀ m ∈ [gathered xs, gathered ys], IsMember m := by
    simp [isMember_gathered hx, isMember_gathered hy]
  have hsplit : objectMembers [gathered xs, gathered ys] =
      objectMembers [gathered xs] ++ objectMembers [gathered ys] := objectMembers_append [_] [_]
  have hrequired : (objectMembers [gathered xs, gathered ys]).flatMap requiredOf =
      (objectMembers (xs ++ ys)).flatMap requiredOf := by
    rw [hsplit, objectMembers_append, List.flatMap_append, List.flatMap_append,
      requiredOf_gathered, requiredOf_gathered]
  obtain ⟨names, hn⟩ := exists_keysOf hxy
  refine convertsAlike_together hxy hgroups ?_ hn (hrequired ▸ hn) rfl
  have hself : ∀ pairs : List (Key × Value), Entries.ofPairs (Entries.ofPairs pairs) =
      Entries.ofPairs pairs :=
    fun pairs => Entries.ofPairs_eq_self (Entries.keysDiffer_ofPairs pairs)
  calc Entries.ofPairs ((objectMembers (xs ++ ys)).flatMap propertiesOf)
      = Entries.merge (Entries.ofPairs ((objectMembers xs).flatMap propertiesOf))
          (Entries.ofPairs ((objectMembers ys).flatMap propertiesOf)) := by
        rw [objectMembers_append, List.flatMap_append, Entries.ofPairs_append]
    _ = Entries.ofPairs ((objectMembers [gathered xs, gathered ys]).flatMap propertiesOf) := by
        rw [hsplit, List.flatMap_append, propertiesOf_gathered, propertiesOf_gathered,
          Entries.ofPairs_append, hself, hself]

/-- Members of other types than object may come in anywhere, or be left out. -/
theorem convertsAlike_others (hx : ∀ m ∈ xs, IsMember m) (hz : ∀ m ∈ zs, IsMember m)
    (h : objectMembers zs = objectMembers xs) :
    source.ConvertsAlike (togetherSchema zs) (togetherSchema xs) := by
  obtain ⟨names, hn⟩ := exists_keysOf hx
  exact convertsAlike_together hz hx (by rw [h]) (h ▸ hn) hn rfl

/-- Taking the same members along once more changes nothing. -/
theorem convertsAlike_repeated (hx : ∀ m ∈ xs, IsMember m) :
    source.ConvertsAlike (togetherSchema (xs ++ xs)) (togetherSchema xs) := by
  obtain ⟨names, hn, -⟩ := exists_names_of_members (isShaped_of_objectMembers hx)
  have hself : keysOf ((objectMembers xs).flatMap requiredOf) = .ok (names.map .text) :=
    hn ▸ keysOf_texts names
  have htwice : keysOf ((objectMembers (xs ++ xs)).flatMap requiredOf) =
      .ok (names.map .text ++ names.map .text) := by
    rw [objectMembers_append, List.flatMap_append, hn, ← List.map_append, keysOf_texts,
      List.map_append]
  refine convertsAlike_together (List.forall_mem_append.mpr ⟨hx, hx⟩) hx ?_ htwice hself
    (distinctKeys_append_self _)
  rw [objectMembers_append, List.flatMap_append, Entries.ofPairs_append_self]

/-- A single member of type object is converted as the object that it declares. -/
theorem convertsAlike_single {m : Value} {schema : Entries Value} (he : m.entries? = some schema)
    (hs : IsShaped schema) (ho : isObject schema = true) :
    source.ConvertsAlike (togetherSchema [m])
      (objectSchema (Entries.find? "properties" schema) (Entries.find? "required" schema)) := by
  have hm : ∀ m' ∈ [m], IsMember m' := by simpa using ⟨schema, he, hs⟩
  have hmembers : objectMembers [m] = [schema] := by simp [objectMembers, he, ho]
  obtain ⟨names, hn, hi, -⟩ := hs.required_spec
  have hkeys : keysOf ((objectMembers [m]).flatMap requiredOf) = .ok (names.map .text) := by
    rw [hmembers, List.flatMap_singleton, hn, keysOf_texts]
  refine convertsAlike_of_ofSchema_eq fun f => ?_
  rw [ofSchema_togetherSchema hm hkeys, hmembers, List.flatMap_singleton,
    Entries.ofPairs_eq_self hs.propertiesOf_spec.1, ofSchema_objectSchema, hi,
    object_eq hs.entries_of_properties (keysOf_texts names)]

/-- What is inside a schema that takes some members together is one of them. -/
theorem exists_of_inside_together {sub : Entries Value}
    (h : Inside sub [("allOf", .list xs)]) : ∃ m ∈ xs, m.entries? = some sub := by
  cases h with
  | @member _ _ keyword items m _ hl hm he =>
    obtain ⟨v, hv, hshape⟩ := hl
    obtain ⟨-, rfl⟩ : Key.text "allOf" = Key.text keyword ∧ Value.list xs = v := by
      simpa [Entries.find?] using hv
    obtain rfl : xs = items := by simpa [Value.shape] using hshape
    exact ⟨m, hm, he⟩
  | property hv _ _ _ => simp +decide [Entries.find?] at hv
  | items hv _ => simp +decide [Entries.find?] at hv

/-- A schema that takes some members together has values of the right sort under its keywords. -/
theorem isShaped_together (hx : ∀ m ∈ xs, ∃ schema, m.entries? = some schema) :
    IsShaped [("allOf", .list xs)] := by
  constructor
  case members => simpa +decide [Entries.find?, memberKeywords, Value.shape] using hx
  all_goals simp +decide [Entries.find?, lengthKeywords]

/-- A schema that takes some members together is not inside itself when they are not. -/
theorem isFinite_together (hx : ∀ m ∈ xs, m.isFinite = true) :
    (togetherSchema xs).isFinite = true := by
  have hlist : (Value.list xs).isFinite = true := Value.isFinite_of_parts hx
  refine Value.isFinite_of_parts fun w hw => ?_
  obtain rfl : w = .list xs := by simpa [togetherSchema, Value.parts, Value.shape] using hw
  exact hlist

/-- Well-formed members that are not inside themselves are taken together to a node. -/
theorem exists_convert_together {definitions : Entries Value}
    (hd : source.definitions.entries? = some definitions)
    (hx : ∀ m ∈ xs, ∃ schema, m.entries? = some schema ∧ IsSchema schema ∧ m.isFinite = true) :
    ∃ node, (source.convert (togetherSchema xs)).outcome = .ok node := by
  have hs : IsSchema [("allOf", .list xs)] := by
    refine .of_parts (isShaped_together fun m hm => (hx m hm).imp fun _ => And.left) ?_
    intro sub hi
    obtain ⟨m, hm, he⟩ := exists_of_inside_together hi
    obtain ⟨schema, he', hschema, -⟩ := hx m hm
    rwa [Option.some.inj (he.symm.trans he')]
  have hf := isFinite_together fun m hm => (hx m hm).elim fun _ h => h.2.2
  obtain ⟨node, hnode⟩ := exists_converts hd hs hf
  exact ⟨node, hnode⟩

end Laws

/-- Taking well-formed members together is lawful. -/
theorem together_mergesLawfully (source : Source) {xs ys : List Value}
    (h : ∀ m ∈ xs ++ ys, IsMember m) : source.MergesLawfully xs ys := by
  obtain ⟨hx, hy⟩ := List.forall_mem_append.mp h
  exact {
    grouped := convertsAlike_grouped hx hy
    others := fun _ hz ho => convertsAlike_others hx hz ho
    repeated := convertsAlike_repeated hx
    single := fun m hm schema he ho => by
      obtain ⟨found, hfound, hs⟩ := hx m hm
      obtain rfl := Option.some.inj (hfound.symm.trans he)
      exact convertsAlike_single he hs ho
    converts := fun _ hd hxy => exists_convert_together hd hxy }

/-- A group with a text and a number of which the text is required, and a member of another type. -/
def firstGroup : List Value :=
  [objectSchema (some (.map [("a", .map [("type", "string")]), ("b", .map [("type", "number")])]))
    (some (.list ["a"])), .map [("type", "boolean")]]

/-- A group that takes the number away again, has one more property and requires it. -/
def secondGroup : List Value :=
  [objectSchema
    (some (.map [("b", .null), ("c", .map [("type", "string"), ("nullable", .bool true)])]))
    (some (.list ["c", "a"]))]

/-- Two groups with a property in common are taken together lawfully. -/
theorem together_mergesLawfully_overlapping :
    (∀ m ∈ firstGroup ++ secondGroup, IsMember m) ∧
    Source.MergesLawfully ⟨.map [], 0⟩ firstGroup secondGroup ∧
    (Source.convert ⟨.map [], 0⟩ (togetherSchema (firstGroup ++ secondGroup))).outcome =
      .ok (.object [("a", .string []), ("c", .nullable (.string []))] ["a", "c"]) := by
  have h : ∀ m ∈ firstGroup ++ secondGroup, IsMember m := by
    have hboolean : IsMember (.map [("type", "boolean")]) := by
      refine ⟨_, rfl, ?_⟩
      constructor <;> simp +decide [Entries.find?, memberKeywords, lengthKeywords]
    simp only [firstGroup, secondGroup, List.cons_append, List.nil_append, List.forall_mem_cons]
    refine ⟨isMember_objectSchema (by simp +decide [KeysDiffer]) ?_ ["a"], hboolean,
      isMember_objectSchema (by simp +decide [KeysDiffer]) ?_ ["c", "a"], by simp⟩
    all_goals simp [Value.entries?, Value.shape]
  exact ⟨h, together_mergesLawfully _ h, rfl⟩

end Source

end ZodSchemas
