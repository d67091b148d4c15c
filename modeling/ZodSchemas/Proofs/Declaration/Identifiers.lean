import ZodSchemas.Proofs.Declaration.Agreement
import ZodSchemas.Proofs.Declaration.Placement
import ZodSchemas.Proofs.Declaration.Warnings
import ZodSchemas.Proofs.Text.Identifier

/-!
# The identifiers of a file

The declaration of a schema has the prefix, the name and an ending as its
identifier, and nothing is done about what the name consists of. Names of
components are made of ASCII letters, digits, underscores, dots and dashes. So
the identifiers differ from each other and from that of the library, but they
are identifiers of the language only where the name goes on as identifiers do.
-/

namespace ZodSchemas

namespace Identifier

/-- What names of components are made of. -/
def IsComponentPart (c : CodePoint) : Prop :=
  c.isLetter = true ∨ c.isDigit = true ∨ c = ('_' : CodePoint) ∨ c = ('.' : CodePoint) ∨
    c = ('-' : CodePoint)

/-- Names of components. -/
def IsComponentName (t : Text) : Prop := t ≠ [] ∧ ∀ c ∈ t, IsComponentPart c

instance : DecidablePred IsComponentPart := fun _ => inferInstanceAs (Decidable (_ ∨ _))

instance : DecidablePred IsComponentName := fun _ => inferInstanceAs (Decidable (_ ∧ _))

/-- A name goes on behind a prefix as identifiers do, and starts as they do where there is none. -/
structure Continues (front name : Text) : Prop where
  /-- There is no dot. -/
  noDot : ('.' : CodePoint) ∉ name
  /-- There is no dash. -/
  noDash : ('-' : CodePoint) ∉ name
  /-- No digit comes first. -/
  start : front = [] → ∀ c ∈ name.head?, c.isDigit = false

/-- A prefix: nothing, or an identifier, which may be a reserved word. -/
def IsFront (a : Alphabet) (front : Text) : Prop := front = [] ∨ IsName a front

section Components

variable {a : Alphabet} {front name other value : Text} {c : CodePoint}

/-- What names of components are made of is ASCII. -/
theorem IsComponentPart.value_lt (h : IsComponentPart c) : c.value < 0x80 := by
  rcases h with h | h | rfl | rfl | rfl
  · simp only [CodePoint.isLetter, Bool.or_eq_true, Bool.and_eq_true, decide_eq_true_eq] at h
    omega
  · simp only [CodePoint.isDigit, Bool.and_eq_true, decide_eq_true_eq] at h
    omega
  all_goals decide

/-- Of what names of components are made of identifiers go on with all but dots and dashes. -/
theorem IsComponentPart.isPart_iff (h : IsComponentPart c) :
    a.IsPart c ↔ c ≠ ('.' : CodePoint) ∧ c ≠ ('-' : CodePoint) := by
  rw [a.isPart_iff h.value_lt]
  constructor
  · intro hp
    constructor
    · rintro rfl
      exact absurd hp (by decide)
    · rintro rfl
      exact absurd hp (by decide)
  · rintro ⟨hdot, hdash⟩
    rcases h with h | h | h | h | h
    · exact .inl h
    · exact .inr (.inl h)
    · exact .inr (.inr (.inl h))
    · exact absurd h hdot
    · exact absurd h hdash

/-- A name of a component and the ending of identifiers are made of parts of identifiers when the
name has neither a dot nor a dash. -/
theorem IsComponentName.isPart_iff (h : IsComponentName name) :
    (∀ c ∈ name ++ ("Schema" : Text), a.IsPart c) ↔
      ('.' : CodePoint) ∉ name ∧ ('-' : CodePoint) ∉ name := by
  have hending : ∀ c ∈ ("Schema" : Text), a.IsPart c := by
    intro c hc
    have hascii : ∀ c ∈ ("Schema" : Text), c.value < 0x80 ∧ c.isLetter = true := by decide
    exact (a.isPart_iff (hascii c hc).1).mpr (.inl (hascii c hc).2)
  constructor
  · intro hp
    have hpart : ∀ c ∈ name, c ≠ ('.' : CodePoint) ∧ c ≠ ('-' : CodePoint) := fun c hc =>
      (h.2 c hc).isPart_iff.mp (hp c (List.mem_append_left _ hc))
    exact ⟨fun hm => (hpart _ hm).1 rfl, fun hm => (hpart _ hm).2 rfl⟩
  · rintro ⟨hdot, hdash⟩ c hc
    rcases List.mem_append.mp hc with hc | hc
    · exact (h.2 c hc).isPart_iff.mpr ⟨fun he => hdot (he ▸ hc), fun he => hdash (he ▸ hc)⟩
    · exact hending c hc

/-- No reserved word has the ending of identifiers. -/
theorem not_reserved (t : Text) : t ++ ("Schema" : Text) ∉ reservedWords := by
  have hwords : ∀ word ∈ reservedWords, ¬("Schema" : Text) <:+ word := by decide
  exact fun h => hwords _ h (List.suffix_append _ _)

/-- A name of a component and the ending have no escapes. -/
theorem IsComponentName.spells (h : IsComponentName name) :
    Spells (name ++ ("Schema" : Text)) (name ++ ("Schema" : Text)) := by
  refine spells_self fun hm => ?_
  rcases List.mem_append.mp hm with hm | hm
  · exact absurd (h.2 _ hm) (by decide)
  · exact absurd hm (by decide)

/-- A prefix has a value, which is of the right form unless there is nothing. -/
theorem IsFront.exists_spells (h : IsFront a front) :
    ∃ value, Spells front value ∧ (front = [] ∧ value = [] ∨ front ≠ [] ∧ a.Fits value) := by
  rcases h with rfl | ⟨value, hs, hv⟩
  · exact ⟨[], .nil, .inl ⟨rfl, rfl⟩⟩
  · refine ⟨value, hs, .inr ⟨?_, hv⟩⟩
    rintro rfl
    obtain ⟨c, rest, rfl, -⟩ := hv
    cases hs.eq_nil

/-- Behind nothing a name of a component is of the right form when it starts and goes on as
identifiers do. -/
theorem IsComponentName.fits_iff (h : IsComponentName name) :
    a.Fits (name ++ ("Schema" : Text)) ↔ Continues [] name := by
  obtain ⟨c, rest, rfl⟩ := List.exists_cons_of_ne_nil h.1
  have hparts := h.isPart_iff (a := a)
  rw [List.cons_append, List.forall_mem_cons] at hparts
  have hstart := a.isStart_iff (h.2 c List.mem_cons_self).value_lt
  constructor
  · rintro ⟨first, others, he, hfirst, hothers⟩
    obtain ⟨rfl, rfl⟩ := List.cons.inj he
    obtain ⟨hpart, hdigit⟩ := hstart.mp hfirst
    obtain ⟨hdot, hdash⟩ := hparts.mp ⟨hpart, hothers⟩
    exact ⟨hdot, hdash, fun _ d hd => Option.some.inj hd ▸ hdigit⟩
  · rintro ⟨hdot, hdash, hdigit⟩
    obtain ⟨hpart, hothers⟩ := hparts.mpr ⟨hdot, hdash⟩
    exact ⟨c, _, rfl, hstart.mpr ⟨hpart, hdigit rfl c rfl⟩, hothers⟩

/-- A prefix, a name of a component and the ending are an identifier exactly when the name goes on
behind the prefix as identifiers do. -/
theorem isIdentifier_component (hf : IsFront a front) (hn : IsComponentName name) :
    IsIdentifier a (front ++ name ++ ("Schema" : Text)) ↔ Continues front name := by
  obtain ⟨value, hs, hvalue⟩ := hf.exists_spells
  rw [List.append_assoc, isIdentifier_iff (hs.append hn.spells), ← List.append_assoc,
    and_iff_left (not_reserved _), List.append_assoc]
  rcases hvalue with ⟨rfl, rfl⟩ | ⟨hne, hfits⟩
  · exact hn.fits_iff
  · have hv : value ≠ [] := by
      obtain ⟨c, rest, rfl, -⟩ := hfits
      exact List.cons_ne_nil c rest
    rw [a.fits_append hv, hn.isPart_iff, and_iff_right hfits]
    constructor
    · exact fun h => ⟨h.1, h.2, fun he => absurd he hne⟩
    · exact fun h => ⟨h.noDot, h.noDash⟩

/-- Names of components that have the same identifier behind a prefix are one name. -/
theorem eq_of_sameIdentifier (hf : IsFront a front) (hn : IsComponentName name)
    (ho : IsComponentName other)
    (h : SameIdentifier (front ++ name ++ ("Schema" : Text))
      (front ++ other ++ ("Schema" : Text))) :
    name = other := by
  obtain ⟨value, hs, -⟩ := hf.exists_spells
  rw [List.append_assoc, List.append_assoc,
    sameIdentifier_iff (hs.append hn.spells) (hs.append ho.spells)] at h
  exact List.append_cancel_right (List.append_cancel_left h)

/-- No identifier of a component is that of the library. -/
theorem not_sameIdentifier_library (hf : IsFront a front) (hn : IsComponentName name) :
    ¬SameIdentifier (front ++ name ++ ("Schema" : Text)) "z" := by
  obtain ⟨value, hs, -⟩ := hf.exists_spells
  have hlibrary : Spells ("z" : Text) "z" := spells_self (by decide)
  rw [List.append_assoc, sameIdentifier_iff (hs.append hn.spells) hlibrary]
  intro h
  have hlength := congrArg List.length h
  rw [List.length_append, List.length_append, show ("Schema" : Text).length = 6 from rfl,
    show ("z" : Text).length = 1 from rfl] at hlength
  omega

end Components

end Identifier

open Identifier

/-- How a file with a prefix declares and uses identifiers. -/
structure CodeFile.Identifies (a : Alphabet) (front : Text) (file : CodeFile) : Prop where
  /-- What is declared is an identifier exactly when its name goes on behind the prefix as
  identifiers do. -/
  legal : ∀ d ∈ file.declarations, ∃ name, d.name = .text name ∧
    (IsIdentifier a d.identifier ↔ Continues front name)
  /-- What is used, bare or deferred, is what a declaration declares. -/
  used : ∀ d ∈ file.declarations, ∀ u ∈ d.term.uses,
    ∃ e ∈ file.declarations, u.identifier = e.identifier
  /-- No two declarations declare the same identifier. -/
  distinct : file.declarations.Pairwise fun d e => ¬SameIdentifier d.identifier e.identifier
  /-- None declares the identifier of the library. -/
  apart : ∀ d ∈ file.declarations, ¬SameIdentifier d.identifier "z"

namespace Registry.AreWritten

variable {settings : Settings} {document : Value} {c : Converter} {map : DependencyMap}
  {ds : List Declaration} {front : Text}

/-- What is declared is a defined name, when these are texts. -/
theorem exists_defined (h : AreWritten settings c map ds) (hc : convertDocument document = .ok c)
    (hn : ∀ name ∈ Converter.definedNames c.definitions, ∃ t, name = .text t ∧ IsComponentName t)
    {d : Declaration} (hd : d ∈ ds) : ∃ t, d.name = .text t ∧ IsComponentName t := by
  have hamong := h.has_entry hd
  rw [← (Converter.keys_registry hc).2] at hamong
  obtain ⟨k, hk, hs⟩ := Key.isAmong_iff.mp hamong
  obtain ⟨t, rfl, ht⟩ := hn k hk
  rw [Key.same_comm] at hs
  exact ⟨t, Key.eq_text_of_same hs, ht⟩

/-- What is declared has the prefix of the settings, its name and the ending as its identifier. -/
theorem identifier_eq (h : AreWritten settings c map ds) (hf : settings.namePrefix = .text front)
    {d : Declaration} (hd : d ∈ ds) {name : Text} (hn : d.name = .text name) :
    d.identifier = front ++ name ++ ("Schema" : Text) := by
  have hi := h.identifier hd
  rw [hn, Settings.identifier, hf] at hi
  split at hi
  · cases hi
  · exact (Except.ok.inj hi).symm

end Registry.AreWritten

/-- For every alphabet of identifiers: where there is code for a document whose names are names of
components, with a prefix that is nothing or an identifier, what is declared is an identifier
exactly when its name has neither a dot nor a dash and, without a prefix, no digit in front; what is
used is declared; and no two declarations have the same identifier or that of the library. -/
theorem declared_identifiers (a : Alphabet) {document : Value} {settings : Settings}
    {text front : Text} (h : (generate document settings).1 = .ok text)
    (hp : settings.namePrefix = .text front) (hf : IsFront a front)
    (hn : ∀ definitions, definitionsOf document = .ok definitions →
      ∀ name ∈ Converter.definedNames definitions, ∃ t, name = .text t ∧ IsComponentName t) :
    ∃ file, (generateFile document settings).1 = .ok file ∧ file.text = text ∧
      file.Identifies a front := by
  obtain ⟨file, hfile, htext⟩ := generate_eq_ok.mp h
  obtain ⟨c, hc⟩ := exists_convertDocument_of_generateFile hfile
  obtain ⟨map, hm, hds, -⟩ := (generateFile_eq_ok hc).mp hfile
  have hw := Registry.areWritten_of_declarations hc hm hds
  have hname : ∀ d ∈ file.declarations, ∃ t, d.name = .text t ∧ IsComponentName t ∧
      d.identifier = front ++ t ++ ("Schema" : Text) := by
    intro d hd
    obtain ⟨t, ht, hcomponent⟩ :=
      hw.exists_defined hc (hn _ (definitions_of_convertDocument hc).1) hd
    exact ⟨t, ht, hcomponent, hw.identifier_eq hp hd ht⟩
  refine ⟨file, hfile, htext, ?_, ?_, ?_, ?_⟩
  · intro d hd
    obtain ⟨t, ht, hcomponent, hi⟩ := hname d hd
    exact ⟨t, ht, hi ▸ isIdentifier_component hf hcomponent⟩
  · intro d hd u hu
    obtain ⟨before, behind, hsplit⟩ := List.append_of_mem hd
    obtain ⟨-, -, -, huses⟩ := Registry.isPlaced_of_declarations hc hm hds hsplit
    obtain ⟨e, he, -, hi⟩ := (huses u hu).declared
    exact ⟨e, he, hi.symm⟩
  · have hdiffer : KeysDiffer (file.declarations.map (·.name)) := hw.names ▸ hw.order.differ
    refine List.Pairwise.imp_of_mem (fun {d e} hd he hne hsame => ?_) (List.pairwise_map.mp hdiffer)
    obtain ⟨s, hs, hcomponent, hi⟩ := hname d hd
    obtain ⟨t, ht, hother, hj⟩ := hname e he
    rw [hi, hj] at hsame
    obtain rfl := eq_of_sameIdentifier hf hcomponent hother hsame
    rw [hs, ht, Key.same_self] at hne
    cases hne
  · intro d hd
    obtain ⟨t, -, hcomponent, hi⟩ := hname d hd
    exact hi ▸ not_sameIdentifier_library hf hcomponent

/-- Two schemas that refer to each other, the name of one of which has a dash. -/
def orderDefinitions : Entries Value :=
  [("Order", .map [("type", "array"), ("items", .map [("$ref", "#/line-2")])]),
    ("line-2", .map [("anyOf", .list [.map [("$ref", "#/Order")], .map [("type", "string")]])])]

/-- The names of the orders are names of components. -/
theorem areComponents_orders {definitions : Value}
    (h : definitionsOf (documentWith orderDefinitions) = .ok definitions) :
    ∀ name ∈ Converter.definedNames definitions, ∃ t, name = .text t ∧ IsComponentName t := by
  obtain rfl := Except.ok.inj h
  intro name hm
  obtain ⟨t, ht, rfl⟩ : ∃ t ∈ (["Order", "line-2"] : List Text), Key.text t = name :=
    List.mem_map.mp hm
  have hparts : ∀ t ∈ (["Order", "line-2"] : List Text), IsComponentName t := by decide
  exact ⟨t, rfl, hparts t ht⟩

/-- The identifiers in the code for the orders, behind a dollar sign. -/
theorem declared_identifiers_orders : ∃ text,
    (generate (documentWith orderDefinitions) { namePrefix := .text "$" }).1 = .ok text ∧
      IsFront .ascii "$" ∧ ∃ file,
        (generateFile (documentWith orderDefinitions) { namePrefix := .text "$" }).1 = .ok file ∧
          file.text = text ∧ file.Identifies .ascii "$" := by
  have hok : (generate (documentWith orderDefinitions)
      { namePrefix := .text "$" }).1.toOption.isSome = true := by decide +kernel
  have hfront : IsFront .ascii ("$" : Text) :=
    .inr ⟨_, spells_self (by decide), _, [], rfl, .inr (.inl rfl), by simp⟩
  cases h : (generate (documentWith orderDefinitions) { namePrefix := .text "$" }).1 with
  | error e => simp [h, Except.toOption] at hok
  | ok text =>
    exact ⟨text, rfl, hfront,
      declared_identifiers .ascii h rfl hfront fun _ => areComponents_orders⟩

/-- A schema whose name has a dash is declared by what is no identifier in any alphabet. -/
theorem dash_is_declared : ∃ file d,
    (generateFile (documentWith [("foo-bar", .map [("type", "string")])]) {}).1 = .ok file ∧
      d ∈ file.declarations ∧ d.identifier = "foo-barSchema" ∧
      ∀ a : Alphabet, ¬IsIdentifier a d.identifier := by
  refine ⟨_, _, rfl, List.mem_singleton_self _, rfl, fun a hi => ?_⟩
  have hname : IsComponentName ("foo-bar" : Text) := by decide
  have hgoesOn : Continues [] ("foo-bar" : Text) :=
    (isIdentifier_component (.inl rfl) hname).mp hi
  exact absurd hgoesOn.noDash (by decide)

end ZodSchemas
