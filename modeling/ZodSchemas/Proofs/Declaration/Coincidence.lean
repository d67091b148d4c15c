import ZodSchemas.Proofs.Declaration.Agreement
import ZodSchemas.Proofs.Declaration.Uses
import ZodSchemas.Proofs.Dependency.Collection

/-!
# What code depends on

The dependencies of a node are listed by one walk through it, its code is
written by another. Both meet the same references in the same order. So the
names in the code, each at its first place, are the dependencies, and the code
is the same in any two states of progress that agree on those names: to look
for a discriminator is to ask about names of options, which the code mentions.
-/

namespace ZodSchemas

/-- A text that some uses are written in, one behind the other, with anything between them. -/
inductive Writes : Text → List Use → Prop where
  /-- A text without uses. -/
  | fixed (t : Text) : Writes t []
  /-- A use. -/
  | use (u : Use) : Writes u.text [u]
  /-- A text in front of another one. -/
  | append {front back : Text} {uses others : List Use} (first : Writes front uses)
      (second : Writes back others) : Writes (front ++ back) (uses ++ others)
  /-- A text with blanks in front of its lines. -/
  | indent (level : Int) {t : Text} {uses : List Use} (inner : Writes t uses) :
      Writes (Lines.indent level t) uses

namespace Writes

variable {t : Text} {uses : List Use}

/-- The same uses stand behind a text that has none. -/
theorem behind (front : Text) (h : Writes t uses) : Writes (front ++ t) uses :=
  (fixed front).append h

/-- The same uses stand in front of a text that has none. -/
theorem before (back : Text) (h : Writes t uses) : Writes (t ++ back) uses := by
  have := h.append (fixed back)
  rwa [List.append_nil] at this

/-- Texts between neighbours without uses have the uses of all. -/
theorem intercalate (between : Text) {parts : List Text} {uses : List (List Use)}
    (h : List.Forall₂ Writes parts uses) :
    Writes (List.intercalate between parts) uses.flatten := by
  induction h with
  | nil => exact fixed []
  | @cons part us parts uses hp hr ih =>
    cases hr with
    | nil => simpa using hp
    | cons hn hr =>
      rw [List.intercalate_cons_cons]
      exact (hp.before between).append ih

/-- Texts in brackets have the uses of all. -/
theorem bracketed {parts : List Text} {uses : List (List Use)}
    (h : List.Forall₂ Writes parts uses) : Writes (Term.bracketed parts) uses.flatten :=
  ((intercalate ", " h).behind "[").before "]"

/-- An object has the uses of all its properties. -/
theorem objectText {parts : List Text} {uses : List (List Use)}
    (h : List.Forall₂ Writes parts uses) : Writes (Term.objectText parts) uses.flatten := by
  rw [Term.objectText]
  split
  · next he =>
    obtain rfl := List.isEmpty_iff.mp he
    cases h
    exact fixed _
  · exact (((intercalate ",\n" h).indent 1).behind "z.object(\x7b\n").before "\n\x7d)"

end Writes

namespace Term

mutual

/-- The uses of a term stand in its text, one behind the other. -/
theorem writes_text : ∀ t : Term, Writes t.text t.uses
  | .call t => .fixed t
  | .use u => .use u
  | .object properties => by
    obtain ⟨uses, hw, hu⟩ := exists_writes_propertyTexts properties
    rw [Term.uses, ← hu]
    exact .objectText hw
  | .array element => (element.writes_text.behind "z.array(").before ")"
  | .union options => by
    obtain ⟨uses, hw, hu⟩ := exists_writes_optionTexts options
    rw [Term.uses, ← hu]
    exact ((Writes.bracketed hw).behind "z.union(").before ")"
  | .discriminated key options => by
    obtain ⟨uses, hw, hu⟩ := exists_writes_optionTexts options
    rw [Term.uses, ← hu]
    exact ((Writes.bracketed hw).behind ("z.discriminatedUnion(" ++ key ++ ", ")).before ")"
  | .nullable inner => inner.writes_text.before ".nullable()"
  | .optional inner => inner.writes_text.before ".optional()"

/-- The uses of properties stand in their texts, one behind the other. -/
theorem exists_writes_propertyTexts : ∀ properties : List (Text × Term),
    ∃ uses, List.Forall₂ Writes (propertyTexts properties) uses ∧
      uses.flatten = propertyUses properties
  | [] => ⟨[], .nil, rfl⟩
  | (name, value) :: rest => by
    obtain ⟨uses, hw, hu⟩ := exists_writes_propertyTexts rest
    refine ⟨value.uses :: uses, .cons (value.writes_text.behind (name ++ ": ")) hw, ?_⟩
    rw [List.flatten_cons, hu, propertyUses]

/-- The uses of options stand in their texts, one behind the other. -/
theorem exists_writes_optionTexts : ∀ options : List Term,
    ∃ uses, List.Forall₂ Writes (optionTexts options) uses ∧ uses.flatten = optionUses options
  | [] => ⟨[], .nil, rfl⟩
  | option :: rest => by
    obtain ⟨uses, hw, hu⟩ := exists_writes_optionTexts rest
    refine ⟨option.uses :: uses, .cons option.writes_text hw, ?_⟩
    rw [List.flatten_cons, hu, optionUses]

end

end Term

namespace Progress

variable {p q : Progress}

/-- The same names are declared in one state as in the other, as far as some names go. -/
def AgreesOn (p q : Progress) (names : List Key) : Prop :=
  ∀ name ∈ names, p.isDeclared name = q.isDeclared name

/-- The same keys are declared alike. -/
theorem isDeclared_congr {a b : Key} (h : a.same b = true) (p : Progress) :
    p.isDeclared a = p.isDeclared b := by
  rw [isDeclared, isDeclared, Key.isAmong_congr h, Key.isAmong_congr h]

/-- States that agree on the dependencies of a node agree on each of its references. -/
theorem AgreesOn.ref {node : Node} (h : p.AgreesOn q node.dependencies) {ref : Ref}
    (hr : ref ∈ node.refs) : p.isDeclared ref.name = q.isDeclared ref.name := by
  obtain ⟨name, hn, hs⟩ := Key.isAmong_iff.mp (Node.isAmong_dependencies hr)
  rw [← isDeclared_congr hs p, ← isDeclared_congr hs q, h name hn]

end Progress

namespace Context

/-- A context in two states that agree on the dependencies of a node agrees on its references. -/
theorem agreesOn_of_progress (c : Context) {p q : Progress} {node : Node}
    (h : p.AgreesOn q node.dependencies) :
    ({ c with progress := p } : Context).AgreesOn { c with progress := q } node.refs :=
  ⟨rfl, fun _ _ => rfl, fun _ hr => h.ref hr⟩

/-- The names of uses that render some references are the names of these. -/
theorem names_of_renders {c : Context} {refs : List Ref} {uses : List Use}
    (h : List.Forall₂ c.Renders refs uses) : uses.map (·.name) = refs.map (·.name) := by
  induction h with
  | nil => rfl
  | cons hr _ ih => exact congrArg₂ List.cons hr.name ih

/-- The code of a node mentions the names that the node depends on, and depends on no others. -/
structure IsCovered (c : Context) (node : Node) (path : Key) (code : Text) : Prop where
  /-- The uses that stand in the code render the references of the node in their order; their
  names, each where it comes first, are the dependencies of the node. -/
  mentions : ∃ t, (c.term node path).outcome = .ok t ∧ t.text = code ∧ Writes code t.uses ∧
    List.Forall₂ c.Renders node.refs t.uses ∧
      distinctKeys (t.uses.map (·.name)) = node.dependencies
  /-- States that agree on the dependencies give the same code. -/
  depends : ∀ p q : Progress, p.AgreesOn q node.dependencies →
    ({ c with progress := p } : Context).expression node path =
      ({ c with progress := q } : Context).expression node path
  /-- They tell the options of each union inside the node apart by the same key. -/
  asks : ∀ p q : Progress, p.AgreesOn q node.dependencies → ∀ options : List Node,
    Node.optionRefs options ⊆ node.refs →
    ({ c with progress := p } : Context).discriminator options =
      ({ c with progress := q } : Context).discriminator options

/-- Code that is written for a node is covered by the dependencies of the node. -/
theorem isCovered_of_expression {c : Context} {node : Node} {path : Key} {code : Text}
    (h : (c.expression node path).outcome = .ok code) : c.IsCovered node path code := by
  obtain ⟨t, ht, h⟩ := Traced.bind_eq_ok.mp h
  obtain rfl := Traced.pure_eq_ok.mp h
  have hr := c.renders_term node path t ht
  refine ⟨⟨t, ht, rfl, t.writes_text, hr, ?_⟩, fun p q ha => ?_, fun p q ha options ho => ?_⟩
  · rw [names_of_renders hr, Node.dependencies_eq]
  · rw [expression, expression, term_congr node path (c.agreesOn_of_progress ha)]
  · exact discriminator_congr ((c.agreesOn_of_progress ha).mono ho)

/-- A node that refers to one name twice, once as an option that a key tells from the other, and
to another name. -/
def mentioningNode : Node :=
  .object [("pet", .union [.lazy ⟨"Cat", 0⟩, .object [("kind", .literal "dog")] ["kind"]]),
    ("owners", .array (.lazy ⟨"Owner", 1⟩)), ("favourite", .nullable (.lazy ⟨"Cat", 0⟩))] ["pet"]

/-- A state in which one of two names is declared. -/
def mentioningContext : Context where
  registry := .ofEntries [] [("Cat", .object [("kind", .literal "cat")] ["kind"]),
    ("Owner", .object [] [])]
  settings := {}
  progress := { generated := ["Cat"] }

/-- The code of a node with a discriminated union, a bare and a deferred use. -/
def mentioningCode : Text :=
  "z.object(\x7b\n  pet: z.discriminatedUnion(\"kind\", [CatSchema, z.object(\x7b\n" ++
    "    kind: z.literal(\"dog\")\n  \x7d)]),\n  owners: z.array(z.lazy(() => OwnerSchema)),\n" ++
    "  favourite: CatSchema.nullable()\n\x7d)"

/-- The dependencies of a node are the names in its code, which is the same whenever these are
declared alike. -/
theorem isCovered_of_expression_mentioning :
    (mentioningContext.expression mentioningNode "Shop").outcome = .ok mentioningCode ∧
      mentioningNode.dependencies = ["Cat", "Owner"] ∧
      mentioningContext.IsCovered mentioningNode "Shop" mentioningCode := by
  have hcode : (mentioningContext.expression mentioningNode "Shop").outcome = .ok mentioningCode :=
    except_eq_ok_of_toOption (by decide +kernel)
  exact ⟨hcode, rfl, isCovered_of_expression hcode⟩

end Context

end ZodSchemas
