import ZodSchemas.Conversion.Unfolding
import ZodSchemas.Proofs.Conversion.Known

/-!
# Conversions that agree

A conversion sees the definitions only through the names that the references of
its schema end with. So two documents that define these names alike convert the
schema alike, whatever else they define, and in whatever order.
-/

namespace ZodSchemas

namespace Reference

variable {definitions others : Value} {entries listed : Entries Value}

/-- The definition of a name depends on nothing but what is found under the name. -/
theorem definition?_congr {name : Key} (he : definitions.entries? = some entries)
    (ho : others.entries? = some listed)
    (h : Entries.find? name entries = Entries.find? name listed) :
    definition? definitions name = definition? others name := by
  unfold definition? Value.field? Value.entriesOf
  simp only [he, ho]
  change Except.ok _ = Except.ok _
  rw [h]

/-- A reference resolves alike where the name that it ends with has one definition. -/
theorem resolve_congr {reference : Value} (h : ∀ name, target reference = .ok name →
      definition? definitions (.text name) = definition? others (.text name)) :
    resolve definitions reference = resolve others reference := by
  unfold resolve
  cases ht : target reference with
  | error e => rfl
  | ok name =>
    change (definition? definitions (.text name) >>= _) = (definition? others (.text name) >>= _)
    rw [h name ht]

end Reference

namespace Source

variable {source other : Source} {P : Value → Prop}

/-- Two sources refer to the same from all schemas of a kind. -/
structure AgreesOn (source other : Source) (P : Value → Prop) : Prop where
  /-- The schemas inside are of that kind. -/
  hereditary : Value.IsHereditary P
  /-- The registration is the same. -/
  round : source.round = other.round
  /-- The names that references end with have the same definitions. -/
  definition : ∀ v schema target name, P v → v.entries? = some schema →
    Entries.find? "$ref" schema = some target → Reference.target target = .ok name →
      Reference.definition? source.definitions (.text name) =
        Reference.definition? other.definitions (.text name)

/-- Sources that refer to the same convert a schema alike. -/
theorem AgreesOn.convert_eq (h : source.AgreesOn other P) {v : Value} (hv : P v) :
    source.convert v = other.convert v := by
  have within : ∀ fuel v, P v → source.convertWithin fuel v = other.convertWithin fuel v := by
    intro fuel
    induction fuel with
    | zero => exact fun _ _ => rfl
    | succ fuel ih =>
      intro v hv
      refine ofSchema_congr source other h.hereditary (fun w hw => h.hereditary.part hv hw)
        (fun schema target hs ht => ?_) ih
      unfold reference
      rw [h.round, Reference.resolve_congr (h.definition v schema target · hv hs ht)]
  exact within _ v hv

end Source

namespace Converter

variable {c other : Converter}

/-- A reference stands for the same in two documents that agree about its name and about what the
definition of the name refers to. -/
theorem conversionOf_eq {P : Value → Prop} (h : c.source.AgreesOn other.source P) {ref : Ref}
    (hd : Reference.definition? c.definitions ref.name =
      Reference.definition? other.definitions ref.name)
    (hs : ∀ schema, Reference.definition? c.definitions ref.name = .ok (some schema) →
      P (.map schema)) : c.conversionOf ref = other.conversionOf ref := by
  unfold conversionOf
  rw [← hd]
  cases hr : Reference.definition? c.definitions ref.name with
  | error e => rfl
  | ok found =>
    cases found with
    | none => rfl
    | some schema =>
      simp only [Traced.liftM_ok, Traced.bind_ok, h.convert_eq (hs schema hr)]

end Converter

end ZodSchemas
