import ZodSchemas.Proofs.Conversion.Known
import ZodSchemas.Proofs.Records

/-!
# The references that a conversion mentions

Whatever becomes of a conversion, what it says about the references that it met
on the way is right: a name that it mentions as known has a definition, and one
that it mentions as missing has none.
-/

namespace ZodSchemas

/-- A name has a definition. -/
def Value.Defines (definitions : Value) (name : Key) : Prop :=
  ∃ schema, Reference.definition? definitions name = .ok (some schema)

/-- What a mention says about the definitions is right. -/
def Mention.IsRight (definitions : Value) : Mention → Prop
  | .known name => definitions.Defines (.text name)
  | .missing name => Reference.definition? definitions (.text name) = .ok none

namespace Source

open Traced

variable {source : Source} {convert : Value → Conversion Node} {p : Mention → Prop}

/-- What resolving a reference says about a name is right. -/
theorem definition?_of_resolve {definitions target : Value} {name : Text}
    {found : Option (Entries Value)}
    (h : Reference.resolve definitions target = .ok (name, found)) :
    Reference.target target = .ok name ∧
      Reference.definition? definitions (.text name) = .ok found := by
  obtain ⟨t, ht, h⟩ := exceptBind_eq_ok.mp h
  obtain ⟨definition, hd, h⟩ := exceptBind_eq_ok.mp h
  obtain ⟨rfl, rfl⟩ : t = name ∧ definition = found := by simpa using h
  exact ⟨ht, hd⟩

/-- A reference mentions the name that it ends with, and rightly. -/
theorem records_reference (target : Value) :
    Records (Mention.IsRight source.definitions) (source.reference target) := by
  refine (records_ofExcept (Reference.resolve source.definitions target)).bind fun found h => ?_
  obtain ⟨name, definition⟩ := found
  obtain ⟨-, hd⟩ := definition?_of_resolve h
  cases definition with
  | some schema =>
    have hk : (Mention.known name).IsRight source.definitions := ⟨schema, hd⟩
    exact (records_emit hk).bind fun _ _ => records_pure _
  | none =>
    have hm : (Mention.missing name).IsRight source.definitions := hd
    exact (records_emit hm).bind fun _ _ => records_pure _

/-- Properties mention what their schemas mention. -/
theorem records_properties (hc : ∀ v, Records p (convert v)) (required : List Key)
    (entries : Entries Value) : Records p (properties convert required entries) := by
  induction entries with
  | nil => exact records_pure _
  | cons e rest ih =>
    obtain ⟨key, schema⟩ := e
    by_cases hs : schema = .null
    · subst hs
      exact ih
    · rw [properties_cons hs]
      exact (hc schema).bind fun _ _ => ih.bind fun _ _ => records_pure _

/-- An object mentions what the schemas of its properties mention. -/
theorem records_object (hc : ∀ v, Records p (convert v)) (schemas : Option Value)
    (names : Except Fault (List Value)) : Records p (object convert schemas names) := by
  refine (records_ofExcept _).bind fun keys _ => (records_ofExcept _).bind fun entries _ => ?_
  exact (records_properties hc _ entries).bind fun _ _ => records_pure _

/-- Several conversions mention what each of them mentions. -/
theorem records_mapM (hc : ∀ v, Records p (convert v)) (members : List Value) :
    Records p (members.mapM convert) := by
  induction members with
  | nil => exact records_pure _
  | cons m rest ih =>
    rw [List.mapM_cons]
    exact (hc m).bind fun _ _ => ih.bind fun _ _ => records_pure _

/-- A form mentions its reference, or what the schemas inside mention. -/
theorem records_ofForm (hr : ∀ target, Records p (source.reference target))
    (hc : ∀ v, Records p (convert v)) (form : Form) : Records p (source.ofForm convert form) := by
  cases form with
  | reference target => exact hr target
  | allOf members =>
    refine (records_ofExcept _).bind fun items _ => (records_ofExcept _).bind fun merged _ => ?_
    exact records_object hc _ _
  | anyOf members =>
    refine (records_ofExcept _).bind fun items _ => ?_
    exact (records_mapM hc items).bind fun _ _ => records_pure _
  | object schemas required => exact records_object hc _ _
  | array items =>
    cases items with
    | none => exact records_pure _
    | some items =>
      rw [ofForm]
      split
      · exact (hc items).bind fun _ _ => records_pure _
      · exact records_pure _
  | choice values => exact (records_ofExcept _).bind fun _ _ => records_pure _
  | string checks => exact records_pure _
  | number => exact records_pure _
  | boolean => exact records_pure _
  | anything => exact records_pure _

/-- A schema mentions its reference, or what the schemas inside mention. -/
theorem records_ofSchema (hr : ∀ target, Records p (source.reference target))
    (hc : ∀ v, Records p (convert v)) (v : Value) : Records p (source.ofSchema convert v) := by
  unfold ofSchema
  split
  · exact (records_ofForm hr hc _).bind fun _ _ => records_pure _
  · exact records_fail _

/-- A conversion mentions the references of the schema. -/
theorem records_convert (hr : ∀ target, Records p (source.reference target)) (v : Value) :
    Records p (source.convert v) := by
  have within : ∀ fuel v, Records p (source.convertWithin fuel v) := by
    intro fuel
    induction fuel with
    | zero => exact fun v => records_fail _
    | succ fuel ih => exact records_ofSchema hr ih
  exact within _ v

/-- What a conversion mentions is right. -/
theorem isRight_of_mem_convert {v : Value} :
    ∀ mention ∈ (source.convert v).events, mention.IsRight source.definitions :=
  records_convert records_reference v

end Source

namespace Converter

/-- What following a reference mentions is right. -/
theorem isRight_of_mem_conversionOf (c : Converter) (ref : Ref) :
    ∀ mention ∈ (c.conversionOf ref).events, mention.IsRight c.definitions := by
  refine (Traced.records_ofExcept (Reference.definition? c.definitions ref.name)).bind
    fun found _ => ?_
  cases found with
  | some schema => exact Source.isRight_of_mem_convert
  | none => exact Traced.records_pure _

end Converter

end ZodSchemas
