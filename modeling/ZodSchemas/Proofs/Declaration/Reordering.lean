import Mathlib.Data.List.Perm.Basic
import Mathlib.Logic.Relation
import ZodSchemas.Proofs.Conversion.Agreement
import ZodSchemas.Proofs.Declaration.Agreement
import ZodSchemas.Proofs.Declaration.Placement
import ZodSchemas.Proofs.Dependency.Growth

/-!
# Definitions in another order

Where no name depends on itself, the order of the definitions of a document has
no influence on its declarations, apart from the order that these come in. A
declaration asks which names are declared in front, but only of the names that
its body refers to, and all of those are, in whichever order the definitions
come.
-/

namespace ZodSchemas

namespace Registry

variable {registry : Registry}

/-- The body of a name refers to another name. -/
def DependsOn (registry : Registry) (name other : Key) : Prop :=
  ∃ body, registry.HasBody name body ∧ ∃ ref ∈ body.refs, ref.name = other

/-- No name depends on itself, neither directly nor through other names. -/
def IsLayered (registry : Registry) : Prop :=
  ∀ name, ¬ Relation.TransGen registry.DependsOn name name

/-- The same keys have the same bodies. -/
theorem HasBody.congr {a b : Key} {body : Node} (h : registry.HasBody a body)
    (hs : a.same b = true) : registry.HasBody b body := by
  obtain ⟨entry, hf, hb⟩ := h
  exact ⟨entry, Entries.find?_congr hs registry.entries ▸ hf, hb⟩

/-- A name that leads to another one depends on it, or on the same key. -/
theorem exists_dependsOn_of_reaches {map : DependencyMap}
    (hm : (dependenciesOf registry).outcome = .ok map) {start goal : Key}
    (h : Reaches map start goal) :
    ∃ k, k.same goal = true ∧ Relation.ReflTransGen registry.DependsOn start k := by
  induction h with
  | self h => exact ⟨_, h, .refl⟩
  | @step start next goal dependencies found listed _ ih =>
    obtain ⟨k, hs, hr⟩ := ih
    obtain ⟨body, hb, rfl⟩ := exists_hasBody_of_find? hm found
    obtain ⟨ref, href, hname⟩ := Node.exists_ref_of_mem_dependencies listed
    exact ⟨k, hs, .head ⟨body, hb, ref, href, hname⟩ hr⟩

section Fronts

variable {document : Value} {c : Converter} {map : DependencyMap}

/-- Where no name depends on itself, all that a body refers to stands in front of it. -/
theorem IsLayered.isAmong_front (hl : c.registry.IsLayered)
    (hc : convertDocument document = .ok c)
    (hm : (dependenciesOf c.registry).outcome = .ok map) {front back : List Key} {name : Key}
    (ho : sequence map = front ++ name :: back) {body : Node}
    (hb : c.registry.HasBody name body) {ref : Ref} (hr : ref ∈ body.refs) :
    ref.name.isAmong front = true := by
  obtain ⟨t, ht, hentry⟩ := exists_text_of_mem_refs hc hm hb hr
  rw [ht]
  by_contra hn
  have hback := reaches_of_not_front hc hm ho hb hr ht hentry (by simpa using hn)
  obtain ⟨k, hs, hreach⟩ := exists_dependsOn_of_reaches hm hback
  have hfirst : c.registry.DependsOn k (.text t) :=
    ⟨body, hb.congr (by rwa [Key.same_comm]), ref, hr, ht⟩
  exact hl k (.head' hfirst hreach)

end Fronts

end Registry

/-- Definitions that are the same in any order. -/
def AreReordered (definitions others : Value) : Prop :=
  ∃ entries listed, definitions.entries? = some entries ∧ others.entries? = some listed ∧
    KeysDiffer (Entries.keys entries) ∧ entries.Perm listed

/-- Reordered definitions are so in both directions. -/
theorem AreReordered.symm {definitions others : Value} (h : AreReordered definitions others) :
    AreReordered others definitions := by
  obtain ⟨entries, listed, he, hl, hd, hp⟩ := h
  have hd' : KeysDiffer (Entries.keys listed) :=
    hd.perm (hp.map _) fun h => by rwa [Key.same_comm]
  exact ⟨listed, entries, hl, he, hd', hp.symm⟩

namespace Converter

variable {document reordered : Value} {c other : Converter}

end Converter

namespace Registry

section Runs

variable {document reordered : Value} {c other : Converter} {map listed : DependencyMap}
  {settings : Settings}

end Runs

end Registry

namespace Registry

variable {document reordered : Value} {c other : Converter} {map : DependencyMap}
  {settings : Settings}

end Registry

section Runs

variable {document reordered : Value} {c other : Converter} {settings : Settings}

end Runs

end ZodSchemas
