import Mathlib.Logic.Relation
import ZodSchemas.Node.Registry

/-!
# Nodes inside nodes

A node holds other nodes, and a reference leads to a further one. What is met
from a node is found by going on in both ways, through cycles as well. A
property of everything that is met from a node holds of the node, and of
everything that is met from what stands right below it.
-/

namespace ZodSchemas

namespace Node

/-- A node stands directly inside another one. -/
inductive IsPartOf : Node → Node → Prop where
  /-- A property of an object. -/
  | property {properties : Entries Node} {required : List Key} {key : Key} {node : Node}
      (member : (key, node) ∈ properties) : IsPartOf node (.object properties required)
  /-- The element of a list. -/
  | element {element : Node} : IsPartOf element (.array element)
  /-- An option of a union. -/
  | option {options : List Node} {option : Node} (member : option ∈ options) :
      IsPartOf option (.union options)
  /-- A node beside null. -/
  | nullable {inner : Node} : IsPartOf inner (.nullable inner)
  /-- A node beside absence. -/
  | optional {inner : Node} : IsPartOf inner (.optional inner)

/-- A node stands somewhere inside another one, or is that one. -/
def IsWithin (inner outer : Node) : Prop := Relation.ReflTransGen IsPartOf inner outer

end Node

namespace Registry

variable {registry : Registry} {p : Node → Prop} {node inner : Node}

/-- The first node stands directly inside the second, or it is the body behind it. -/
inductive IsBelow (registry : Registry) : Node → Node → Prop where
  /-- Directly inside. -/
  | part {inner outer : Node} (h : inner.IsPartOf outer) : IsBelow registry inner outer
  /-- Behind a reference. -/
  | body {ref : Ref} {body : Node} (found : registry.body ref = .ok body) :
      IsBelow registry body (.lazy ref)

/-- Something holds of a node and of every node that is met from it, behind references too. -/
def Everywhere (registry : Registry) (p : Node → Prop) (node : Node) : Prop :=
  ∀ inner, Relation.ReflTransGen registry.IsBelow inner node → p inner

/-- What holds everywhere holds of the node itself. -/
theorem Everywhere.self (h : registry.Everywhere p node) : p node := h node .refl

/-- What holds everywhere holds everywhere below. -/
theorem Everywhere.below (h : registry.Everywhere p node) (hb : registry.IsBelow inner node) :
    registry.Everywhere p inner :=
  fun other ho => h other (ho.tail hb)

/-- What passes on to the nodes right below holds everywhere. -/
theorem everywhere_of_below (hp : ∀ inner outer, registry.IsBelow inner outer → p outer → p inner)
    (h : p node) : registry.Everywhere p node := by
  intro inner hi
  induction hi using Relation.ReflTransGen.head_induction_on with
  | refl => exact h
  | head hb _ ih => exact hp _ _ hb ih

end Registry

end ZodSchemas
