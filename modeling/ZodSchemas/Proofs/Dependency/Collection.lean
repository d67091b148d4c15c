import ZodSchemas.Dependency.Graph
import ZodSchemas.Proofs.Value.Overlays

/-!
# The names that a node refers to

The dependencies of a node are collected in a list that is carried through the
node, and a name is added only where it is not in the list yet. What comes out
are the names of the references of the node, each at the place of the first
reference to it.
-/

namespace ZodSchemas

namespace Node

mutual

/-- Behind names without repetitions come those that the node is the first to refer to. -/
theorem collect_distinctKeys : ∀ (node : Node) (found : List Key),
    node.collect (distinctKeys found) = distinctKeys (found ++ node.refs.map (·.name))
  | .lazy ref, found => by
    rw [collect, refs, List.map_singleton, distinctKeys_append, isAmong_distinctKeys]
    cases h : ref.name.isAmong found <;> simp [distinctKeys, h]
  | .object properties _, found => collectProperties_distinctKeys properties found
  | .array element, found => element.collect_distinctKeys found
  | .union options, found => collectOptions_distinctKeys options found
  | .nullable inner, found => inner.collect_distinctKeys found
  | .optional inner, found => inner.collect_distinctKeys found
  | .string _, found | .number, found | .boolean, found | .enum _, found | .literal _, found
  | .never, found | .unknown, found | .plain, found =>
    congrArg distinctKeys (List.append_nil found).symm

/-- Behind names without repetitions come those that the properties are the first to refer to. -/
theorem collectProperties_distinctKeys : ∀ (properties : List (Key × Node)) (found : List Key),
    collectProperties properties (distinctKeys found) =
      distinctKeys (found ++ (propertyRefs properties).map (·.name))
  | [], found => congrArg distinctKeys (List.append_nil found).symm
  | (_, node) :: rest, found => by
    rw [collectProperties, node.collect_distinctKeys, collectProperties_distinctKeys, propertyRefs,
      List.map_append, List.append_assoc]

/-- Behind names without repetitions come those that the options are the first to refer to. -/
theorem collectOptions_distinctKeys : ∀ (options : List Node) (found : List Key),
    collectOptions options (distinctKeys found) =
      distinctKeys (found ++ (optionRefs options).map (·.name))
  | [], found => congrArg distinctKeys (List.append_nil found).symm
  | node :: rest, found => by
    rw [collectOptions, node.collect_distinctKeys, collectOptions_distinctKeys, optionRefs,
      List.map_append, List.append_assoc]

end

/-- The dependencies of a node are the names of its references, each where it comes first. -/
theorem dependencies_eq (node : Node) :
    node.dependencies = distinctKeys (node.refs.map (·.name)) :=
  node.collect_distinctKeys []

/-- A dependency of a node is the name of one of its references. -/
theorem exists_ref_of_mem_dependencies {node : Node} {key : Key} (h : key ∈ node.dependencies) :
    ∃ ref ∈ node.refs, ref.name = key :=
  List.mem_map.mp (mem_of_mem_distinctKeys (node.dependencies_eq ▸ h))

/-- The name of each reference of a node is among its dependencies. -/
theorem isAmong_dependencies {node : Node} {ref : Ref} (h : ref ∈ node.refs) :
    ref.name.isAmong node.dependencies = true := by
  rw [dependencies_eq, isAmong_distinctKeys]
  exact Key.isAmong_of_mem (List.mem_map_of_mem h)

end Node

end ZodSchemas
