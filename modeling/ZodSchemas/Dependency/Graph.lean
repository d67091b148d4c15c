import ZodSchemas.Node.Registry

/-!
# Dependencies

A named schema depends on the names that its body refers to. References are
listed by name, once each, in the order in which they first occur, and never
expanded, so a cycle shows as finite edges.
-/

namespace ZodSchemas

/-- For each name the names that its body refers to. -/
abbrev DependencyMap := Entries (List Key)

namespace Node

mutual

/-- The names that were found and behind them those that a node refers to, each where it is first
met. -/
def collect : Node → List Key → List Key
  | .lazy ref, found => if ref.name.isAmong found then found else found ++ [ref.name]
  | .object properties _, found => collectProperties properties found
  | .array element, found => element.collect found
  | .union options, found => collectOptions options found
  | .nullable inner, found => inner.collect found
  | .optional inner, found => inner.collect found
  | _, found => found

/-- The names that were found and behind them those that properties refer to. -/
def collectProperties : List (Key × Node) → List Key → List Key
  | [], found => found
  | (_, node) :: rest, found => collectProperties rest (node.collect found)

/-- The names that were found and behind them those that options refer to. -/
def collectOptions : List Node → List Key → List Key
  | [], found => found
  | node :: rest, found => collectOptions rest (node.collect found)

end

/-- The names that a node refers to, once each, in the order of their first occurrence. -/
def dependencies (node : Node) : List Key := node.collect []

end Node

/-- The dependencies of some entries. -/
def dependenciesFrom (registry : Registry) : Entries Node → Following Fault DependencyMap
  | [] => pure []
  | (name, entry) :: rest => do
    let body ← registry.bodyOf entry
    let others ← dependenciesFrom registry rest
    pure ((name, body.dependencies) :: others)

/-- The dependencies of every entry of a registry. -/
def dependenciesOf (registry : Registry) : Following Fault DependencyMap :=
  dependenciesFrom registry registry.entries

end ZodSchemas
