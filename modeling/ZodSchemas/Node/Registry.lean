import ZodSchemas.Node.Basic
import ZodSchemas.Traced

/-!
# Registries

A registry holds named nodes in their order of declaration and knows what each
reference stands for. Resolving a reference may fail, and it may add entries
behind those that are there; what an entry holds never changes. Everything that
follows references records each of them, so that the owner of the registry can
account for what was resolved.
-/

namespace ZodSchemas

/-- Computations that follow references and record them. -/
abbrev Following (ε α : Type) := Traced Ref ε α

/-- Named nodes and what their references stand for. -/
structure Registry where
  /-- The entries in order. -/
  entries : Entries Node
  /-- Every reference that can be met from the entries. -/
  refs : List Ref
  /-- What a reference stands for. -/
  body : Ref → Except Fault Node
  /-- The entries that come to be when a reference is resolved. -/
  adds : Ref → Entries Node

namespace Registry

/-- Follow a reference. -/
def resolve (registry : Registry) (ref : Ref) : Following Fault Node := do
  Traced.emit ref
  registry.body ref

/-- The node behind an entry: a reference is followed once. -/
def bodyOf (registry : Registry) : Node → Following Fault Node
  | .lazy ref => registry.resolve ref
  | node => pure node

/-- The entry of a name after some references have been resolved: the registered one, or else the
first that came to be since. -/
def entryAfter? (registry : Registry) (resolved : List Ref) (name : Key) : Option Node :=
  match Entries.find? name registry.entries with
  | some node => some node
  | none => Entries.find? name (resolved.flatMap registry.adds)

/-- What a reference by name stands for in a list of entries: the body of its entry, or anything
when there is none. `fuel` bounds the entries that are passed through. -/
def bodyByName (bodies : List (Ref × Node)) (entries : Entries Node) :
    Nat → Ref → Except Fault Node
  | 0, _ => .error .endless
  | fuel + 1, ref =>
    match bodies.lookup ref with
    | some node => .ok node
    | none =>
      match Entries.find? ref.name entries with
      | none => .ok .unknown
      | some (.lazy next) => bodyByName bodies entries fuel next
      | some node => .ok node

/-- A registry of given entries. A reference among `bodies` stands for the node beside it, any
other for the body of the entry of its name. -/
def ofEntries (bodies : List (Ref × Node)) (entries : Entries Node) : Registry where
  entries := entries
  refs := ((bodies.map (·.1)) ++ (bodies.flatMap (·.2.refs)) ++ Node.propertyRefs entries).eraseDups
  body := bodyByName bodies entries (entries.length + 2)
  adds := fun _ => []

end Registry

end ZodSchemas
