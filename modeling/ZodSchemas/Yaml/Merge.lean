import ZodSchemas.Yaml.Graph

/-!
# Merged entries

Under the key `<<` a mapping takes entries from another mapping, or from the
mappings of a sequence. They come in front of its own entries, which replace
them. The graph itself is changed, so a mapping that stands in several places
is changed in all of them; on the way a default key becomes a text. A mapping
may take from itself: it gives what it holds at that moment.
-/

namespace ZodSchemas.Yaml

namespace Vertex

/-- The tag of a node. -/
def tag : Vertex → Tag
  | .scalar tag _ => tag
  | .sequence tag _ => tag
  | .mapping tag _ => tag

/-- The same node with another tag. -/
def withTag (tag : Tag) : Vertex → Vertex
  | .scalar _ t => .scalar tag t
  | .sequence _ items => .sequence tag items
  | .mapping _ entries => .mapping tag entries

/-- The entries of a mapping. -/
def entries : Vertex → List (Nat × Nat)
  | .mapping _ entries => entries
  | _ => []

end Vertex

namespace Graph

/-- The node of a number. -/
def vertex (g : Graph) (n : Nat) : Vertex := g.getD n default

/-- The tag of a node. -/
def tag (g : Graph) (n : Nat) : Tag := (g.vertex n).tag

/-- The entries of a mapping. -/
def entries (g : Graph) (n : Nat) : List (Nat × Nat) := (g.vertex n).entries

/-- Give a mapping other entries. -/
def withEntries (g : Graph) (n : Nat) (entries : List (Nat × Nat)) : Graph :=
  g.setIfInBounds n (.mapping (g.tag n) entries)

/-- Whether an entry asks for a merge. -/
def isMerge (g : Graph) (entry : Nat × Nat) : Bool := g.tag entry.1 = .merge

/-- How many entries ask for a merge. -/
def mergeCount (g : Graph) : Nat :=
  g.foldl (fun count vertex => count + (vertex.entries.filter g.isMerge).length) 0

/-- Make the default keys among some entries texts. -/
def withoutDefaults (g : Graph) (entries : List (Nat × Nat)) : Graph :=
  entries.foldl (fun g e =>
    if g.tag e.1 = .default then g.setIfInBounds e.1 ((g.vertex e.1).withTag .str) else g) g

end Graph

/-- Changes of a graph. -/
abbrev Merging (α : Type) := StateT Graph (Except ReadError) α

namespace Merging

/-- The node that the first merge of a mapping takes from; the merge is dropped. -/
def takeFirst? (n : Nat) : Merging (Option Nat) := do
  let g ← get
  match (g.entries n).find? g.isMerge with
  | none => pure none
  | some (_, value) =>
    set (g.withEntries n ((g.entries n).eraseP g.isMerge))
    pure (some value)

/-- The entries of a node that must be a mapping, after some change of it. -/
def entriesAfter (change : Nat → Merging Unit) (n : Nat) : Merging (List (Nat × Nat)) := do
  match (← get).vertex n with
  | .mapping _ _ =>
    change n
    pure ((← get).entries n)
  | _ => throw .malformed

/-- The entries that a merge takes from a node whose mappings are changed first; of the mappings
of a sequence the last one comes first. -/
def entriesFrom (change : Nat → Merging Unit) (n : Nat) : Merging (List (Nat × Nat)) := do
  match (← get).vertex n with
  | .sequence _ items =>
    let parts ← items.mapM (entriesAfter change)
    pure parts.reverse.flatten
  | _ => entriesAfter change n

/-- Put merged entries in front of those of a mapping, whose default keys become texts. -/
def putFront (n : Nat) (merged : List (Nat × Nat)) : Merging Unit :=
  modify fun g =>
    let g := g.withoutDefaults (g.entries n)
    if merged.isEmpty then g else g.withEntries n (merged ++ g.entries n)

/-- Carry out the merges of a mapping, given what came of those before; at most `fuel` merges are
left in the graph. -/
def within : Nat → Nat → List (Nat × Nat) → Merging Unit
  | 0, n, merged => putFront n merged
  | fuel + 1, n, merged => do
    match ← takeFirst? n with
    | none => putFront n merged
    | some value =>
      let more ← entriesFrom (fun m => within fuel m []) value
      within fuel n (merged ++ more)

/-- Carry out the merges of a mapping. -/
def mapping (n : Nat) : Merging Unit := do within (← get).mergeCount n []

end Merging

end ZodSchemas.Yaml
