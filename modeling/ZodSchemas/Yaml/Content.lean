import ZodSchemas.Yaml.Merge
import ZodSchemas.Yaml.Meaning
import ZodSchemas.Value.Basic

/-!
# Contents

The value that a graph stands for. A scalar is read when it is first met; a
container is noted then and filled later, when its turn comes, in the order in
which containers were met. So of several errors the outermost is reported, and a
container may hold itself. Keys are scalars, and merges are carried out when
their mapping is filled. A node stands for one value, wherever it stands.
-/

namespace ZodSchemas.Yaml

namespace Graph

/-- The text of a node, with at most `fuel` nodes on the way: a mapping with the default key `=`
stands for the scalar under it. -/
def textWithin (g : Graph) : Nat → Nat → Except ReadError Text
  | 0, _ => .error .endless
  | fuel + 1, n =>
    match g.vertex n with
    | .scalar _ t => .ok t
    | .sequence _ _ => .error .malformed
    | .mapping _ entries =>
      match entries.find? fun e => g.tag e.1 = .default with
      | some (_, value) => textWithin g fuel value
      | none => .error .malformed

/-- The text of a node. -/
def text (g : Graph) (n : Nat) : Except ReadError Text := g.textWithin (g.size + 1) n

/-- The value of a node with a tag of scalars. A date is not looked for in a mapping. -/
def key (g : Graph) (n : Nat) : Except ReadError Key :=
  if (g.tag n).isScalar then do
    let t ← g.text n
    match g.tag n, g.vertex n with
    | .timestamp, .mapping _ _ => .error .dateOfMapping
    | tag, _ => readScalar (n + 1) tag t
  else .error .malformed

end Graph

/-- Tags of nodes that have parts. -/
def Tag.isCollection : Tag → Bool
  | .omap | .pairs | .set | .seq | .map => true
  | _ => false

/-- What is known while a graph is read. -/
structure Filling where
  /-- The graph, as merges have changed it. -/
  graph : Graph
  /-- What the nodes that were met stand for. -/
  strands : Array (Option Strand)
  /-- The containers by their places: those of nodes have the numbers of the nodes. -/
  knot : Knot
  /-- The containers in the order in which they were met. -/
  met : Array Nat

/-- Computations that fill containers. -/
abbrev Filled (α : Type) := StateT Filling (Except ReadError) α

namespace Filled

/-- What a node stands for, which is looked into when it is first met. -/
def strand (n : Nat) : Filled Strand := do
  let s ← get
  match s.strands.getD n none with
  | some strand => pure strand
  | none =>
    if (s.graph.tag n).isCollection then
      set { s with strands := s.strands.setIfInBounds n (some (.place n)), met := s.met.push n }
      pure (.place n)
    else
      let key ← s.graph.key n
      set { s with strands := s.strands.setIfInBounds n (some (.key key)) }
      pure (.key key)

/-- The key that a node is; a container is none. -/
def key (n : Nat) : Filled Key := do
  match ← strand n with
  | .key key => pure key
  | .place _ => throw .malformed

/-- Add a container that is no node. -/
def add (loop : Loop) : Filled Strand := do
  let s ← get
  set { s with knot := s.knot.push loop }
  pure (.place s.knot.size)

/-- The nodes of a sequence. -/
def items (n : Nat) : Filled (List Nat) := do
  match (← get).graph.vertex n with
  | .sequence _ items => pure items
  | _ => throw .malformed

/-- The entries of a mapping with those that it merges. -/
def merged (n : Nat) : Filled (List (Nat × Nat)) := do
  let s ← get
  match s.graph.vertex n with
  | .mapping _ _ =>
    let (_, graph) ← (Merging.mapping n) s.graph
    set { s with graph := graph }
    pure (graph.entries n)
  | _ => throw .malformed

/-- The keys and values of a mapping. -/
def entries (n : Nat) : Filled (Entries Strand) := do
  let pairs ← (← merged n).mapM fun (k, v) => do
    let key ← key k
    let value ← strand v
    pure (key, value)
  pure (Entries.ofPairs pairs)

/-- The pair that a mapping with one entry is. -/
def pair (n : Nat) : Filled Strand := do
  match (← get).graph.vertex n with
  | .mapping _ [(k, v)] =>
    let first ← strand k
    let second ← strand v
    add (.pair first second)
  | _ => throw .malformed

/-- The container of a node by its tag. -/
def loop (n : Nat) : Filled Loop := do
  match (← get).graph.tag n with
  | .map => pure (.map (← entries n))
  | .set => pure (.set (Entries.keys (← entries n)))
  | .seq => pure (.list (← (← items n).mapM strand))
  | _ => pure (.list (← (← items n).mapM pair))

/-- Fill the containers from one on, in the order in which they are met; there are at most `fuel`
of them. -/
def fillFrom : Nat → Nat → Filled Unit
  | 0, _ => pure ()
  | fuel + 1, i => do
    match (← get).met[i]? with
    | none => pure ()
    | some n =>
      let filled ← loop n
      modify fun s => { s with knot := s.knot.setIfInBounds n filled }
      fillFrom fuel (i + 1)

/-- The value of a node. -/
def value (n : Nat) : Filled Value := do
  let strand ← strand n
  fillFrom (← get).graph.size 0
  match strand with
  | .key key => pure (.atom key)
  | .place place => pure (.ofKnot (← get).knot place)

end Filled

/-- The value of a node of a graph. -/
def Graph.content (g : Graph) (n : Nat) : Except ReadError Value :=
  let start : Filling := ⟨g, Array.replicate g.size none, Array.replicate g.size (.list []), #[]⟩
  (Filled.value n start).map (·.1)

/-- The value of a text; a text without a document is nothing. -/
def read (t : Text) : Except ReadError Value := do
  match ← Graph.ofText t with
  | some (g, root) => g.content root
  | none => .ok .null

end ZodSchemas.Yaml
