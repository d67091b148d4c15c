import ZodSchemas.Value.Entries

/-!
# Knots

A knot is an array of containers that hold one another by their places in it.
One container may be a part of several others, and of itself. Nothing
here is followed: a knot is finite, whatever the walks through it are.
-/

namespace ZodSchemas

/-- A part of a container of a knot. -/
inductive Strand where
  /-- A value without parts. -/
  | key (key : Key)
  /-- The container at a place. -/
  | place (place : Nat)
deriving DecidableEq

/-- A container of a knot. -/
inductive Loop where
  /-- A list. -/
  | list (items : List Strand)
  /-- Two values together. -/
  | pair (first second : Strand)
  /-- A mapping from keys to values. -/
  | map (entries : Entries Strand)
  /-- A set of keys. -/
  | set (items : List Key)
deriving DecidableEq

/-- Containers by their places. -/
abbrev Knot := Array Loop

namespace Strand

/-- The container that a part is. -/
def place? : Strand → Option Nat
  | .key _ => none
  | .place n => some n

end Strand

namespace Loop

/-- The parts of a container. -/
def strands : Loop → List Strand
  | .list items => items
  | .pair a b => [a, b]
  | .map entries => entries.map (·.2)
  | .set _ => []

/-- The places that a container holds. -/
def places (loop : Loop) : List Nat := loop.strands.filterMap Strand.place?

end Loop

namespace Knot

/-- How often each place is held, where the place that is seen from the outside counts as held. -/
def uses (knot : Knot) (root : Nat) : Array Nat :=
  (root :: knot.toList.flatMap Loop.places).foldl (fun counts n => counts.modify n (· + 1))
    (Array.replicate knot.size 0)

/-- No container is part of two others, or of itself: the knot is a tree. -/
def isTree (knot : Knot) (root : Nat) : Bool := (knot.uses root).all (· ≤ 1)

end Knot

end ZodSchemas
