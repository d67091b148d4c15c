import ZodSchemas.Dependency.Graph

/-!
# Declaration order

Names are taken one after another and placed at the end of the order; a name is
placed by inserting it and then placing its dependencies in front of it, each
behind those before it. A name that was placed, or that is none of the map,
inserts nothing, which is what ends a cycle.
-/

namespace ZodSchemas

/-- An order in the making. -/
structure Sequencer where
  /-- The names that are still to be placed, with their dependencies. -/
  remaining : DependencyMap
  /-- The names that are placed. -/
  result : List Key

namespace Sequencer

/-- Place names one after another from a position on, given how one name is placed; the number of
names that were inserted comes with the state. -/
def placeEach (place : Sequencer → Key → Nat → Sequencer × Nat) :
    List Key → Sequencer → Nat → Sequencer × Nat
  | [], s, _ => (s, 0)
  | name :: names, s, position =>
    let (s, count) := place s name position
    let (s, others) := placeEach place names s (position + count)
    (s, count + others)

/-- Place a name when at most `fuel` names remain. -/
def placeWithin : Nat → Sequencer → Key → Nat → Sequencer × Nat
  | 0, s, _, _ => (s, 0)
  | fuel + 1, s, name, position =>
    match Entries.find? name s.remaining with
    | none => (s, 0)
    | some dependencies =>
      let s : Sequencer :=
        ⟨Entries.erase name s.remaining, s.result.insertIdx position name⟩
      let (s, count) := placeEach (placeWithin fuel) dependencies s position
      (s, count + 1)

/-- Insert a name at a position and its dependencies in front of it, and count what was inserted. -/
def place (s : Sequencer) (name : Key) (position : Nat) : Sequencer × Nat :=
  placeWithin s.remaining.length s name position

/-- Place the first remaining name at the end, at most `fuel` times. -/
def runWithin : Nat → Sequencer → Sequencer
  | 0, s => s
  | fuel + 1, s =>
    match s.remaining with
    | [] => s
    | (name, _) :: _ => runWithin fuel (s.place name s.result.length).1

/-- Place all names. -/
def run (s : Sequencer) : List Key := (runWithin s.remaining.length s).result

end Sequencer

/-- The names of a map, each behind the names it depends on where no cycle forbids it. -/
def sequence (dependencies : DependencyMap) : List Key :=
  Sequencer.run ⟨Entries.ofPairs dependencies, []⟩

end ZodSchemas
