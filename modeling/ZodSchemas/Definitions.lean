import ZodSchemas.Value.Fault

/-!
# Definitions

The schemas of a document stand under `components` and there under `schemas`;
where one of the two is missing or empty there are none. A reference names a
definition by its last segment, and only a mapping defines anything.
-/

namespace ZodSchemas

/-- The entries of a value that must be a mapping. -/
def Value.entriesOf (v : Value) : Except Fault (Entries Value) :=
  match v.entries? with
  | some entries => .ok entries
  | none => .error (.noEntries v.kind)

/-- What stands under a key of a value that must be a mapping. -/
def Value.field? (key : Key) (v : Value) : Except Fault (Option Value) := do
  let entries ← v.entriesOf
  .ok (Entries.find? key entries)

/-- The value itself if it counts as true, and an empty mapping otherwise. -/
def Value.orEmpty : Option Value → Value
  | some v => if v.isTruthy then v else .map []
  | none => .map []

/-- The definitions of a document. -/
def definitionsOf (document : Value) : Except Fault Value := do
  let components ← document.field? "components"
  let schemas ← (Value.orEmpty components).field? "schemas"
  .ok (Value.orEmpty schemas)

namespace Reference

/-- The name that a reference ends with. -/
def target : Value → Except Fault Text
  | .text t => .ok (t.afterLast '/')
  | v => .error (.noSegments v.kind)

/-- The definition of a name, when it is a mapping. -/
def definition? (definitions : Value) (name : Key) : Except Fault (Option (Entries Value)) := do
  let definition ← definitions.field? name
  .ok (definition.bind Value.entries?)

/-- The name that a reference ends with and the definition of that name. -/
def resolve (definitions reference : Value) : Except Fault (Text × Option (Entries Value)) := do
  let name ← target reference
  let definition ← definition? definitions (.text name)
  .ok (name, definition)

end Reference

end ZodSchemas
