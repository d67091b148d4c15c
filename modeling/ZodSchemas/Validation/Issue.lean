import ZodSchemas.Value.Display

/-!
# Issues

An issue says where in a value something is wrong and what it is. The place is
the path of keys and indexes that leads to it from the outside.
-/

namespace ZodSchemas

/-- One step into a value. -/
inductive Step where
  /-- Under a key of a mapping. -/
  | key (key : Key)
  /-- At an index of a list, from 0. -/
  | index (index : Nat)
deriving DecidableEq

/-- The steps from the outside. -/
abbrev Path := List Step

/-- One thing that is wrong with a value. -/
structure Issue where
  /-- Where it is. -/
  path : Path
  /-- What it is. -/
  message : Text
deriving DecidableEq

/-- A step in a message. -/
def Step.text : Step → Except Fault Text
  | .key k => k.plain
  | .index n => .ok (Numeral.decimal n)

/-- A path in a message: its steps with points between them. -/
def pathText (path : Path) : Except Fault Text := do
  let steps ← path.mapM Step.text
  let joined := List.intercalate "." steps
  .ok (if joined.isEmpty then "<root>" else joined)

namespace Issue

/-- An issue on one line. -/
def text (issue : Issue) : Except Fault Text := do
  let place ← pathText issue.path
  .ok (place ++ ": " ++ issue.message)

/-- The issue seen from further outside. -/
def under (outer : Path) (issue : Issue) : Issue := ⟨outer ++ issue.path, issue.message⟩

/-- Some issues in one line. -/
def summary (issues : List Issue) : Except Fault Text := do
  let texts ← issues.mapM text
  .ok (List.intercalate "; " texts)

end Issue

end ZodSchemas
