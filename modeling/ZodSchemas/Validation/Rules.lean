import ZodSchemas.Node.Registry
import ZodSchemas.Validation.Issue
import ZodSchemas.Value.Depth
import ZodSchemas.Value.IsoDate

/-!
# Validation

A value, or the absence of one, is validated against a node: the result is the
parsed data and the issues, of which there are none on success. Properties and
elements are validated one level deeper in the value; options, wrapped nodes
and references are validated against the same value. Following references on
one level must not come back to a reference that is being followed: the value
would never be decided. So validation always ends, with that fault if nothing
else.
-/

namespace ZodSchemas

/-- Parsed data, if any, and what is wrong with the value. -/
structure Verdict where
  /-- What is left of the value after parsing; an absent value stays absent. -/
  data : Option Value
  /-- The issues in order. -/
  issues : List Issue

/-- Computations of verdicts, which follow references. -/
abbrev Judging := Following Fault Verdict

namespace Verdict

/-- Nothing is wrong. -/
def accept (data : Option Value) : Verdict := ⟨data, []⟩

/-- One thing is wrong with the value itself. -/
def reject (value : Option Value) (path : Path) (message : Text) : Verdict :=
  ⟨value, [⟨path, message⟩]⟩

end Verdict

namespace Validation

/-- The complaint about a value of the wrong sort. -/
def expected (sort : Text) (v : Value) : Text :=
  ("Expected " : Text) ++ sort ++ ", received " ++ v.kind.name

/-- The complaint about a text that is too short. -/
def tooShort (bound : Value) : Except Fault Text := do
  let limit ← bound.plain
  .ok (("String must contain at least " : Text) ++ limit ++ " character(s)")

/-- The complaint about a text that is too long. -/
def tooLong (bound : Value) : Except Fault Text := do
  let limit ← bound.plain
  .ok (("String must contain at most " : Text) ++ limit ++ " character(s)")

/-- A complaint, if there is reason for it. -/
def complaintIf (isBad : Bool) (complaint : Except Fault Text) : Except Fault (List Text) :=
  if isBad then complaint.map fun t => [t] else .ok []

/-- The complaints of one check about a text. -/
def checkIssues (t : Text) (check : Check) : Except Fault (List Text) :=
  let length : Quantity := .finite t.length
  match check.kind with
  | .min =>
    match check.bound.quantity? with
    | some bound => complaintIf (length.lt bound) (tooShort check.bound)
    | none => .error (.noBound check.bound.kind)
  | .max =>
    match check.bound.quantity? with
    | some bound => complaintIf (bound.lt length) (tooLong check.bound)
    | none => .error (.noBound check.bound.kind)
  | .date => .ok (if t.isDate then [] else ["Invalid date"])
  | .other _ => .ok []

/-- The complaints of some checks about a text, in order. -/
def checksIssues (t : Text) : List Check → Except Fault (List Text)
  | [] => .ok []
  | check :: rest => do
    let first ← checkIssues t check
    let others ← checksIssues t rest
    .ok (first ++ others)

/-- A text that has to pass some checks. -/
def string (checks : List Check) (v : Value) (path : Path) : Judging :=
  match v with
  | .text t => do
    let messages ← checksIssues t checks
    pure ⟨some v, messages.map fun message => ⟨path, message⟩⟩
  | v => pure (.reject (some v) path (expected "string" v))

/-- A number; truth values are none. -/
def number (v : Value) (path : Path) : Verdict :=
  match v with
  | .int _ | .float _ => .accept (some v)
  | v => .reject (some v) path (expected "number" v)

/-- A truth value. -/
def boolean (v : Value) (path : Path) : Verdict :=
  match v with
  | .bool _ => .accept (some v)
  | v => .reject (some v) path (expected "boolean" v)

/-- The parsed entries of declared properties and all issues; undeclared keys are dropped. -/
def properties (descend : Node → Option Value → Path → Judging) (entries : Entries Value)
    (path : Path) : List (Key × Node) → Following Fault (Entries Value × List Issue)
  | [] => pure ([], [])
  | (key, node) :: rest => do
    let verdict ← descend node (Entries.find? key entries) (path ++ [.key key])
    let (others, issues) ← properties descend entries path rest
    let own := match verdict.data with
      | some v => [(key, v)]
      | none => []
    pure (own ++ others, verdict.issues ++ issues)

/-- The parsed items from an index on and all issues. -/
def elements (descend : Node → Option Value → Path → Judging) (element : Node) (path : Path) :
    Nat → List Value → Following Fault (List Value × List Issue)
  | _, [] => pure ([], [])
  | index, v :: rest => do
    let verdict ← descend element (some v) (path ++ [.index index])
    let (others, issues) ← elements descend element path (index + 1) rest
    pure (verdict.data.toList ++ others, verdict.issues ++ issues)

/-- The items of a value that counts as a list. -/
def listItems? (v : Value) : Option (List Value) :=
  match v.shape with
  | .list items => some items
  | .pair a b => some [a, b]
  | _ => none

/-- The complaint about a value that is none of several. -/
def notAmong (values : List Value) (v : Value) : Except Fault Text := do
  let allowed ← values.mapM Value.quoted
  let received ← v.quoted
  .ok (("Invalid enum value. Expected " : Text) ++ List.intercalate " | " allowed ++
    ", received " ++ received)

/-- The complaint about a value that is not a certain one. -/
def notEqual (allowed : Value) : Except Fault Text := do
  let t ← allowed.quoted
  .ok (("Invalid literal value, expected " : Text) ++ t)

/-- One thing is wrong with a value, if it can be said. -/
def rejectWith (v : Value) (path : Path) (complaint : Except Fault Text) : Judging := do
  let message ← complaint
  pure (.reject (some v) path message)

mutual

/-- The verdict of a node on a value, given how properties and elements are judged and how
references are. -/
def step (descend : Node → Option Value → Path → Judging)
    (follow : Ref → Option Value → Path → Judging) :
    Node → Option Value → Path → Judging
  | .plain, _, _ => Traced.fail .noRule
  | .unknown, value, _ => pure (.accept value)
  | .lazy ref, value, path => follow ref value path
  | .optional _, none, _ => pure (.accept none)
  | .optional inner, some v, path => step descend follow inner (some v) path
  | _, none, path => pure (.reject none path "Required")
  | .string checks, some v, path => string checks v path
  | .number, some v, path => pure (number v path)
  | .boolean, some v, path => pure (boolean v path)
  | .object nodes _, some v, path =>
    match v.entries? with
    | some entries => do
      let (data, issues) ← properties descend entries path nodes
      pure ⟨some (.map data), issues⟩
    | none => pure (.reject (some v) path (expected "object" v))
  | .array element, some v, path =>
    match listItems? v with
    | some items => do
      let (data, issues) ← elements descend element path 0 items
      pure ⟨some (.list data), issues⟩
    | none => pure (.reject (some v) path (expected "array" v))
  | .union options, some v, path => firstOption descend follow options v path
  | .enum values, some v, path =>
    if values.any fun allowed => allowed.isMatch v then pure (.accept (some v))
    else rejectWith v path (notAmong values v)
  | .literal allowed, some v, path =>
    if allowed.isMatch v then pure (.accept (some v))
    else rejectWith v path (notEqual allowed)
  | .nullable inner, some v, path =>
    match v with
    | .null => pure (.accept (some .null))
    | v => step descend follow inner (some v) path
  | .never, some v, path => pure (.reject (some v) path (expected "never" v))

/-- The verdict of the first option that has no complaint, or the complaint that there is none. -/
def firstOption (descend : Node → Option Value → Path → Judging)
    (follow : Ref → Option Value → Path → Judging) :
    List Node → Value → Path → Judging
  | [], v, path => pure (.reject (some v) path "Invalid input: no union option matched")
  | option :: rest, v, path => do
    let verdict ← step descend follow option (some v) path
    if verdict.issues.isEmpty then pure verdict
    else firstOption descend follow rest v path

end

/-- The verdict of a node when at most `fuel` references may be followed on this level;
`pending` are those that are not being followed. -/
def level (registry : Registry) (descend : Node → Option Value → Path → Judging) :
    Nat → List Ref → Node → Option Value → Path → Judging
  | 0, _ => step descend fun _ _ _ => Traced.fail .endless
  | fuel + 1, pending => step descend fun ref value path => do
    if ref ∈ pending then
      let body ← registry.resolve ref
      level registry descend fuel (pending.erase ref) body value path
    else Traced.fail .endless

/-- The verdict of a node on a value at most `depth` deep, when the references are among `refs`. -/
def within (registry : Registry) (refs : List Ref) : Nat → Node → Option Value → Path → Judging
  | 0 => level registry (fun _ _ _ => Traced.fail .endless) refs.length refs
  | depth + 1 => level registry (within registry refs depth) refs.length refs

/-- The levels that validation goes through below a value: those of its parts and one more for
what is absent inside them. -/
def depthOf : Option Value → Nat
  | some v => v.depth + 1
  | none => 0

end Validation

/-- Validate a value, or the absence of one, at a place. -/
def validateAt (registry : Registry) (node : Node) (value : Option Value) (path : Path) : Judging :=
  Validation.within registry (registry.refs ++ node.refs).eraseDups (Validation.depthOf value)
    node value path

/-- Validate a value, or the absence of one. -/
def validate (registry : Registry) (node : Node) (value : Option Value) : Judging :=
  validateAt registry node value []

/-- The parsed data of a valid value, or the issues of another. -/
def parse (registry : Registry) (node : Node) (value : Option Value) :
    Following Fault (Except (List Issue) (Option Value)) := do
  let verdict ← validate registry node value
  pure (if verdict.issues.isEmpty then .ok verdict.data else .error verdict.issues)

end ZodSchemas
