import ZodSchemas.Value.Fault

/-!
# Nodes

A node describes which values are accepted, independently of the document it
comes from and of the code that is generated for it. Nodes are finite trees; a
cycle between named schemas closes only through a deferred reference, which
holds the name of the schema and not its body.
-/

namespace ZodSchemas

/-- A deferred reference to a named schema. References to one name are the same entry exactly
when they stem from the same registration. -/
structure Ref where
  /-- The name that is deferred to. -/
  name : Key
  /-- The registration that the entry stems from. -/
  origin : Nat
deriving DecidableEq

/-- What a constraint on texts demands. -/
inductive CheckKind where
  /-- At least so many code points. -/
  | min
  /-- At most so many code points. -/
  | max
  /-- A calendar date. -/
  | date
  /-- A constraint that no other part of the library knows. -/
  | other (name : Text)
deriving DecidableEq

/-- One constraint on texts. -/
structure Check where
  /-- What is demanded. -/
  kind : CheckKind
  /-- The bound; documents may give any value. -/
  bound : Value

/-- A description of accepted values. -/
inductive Node where
  /-- Texts that pass every check. -/
  | string (checks : List Check)
  /-- Numbers. -/
  | number
  /-- Truth values. -/
  | boolean
  /-- Mappings with the given properties. -/
  | object (properties : List (Key × Node)) (required : List Key)
  /-- Lists of one element type. -/
  | array (element : Node)
  /-- What one of the options accepts; the first that does decides. -/
  | union (options : List Node)
  /-- One of several values. -/
  | enum (values : List Value)
  /-- A single value. -/
  | literal (value : Value)
  /-- Null, or what the inner node accepts. -/
  | nullable (inner : Node)
  /-- Nothing at all, or what the inner node accepts. -/
  | optional (inner : Node)
  /-- What the schema of that name accepts. -/
  | lazy (ref : Ref)
  /-- Nothing. -/
  | never
  /-- Anything. -/
  | unknown
  /-- A node of no kind: it can be declared and compared, but decides nothing. -/
  | plain

instance : Inhabited Node := ⟨.unknown⟩

/-- The name of a kind of check. -/
def CheckKind.name : CheckKind → Text
  | .min => "min"
  | .max => "max"
  | .date => "date"
  | .other name => name

/-- The kind of check of a name. -/
def CheckKind.ofName (name : Text) : CheckKind :=
  if name = ("min" : Text) then .min
  else if name = ("max" : Text) then .max
  else if name = ("date" : Text) then .date
  else .other name

/-- Keys without repetitions, the first of equal keys kept. -/
def distinctKeys : List Key → List Key
  | [] => []
  | k :: rest => k :: (distinctKeys rest).filter fun other => !k.same other

/-- Whether a key is among some keys. -/
def Key.isAmong (key : Key) (keys : List Key) : Bool := keys.any fun k => k.same key

namespace Node

/-- An enumeration of values; a single value is a literal. -/
def ofValues : List Value → Node
  | [v] => .literal v
  | values => .enum values

mutual

/-- The references of a node, from left to right. -/
def refs : Node → List Ref
  | .object properties _ => propertyRefs properties
  | .array element => element.refs
  | .union options => optionRefs options
  | .nullable inner => inner.refs
  | .optional inner => inner.refs
  | .lazy ref => [ref]
  | _ => []

/-- The references of properties. -/
def propertyRefs : List (Key × Node) → List Ref
  | [] => []
  | (_, node) :: rest => node.refs ++ propertyRefs rest

/-- The references of options. -/
def optionRefs : List Node → List Ref
  | [] => []
  | node :: rest => node.refs ++ optionRefs rest

end

end Node

end ZodSchemas
