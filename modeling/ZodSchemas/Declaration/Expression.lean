import ZodSchemas.Declaration.PropertyName
import ZodSchemas.Declaration.Term
import ZodSchemas.Node.Registry
import ZodSchemas.Settings

/-!
# Expressions

The expression of a node builds the validator that accepts what the node
accepts; it is the text of a term. A reference uses the identifier of a
declaration when that declaration is complete and stands above, and defers to
it otherwise. A union whose options are objects that one property tells apart
is a discriminated union; its options must be the objects themselves, so none
of them may be deferred.
-/

namespace ZodSchemas

/-- Why code was not generated. -/
inductive GenerationError where
  /-- A value of the wrong sort. -/
  | fault (fault : Fault)
  /-- A check without an expression, and where it stands. -/
  | unsupportedCheck (kind path : Text)
  /-- A name to declare that is not registered. -/
  | notRegistered (name : Text)

/-- The wording of an error; faults have none. -/
def GenerationError.message? : GenerationError → Option Text
  | .fault _ => none
  | .unsupportedCheck kind path =>
    some (("unsupported check kind: " : Text) ++ kind ++
      (if path.isEmpty then [] else (" (at " : Text) ++ path ++ (")" : Text)))
  | .notRegistered name =>
    some (("Schema \"" : Text) ++ name ++ ("\" is not in the registry" : Text))

/-- How far the declarations have come. -/
structure Progress where
  /-- The names that are declared. -/
  generated : List Key := []
  /-- The names whose declaration is being written. -/
  inProgress : List Key := []

namespace Progress

/-- Whether a name can be referred to by its identifier. -/
def isDeclared (p : Progress) (name : Key) : Bool :=
  name.isAmong p.generated && !name.isAmong p.inProgress

/-- Add a key to some keys unless it is among them. -/
def insertKey (keys : List Key) (name : Key) : List Key :=
  if name.isAmong keys then keys else keys ++ [name]

/-- A declaration is begun. -/
def start (p : Progress) (name : Key) : Progress :=
  { p with inProgress := insertKey p.inProgress name }

/-- A declaration is no longer being written. -/
def stop (p : Progress) (name : Key) : Progress :=
  { p with inProgress := p.inProgress.filter fun k => !k.same name }

/-- A name is declared. -/
def finish (p : Progress) (name : Key) : Progress :=
  { p with generated := insertKey p.generated name }

end Progress

/-- Computations of code, which follow references. -/
abbrev Rendering (α : Type) := Following GenerationError α

/-- A computation whose faults are errors of generation. -/
def Following.asRendering {α : Type} (x : Following Fault α) : Rendering α := x.mapError .fault

/-- What an expression depends on beside its node. -/
structure Context where
  /-- The registry that references are resolved in. -/
  registry : Registry
  /-- The settings. -/
  settings : Settings
  /-- How far the declarations have come. -/
  progress : Progress

namespace Context

/-- The identifier of the declaration of a name. -/
def identifier (c : Context) (name : Key) : Rendering Text :=
  Following.asRendering (Traced.ofExcept (c.settings.identifier (.ofKey name)))

/-- The use of the declaration of a name, deferred unless it is complete and stands above. -/
def use (c : Context) (name : Key) : Rendering Use := do
  let identifier ← c.identifier name
  pure ⟨name, identifier, !c.progress.isDeclared name⟩

/-- A text that a value has, if it has one. -/
def written (t : Except Fault Text) : Rendering Text := Following.asRendering (Traced.ofExcept t)

/-- The literal of a value. -/
def literal (v : Value) : Rendering Text := written (Json.write v)

/-- Where a node stands, as errors say it: the path, unless it counts as false. -/
def placeText (path : Key) : Rendering Text :=
  if (Value.ofKey path).isTruthy then written path.plain else pure []

/-- The path of a part of a node, whose own path is at first a name. -/
def subpath (path : Key) (step : Text) : Rendering Key := do
  let t ← written path.plain
  pure (.text (t ++ "." ++ step))

/-- The call that a check adds to the expression of texts. -/
def checkCall (path : Key) (check : Check) : Rendering Text :=
  match check.kind with
  | .min => do
    let bound ← written check.bound.plain
    pure ((".min(" : Text) ++ bound ++ ")")
  | .max => do
    let bound ← written check.bound.plain
    pure ((".max(" : Text) ++ bound ++ ")")
  | .date => pure ".date()"
  | .other kind => do
    let place ← placeText path
    Traced.fail (.unsupportedCheck kind place)

/-- The calls that some checks add, in order. -/
def checkCalls (path : Key) : List Check → Rendering Text
  | [] => pure []
  | check :: rest => do
    let call ← checkCall path check
    let calls ← checkCalls path rest
    pure (call ++ calls)

/-- The literals of some values, in order. -/
def literals : List Value → Rendering (List Text)
  | [] => pure []
  | v :: rest => do
    let first ← literal v
    let others ← literals rest
    pure (first :: others)

/-- The only value that a node allows, when it lists one. -/
def literalValue? : Node → Option Value
  | .literal v => some v
  | .enum [v] => some v
  | _ => none

/-- The properties with a literal value. -/
def tags (properties : Entries Node) : List (Key × Value) :=
  properties.filterMap fun (key, node) => (literalValue? node).map fun v => (key, v)

/-- The object behind an option of a union, if it is one; a reference counts once it is declared. -/
def optionProperties (c : Context) (option : Node) : Rendering (Option (Entries Node)) := do
  match option with
  | .lazy ref =>
    if c.progress.isDeclared ref.name then
      let body ← Following.asRendering (c.registry.resolve ref)
      match body with
      | .object properties _ => pure (some properties)
      | _ => pure none
    else pure none
  | .object properties _ => pure (some properties)
  | _ => pure none

/-- The key that tells all options apart, given the key and the values of those before. -/
def discriminatorFrom (c : Context) : Option Key → List Value → List Node → Rendering (Option Key)
  | key, _, [] => pure key
  | key, seen, option :: rest => do
    match ← c.optionProperties option with
    | none => pure none
    | some properties =>
      match tags properties with
      | [(tagKey, tagValue)] =>
        if (key.map fun k => k.same tagKey).getD true then
          if seen.any fun v => tagValue.isMatch v then pure none
          else discriminatorFrom c (some (key.getD tagKey)) (seen ++ [tagValue]) rest
        else pure none
      | _ => pure none

/-- The key that tells the options of a union apart: each of two or more objects has exactly one
literal property, all under that key and no two of one value. -/
def discriminator (c : Context) (options : List Node) : Rendering (Option Key) :=
  if options.length < 2 then pure none else c.discriminatorFrom none [] options

/-- The term of a union of rendered options. -/
def unionTerm (key : Option Key) (options : List Term) : Rendering Term :=
  match key with
  | some key => do
    let name ← literal (.ofKey key)
    pure (.discriminated name options)
  | none => pure (.union options)

/-- The term of texts that pass some checks. -/
def stringTerm (path : Key) (checks : List Check) : Rendering Term := do
  let calls ← checkCalls path checks
  pure (.call (("z.string()" : Text) ++ calls))

/-- The term of a single value. -/
def literalTerm (v : Value) : Rendering Term := do
  let value ← literal v
  pure (.call (("z.literal(" : Text) ++ value ++ ")"))

/-- The term of one of several values. -/
def enumTerm (values : List Value) : Rendering Term := do
  let parts ← literals values
  pure (.call (("z.enum([" : Text) ++ List.intercalate ", " parts ++ "])"))

mutual

/-- The term of a node; the path tells where it stands. -/
def term (c : Context) : Node → Key → Rendering Term
  | .lazy ref, _ => do
    let u ← c.use ref.name
    pure (.use u)
  | .object properties _, path => do
    let parts ← propertyTerms c properties path
    pure (.object parts)
  | .array element, path => do
    let place ← subpath path "element"
    let inner ← term c element place
    pure (.array inner)
  | .union options, path => do
    let parts ← optionTerms c 0 options path
    let key ← c.discriminator options
    unionTerm key parts
  | .string checks, path => stringTerm path checks
  | .number, _ => pure (.call "z.number()")
  | .boolean, _ => pure (.call "z.boolean()")
  | .enum [v], _ => literalTerm v
  | .enum values, _ => enumTerm values
  | .literal v, _ => literalTerm v
  | .nullable inner, path => do
    let inner ← term c inner path
    pure (.nullable inner)
  | .optional inner, path => do
    let inner ← term c inner path
    pure (.optional inner)
  | .never, _ => pure (.call "z.never()")
  | .unknown, _ => pure (.call "z.unknown()")
  | .plain, _ => pure (.call "z.unknown()")

/-- The rendered properties, each with its written name. -/
def propertyTerms (c : Context) : List (Key × Node) → Key → Rendering (List (Text × Term))
  | [], _ => pure []
  | (key, node) :: rest, path => do
    let name ← written (PropertyName.write key)
    let step ← written key.plain
    let place ← subpath path step
    let value ← term c node place
    let others ← propertyTerms c rest path
    pure ((name, value) :: others)

/-- The rendered options from an index on. -/
def optionTerms (c : Context) : Nat → List Node → Key → Rendering (List Term)
  | _, [], _ => pure []
  | index, option :: rest, path => do
    let place ← subpath path (("union." : Text) ++ Numeral.decimal index)
    let first ← term c option place
    let others ← optionTerms c (index + 1) rest path
    pure (first :: others)

end

/-- The expression of a node: the text of its term. -/
def expression (c : Context) (node : Node) (path : Key) : Rendering Text := do
  let t ← c.term node path
  pure t.text

end Context

end ZodSchemas
