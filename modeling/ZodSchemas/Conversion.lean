import ZodSchemas.Value.Depth
import ZodSchemas.Definitions
import ZodSchemas.Node.Registry

/-!
# Conversion of schemas to nodes

A schema is a mapping. The first present of the keywords `$ref`, `allOf`,
`anyOf` and `oneOf` decides its form, then its type. A reference becomes a
deferred reference to the definition that it names, or accepts anything when
there is no such definition. The conversion of a schema depends on nothing but
the schema and on which names are defined; every reference that it meets is
mentioned in the trace, where the owner of the registry registers the known
names and warns of the missing ones.
-/

namespace ZodSchemas

/-- A reference that was met during a conversion, by the name that it ends with. -/
inductive Mention where
  /-- The name has a definition. -/
  | known (name : Text)
  /-- The name has none. -/
  | missing (name : Text)
deriving DecidableEq

/-- A conversion and the references that it met. -/
abbrev Conversion (α : Type) := Traced Mention Fault α

/-- What a schema asks for, by its first deciding keyword. -/
inductive Form where
  /-- What another definition asks for. -/
  | reference (target : Value)
  /-- An object with the properties of all object members. -/
  | allOf (members : Value)
  /-- What one of the members asks for. -/
  | anyOf (members : Value)
  /-- A mapping. -/
  | object (properties required : Option Value)
  /-- A list. -/
  | array (items : Option Value)
  /-- One of the listed values. -/
  | choice (values : Value)
  /-- A text. -/
  | string (checks : List Check)
  /-- A number. -/
  | number
  /-- A truth value. -/
  | boolean
  /-- Nothing in particular. -/
  | anything

/-- The checks of a schema of texts, in the order least length, greatest length, date. -/
def stringChecks (schema : Entries Value) : List Check :=
  let bound (keyword : Text) (kind : CheckKind) : List Check :=
    match Entries.find? keyword schema with
    | some v => [⟨kind, v⟩]
    | none => []
  let isDate := (Entries.find? "format" schema).any fun v => v.equals "date"
  bound "minLength" .min ++ bound "maxLength" .max ++ (if isDate then [⟨.date, .null⟩] else [])

/-- The form that the type of a schema gives it. -/
def Form.ofType (schema : Entries Value) : Form :=
  let type := (Entries.find? "type" schema).getD .null
  if type.equals "object" then
    .object (Entries.find? "properties" schema) (Entries.find? "required" schema)
  else if type.equals "array" then .array (Entries.find? "items" schema)
  else if type.equals "string" then
    match Entries.find? "enum" schema with
    | some values => .choice values
    | none => .string (stringChecks schema)
  else if type.equals "number" || type.equals "integer" then .number
  else if type.equals "boolean" then .boolean
  else .anything

/-- The form of a schema. -/
def Form.of (schema : Entries Value) : Form :=
  match Entries.find? "$ref" schema with
  | some target => .reference target
  | none =>
    match Entries.find? "allOf" schema with
    | some members => .allOf members
    | none =>
      match Entries.find? "anyOf" schema with
      | some members => .anyOf members
      | none =>
        match Entries.find? "oneOf" schema with
        | some members => .anyOf members
        | none => .ofType schema

/-- The keywords that decide the form of a schema before its type does. -/
def leadingKeywords : List Text := ["$ref", "allOf", "anyOf", "oneOf"]

/-- Why a value that is no mapping is no schema: the first leading keyword that it holds, or that
it cannot be asked for, decides. -/
def schemaFault (v : Value) : Fault :=
  (leadingKeywords.findSome? fun keyword =>
    match v.holds? keyword with
    | none => some (Fault.noKeywords v.kind)
    | some true => some (Fault.noValueUnderKeyword v.kind)
    | some false => none).getD (.noEntries v.kind)

/-- The items of a value that must have some. -/
def Value.itemsOf (v : Value) : Except Fault (List Value) :=
  match v.items? with
  | some items => .ok items
  | none => .error (.noItems v.kind)

/-- The items of a value that counts as true, none of any other. -/
def Value.itemsIfAny : Option Value → Except Fault (List Value)
  | some v => if v.isTruthy then v.itemsOf else .ok []
  | none => .ok []

/-- The keys that some values are. -/
def keysOf : List Value → Except Fault (List Key)
  | [] => .ok []
  | v :: rest => do
    let key ← match v.toKey? with
      | some key => Except.ok key
      | none => Except.error (.noKey v.kind)
    let keys ← keysOf rest
    .ok (key :: keys)

/-- The properties and required names of several schemas taken together. -/
structure Merged where
  /-- A property that comes again keeps its place and takes the later schema. -/
  properties : Entries Value
  /-- All required names, one after another. -/
  required : List Value

/-- The properties that a schema declares; a value that counts as false declares none. -/
def declaredProperties (schema : Entries Value) : Except Fault (Entries Value) :=
  let properties := Value.orEmpty (Entries.find? "properties" schema)
  match properties.entries? with
  | some entries => .ok entries
  | none => .error (.noMerge properties.kind)

/-- Whether a schema is of type object. -/
def isObject (schema : Entries Value) : Bool :=
  ((Entries.find? "type" schema).getD .null).equals "object"

/-- Take the properties and required names of a member of type object along; other members are
dropped. -/
def Merged.add (merged : Merged) (member : Value) : Except Fault Merged := do
  let schema ← member.entriesOf
  if isObject schema then
    let properties ← declaredProperties schema
    let required ← Value.itemsIfAny (Entries.find? "required" schema)
    .ok ⟨Entries.merge merged.properties properties, merged.required ++ required⟩
  else .ok merged

/-- All members taken together. -/
def Merged.ofMembers (members : List Value) : Except Fault Merged :=
  members.foldlM Merged.add ⟨[], []⟩

/-- The definitions that references are looked up in, and the registration that deferred
references to them stem from. -/
structure Source where
  /-- The definitions by name; documents may give any value. -/
  definitions : Value
  /-- The number of the registration. -/
  round : Nat

namespace Source

/-- A deferred reference to a defined name, or a node that accepts anything. -/
def reference (source : Source) (target : Value) : Conversion Node := do
  let (name, definition) ← Reference.resolve source.definitions target
  match definition with
  | some _ =>
    Traced.emit (.known name)
    pure (.lazy ⟨.text name, source.round⟩)
  | none =>
    Traced.emit (.missing name)
    pure .unknown

/-- The nodes of properties in order; a property without a schema is skipped, and one that is not
required may be absent. -/
def properties (convert : Value → Conversion Node) (required : List Key) :
    Entries Value → Conversion (Entries Node)
  | [] => pure []
  | (key, schema) :: rest =>
    match schema with
    | .null => properties convert required rest
    | schema => do
      let node ← convert schema
      let nodes ← properties convert required rest
      pure ((key, if key.isAmong required then node else .optional node) :: nodes)

/-- The node of an object with some properties and required names. -/
def object (convert : Value → Conversion Node) (schemas : Option Value)
    (names : Except Fault (List Value)) : Conversion Node := do
  let keys ← (names.bind keysOf : Except Fault (List Key))
  let required := distinctKeys keys
  let entries ← (Value.orEmpty schemas).entriesOf
  let nodes ← properties convert required entries
  pure (.object nodes required)

/-- The node of several options: none accepts nothing, and one stands for itself. -/
def anyOf : List Node → Node
  | [] => .never
  | [node] => node
  | nodes => .union nodes

/-- The node of a form, given the conversion of the schemas inside. -/
def ofForm (source : Source) (convert : Value → Conversion Node) : Form → Conversion Node
  | .reference target => source.reference target
  | .allOf members => do
    let members ← members.itemsOf
    let merged ← Merged.ofMembers members
    object convert (some (.map merged.properties)) (.ok merged.required)
  | .anyOf members => do
    let members ← members.itemsOf
    let nodes ← members.mapM convert
    pure (anyOf nodes)
  | .object schemas required => object convert schemas (Value.itemsIfAny required)
  | .array (some items) => do
    if items.isTruthy then
      let element ← convert items
      pure (.array element)
    else pure (.array .unknown)
  | .array none => pure (.array .unknown)
  | .choice values => do
    let values ← values.itemsOf
    pure (.ofValues values)
  | .string checks => pure (.string checks)
  | .number => pure .number
  | .boolean => pure .boolean
  | .anything => pure .unknown

/-- Whether a schema accepts null beside what its form accepts. -/
def isNullable (schema : Entries Value) : Bool :=
  (Entries.find? "nullable" schema).any Value.isTruthy

/-- The node of a schema, given the conversion of the schemas inside. -/
def ofSchema (source : Source) (convert : Value → Conversion Node) (v : Value) :
    Conversion Node :=
  match v.entries? with
  | some schema => do
    let node ← source.ofForm convert (.of schema)
    pure (if isNullable schema then .nullable node else node)
  | none => Traced.fail (schemaFault v)

/-- The node of a schema that is less than `fuel` deep; a schema inside itself has none. -/
def convertWithin (source : Source) : Nat → Value → Conversion Node
  | 0, _ => Traced.fail .endless
  | fuel + 1, schema => source.ofSchema (source.convertWithin fuel) schema

/-- The node of a schema. -/
def convert (source : Source) (schema : Value) : Conversion Node :=
  source.convertWithin (schema.depth + 1) schema

end Source

end ZodSchemas
