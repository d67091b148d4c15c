import ZodSchemas.Conversion

/-!
# Converters

A converter owns the registry of the definitions of one document. Definitions
are registered all at once, in their order, and single ones when a reference to
them is met. A body is converted when it is first resolved; a body whose
conversion fails is converted again on each use. Missing definitions are noted
each time a conversion meets a reference to one.
-/

namespace ZodSchemas

/-- What becomes known while the schemas of one document are converted. -/
structure Converter where
  /-- The definitions by name; documents may give any value. -/
  definitions : Value
  /-- How many times all definitions were registered. -/
  round : Nat
  /-- The registered names and the references that their entries are. -/
  entries : Entries Ref
  /-- The references whose bodies were converted. -/
  converted : List Ref
  /-- The missing names that were noted, in order. -/
  missing : List Text

/-- The wording of the note on a missing name. -/
def missingNote (name : Text) : Text :=
  ("Referenced schema \"" : Text) ++ name ++ "\" not found in spec"

namespace Converter

/-- A converter of a document that has registered nothing. -/
def ofDocument (document : Value) : Except Fault Converter := do
  let definitions ← definitionsOf document
  .ok ⟨definitions, 0, [], [], []⟩

/-- Conversions at this point. -/
def source (c : Converter) : Source := ⟨c.definitions, c.round⟩

/-- The names that are defined, in order. -/
def definedNames (definitions : Value) : List Key :=
  (definitions.entries?.getD []).filterMap fun (name, schema) =>
    if schema.entries?.isSome then some name else none

/-- Register every definition anew, in order; names that are registered keep their places. -/
def registerAll (c : Converter) : Except Fault Converter := do
  let _ ← c.definitions.entriesOf
  let round := c.round + 1
  let fresh := (definedNames c.definitions).map fun name => (name, (⟨name, round⟩ : Ref))
  .ok { c with round := round, entries := Entries.merge c.entries fresh }

/-- Register a name unless it is registered. -/
def register (c : Converter) (name : Text) : Converter :=
  if Entries.has name c.entries then c
  else { c with entries := c.entries ++ [(.text name, ⟨.text name, c.round⟩)] }

/-- Account for a reference that a conversion met. -/
def note (c : Converter) : Mention → Converter
  | .known name => c.register name
  | .missing name => { c with missing := c.missing ++ [name] }

/-- Account for the references that a conversion met. -/
def noteAll (c : Converter) (mentions : List Mention) : Converter := mentions.foldl note c

/-- The conversion of the definition behind a reference. -/
def conversionOf (c : Converter) (ref : Ref) : Conversion Node := do
  match ← Reference.definition? c.definitions ref.name with
  | some schema => c.source.convert (.map schema)
  | none => pure .unknown

/-- Account for a reference that was followed. -/
def follow (c : Converter) (ref : Ref) : Converter :=
  if ref ∈ c.converted then c
  else
    let conversion := c.conversionOf ref
    let c := c.noteAll conversion.events
    match conversion.outcome with
    | .ok _ => { c with converted := ref :: c.converted }
    | .error _ => c

/-- Account for the references that were followed, in order. -/
def followAll (c : Converter) (refs : List Ref) : Converter := refs.foldl follow c

/-- The registry at this point. -/
def registry (c : Converter) : Registry where
  entries := c.entries.map fun (name, ref) => (name, .lazy ref)
  refs := (definedNames c.definitions).map fun name => ⟨name, c.round⟩
  body := fun ref => (c.conversionOf ref).outcome
  adds := fun ref => (c.conversionOf ref).events.filterMap fun
    | .known name => some (.text name, .lazy ⟨.text name, c.round⟩)
    | .missing _ => none

/-- Run something on the registry and account for what it followed. -/
def run {ε α : Type} (c : Converter) (x : Registry → Following ε α) : Converter × Except ε α :=
  let result := x c.registry
  (c.followAll result.events, result.outcome)

/-- Convert a schema that is not registered. -/
def convertSchema (c : Converter) (schema : Value) : Converter × Except Fault Node :=
  let conversion := c.source.convert schema
  (c.noteAll conversion.events, conversion.outcome)

/-- The notes on missing names, in order. -/
def warnings (c : Converter) : List Text := c.missing.map missingNote

end Converter

/-- A converter of a document with all definitions registered. -/
def convertDocument (document : Value) : Except Fault Converter := do
  let c ← Converter.ofDocument document
  c.registerAll

end ZodSchemas
