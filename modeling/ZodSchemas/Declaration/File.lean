import ZodSchemas.Declaration.Expression
import ZodSchemas.Converter
import ZodSchemas.Dependency.Sequence

/-!
# Generated code

Generated code is an import and one declaration for each name of an order, with
an empty line between neighbours. A name is being declared while its body is
rendered and declared afterwards; a name that comes again is skipped. Without a
given order the names are ordered by their dependencies. The declarations are
put together first and written afterwards.
-/

namespace ZodSchemas

/-- The import that generated code starts with. -/
def importLine (module : Text) : Text := ("import \x7b z \x7d from '" : Text) ++ module ++ "';"

/-- An empty line between neighbours. -/
def emptyLine : Text := "\n\n"

/-- One declaration. -/
structure Declaration where
  /-- The name of the schema. -/
  name : Key
  /-- The identifier that is declared. -/
  identifier : Text
  /-- The validator that it stands for. -/
  term : Term

/-- The code of a declaration. -/
def Declaration.text (d : Declaration) : Text :=
  ("export const " : Text) ++ d.identifier ++ " = " ++ d.term.text ++ ";"

/-- The declarations for the schemas of a document, and the module that they build on. -/
structure CodeFile where
  /-- The module that is imported. -/
  module : Text
  /-- The declarations in their order. -/
  declarations : List Declaration

/-- The code of a file. -/
def CodeFile.text (file : CodeFile) : Text :=
  importLine file.module ++ emptyLine ++
    List.intercalate emptyLine (file.declarations.map Declaration.text)

namespace Registry

/-- The declaration of one entry. -/
def declare (registry : Registry) (settings : Settings) (progress : Progress) (name : Key)
    (entry : Node) : Rendering Declaration := do
  let body ← Following.asRendering (registry.bodyOf entry)
  let context : Context := ⟨registry, settings, progress.start name⟩
  let term ← context.term body name
  let identifier ← context.identifier name
  pure ⟨name, identifier, term⟩

/-- The declarations of an order, given how far they have come and which references were resolved
on the way. -/
def declarations (registry : Registry) (settings : Settings) :
    List Key → Progress → List Ref → Rendering (List Declaration)
  | [], _, _ => pure []
  | name :: rest, progress, resolved =>
    match registry.entryAfter? resolved name with
    | none => do
      let t ← Context.written name.plain
      Traced.fail (.notRegistered t)
    | some entry =>
      if name.isAmong progress.generated then declarations registry settings rest progress resolved
      else do
        let first := registry.declare settings progress name entry
        let declaration ← first
        let progress := ((progress.start name).stop name).finish name
        let others ← declarations registry settings rest progress (resolved ++ first.events)
        pure (declaration :: others)

/-- The file that declares the names of an order. -/
def fileInOrder (registry : Registry) (settings : Settings) (resolved : List Ref)
    (order : List Key) : Rendering CodeFile := do
  let declarations ← registry.declarations settings order {} resolved
  let module ← Context.written settings.module.plain
  pure ⟨module, declarations⟩

/-- The keys in front of the first value that is none, and the fault of that value. -/
def leadingKeys : List Value → List Key × Option Fault
  | [] => ([], none)
  | v :: rest =>
    match v.toKey? with
    | none => ([], some (.noKey v.kind))
    | some key =>
      let (keys, fault) := leadingKeys rest
      (key :: keys, fault)

/-- The code that declares what a value lists. Names are declared until one is no key. -/
def codeOfListed (registry : Registry) (settings : Settings) (order : Value) : Rendering Text := do
  let names ← Following.asRendering (Traced.ofExcept order.itemsOf)
  let (keys, fault) := leadingKeys names
  let file ← registry.fileInOrder settings [] keys
  match fault with
  | some fault => Traced.fail (.fault fault)
  | none => pure file.text

/-- The file that declares every entry, dependencies first. -/
def file (registry : Registry) (settings : Settings) : Rendering CodeFile := do
  let dependencies := Following.asRendering (dependenciesOf registry)
  let map ← dependencies
  registry.fileInOrder settings dependencies.events (sequence map)

/-- The code that declares every entry, dependencies first. -/
def code (registry : Registry) (settings : Settings) : Rendering Text := do
  let file ← registry.file settings
  pure file.text

end Registry

/-- The file for a document, and the notes on missing names that arise on the way. -/
def generateFile (document : Value) (settings : Settings) :
    Except GenerationError CodeFile × List Text :=
  match convertDocument document with
  | .error fault => (.error (.fault fault), [])
  | .ok converter =>
    let (converter, outcome) := converter.run fun registry => registry.file settings
    (outcome, converter.warnings)

/-- The code for a document, and the notes on missing names that arise on the way. -/
def generate (document : Value) (settings : Settings) :
    Except GenerationError Text × List Text :=
  let (outcome, notes) := generateFile document settings
  (outcome.map CodeFile.text, notes)

end ZodSchemas
