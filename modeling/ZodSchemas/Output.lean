import ZodSchemas.Declaration.File
import ZodSchemas.Files.Host

/-!
# Output files

Generated code is written in one step or directly. In one step it goes to a new
file in the directory of the output file, is checked there, and only then takes
the place of the output file; missing directories are made first. Directly it
goes to the output file itself, whose directory must exist. Unless replacing is
asked for, an output file that exists is left alone.
-/

namespace ZodSchemas

/-- Why an output file was not written. -/
inductive WriteError where
  /-- The host does not write it. -/
  | file (fault : FileFault)
  /-- It exists and must not be replaced. -/
  | outputExists (path : FilePath)
  /-- The code does not start as generated code does. -/
  | unexpectedStart (expected : Text)

/-- The wording of an error, if it has one. -/
def WriteError.message? : WriteError → Option Text
  | .file fault => fault.message?
  | .outputExists path =>
    some (("Output file already exists: " : Text) ++ path.text ++ ". Use force mode to overwrite.")
  | .unexpectedStart expected =>
    some (("Generated code does not start with " : Text) ++ Quoted.text expected)

/-- Whether code starts with the import from a module. -/
def startsWithImport (module code : Text) : Bool := (importLine module).isPrefixOf code

/-- The octets of a text that is written. -/
def octetsOf (t : Text) : Except FileFault (List UInt8) :=
  match Utf8.encode? t with
  | some bytes => .ok bytes
  | none => .error .unencodable

namespace Host

variable {m : Type → Type} [Monad m]

/-- An operation of the host while an output file is written. -/
def forOutput {α : Type} (x : ExceptT FileFault m α) : ExceptT WriteError m α :=
  ExceptT.adapt .file x

/-- Remove a file if it is there. -/
def discard (host : Host m) (path : FilePath) : ExceptT FileFault m Unit :=
  tryCatch (host.remove path) fun _ => pure ()

/-- Fill a new file, check it if asked to, and put it in the place of the output file. -/
def fillAndMove (host : Host m) (module : Text) (temporary path : FilePath) (code : Text)
    (isChecked : Bool) : ExceptT WriteError m Unit := do
  let bytes ← forOutput (liftM (octetsOf code))
  forOutput (host.write temporary bytes)
  if isChecked && !startsWithImport module code then throw (.unexpectedStart (importLine module))
  else forOutput (host.move temporary path)

/-- Write an output file in one step. -/
def writeInOneStep (host : Host m) (module : Text) (path : FilePath) (code : Text)
    (isChecked : Bool) : ExceptT WriteError m Unit := do
  forOutput (host.ensureDirectories path.parent)
  let temporary ← forOutput (host.makeTemporary path.parent path.name)
  tryCatch (host.fillAndMove module temporary path code isChecked) fun e => do
    forOutput (host.discard temporary)
    throw e

/-- An error if the output file exists. -/
def refuseExisting (host : Host m) (path : FilePath) : ExceptT WriteError m Unit := do
  if ← forOutput (host.exists? path) then throw (.outputExists path) else pure ()

/-- Write an output file in one step unless it exists. -/
def writeNew (host : Host m) (module : Text) (path : FilePath) (code : Text) (isChecked : Bool) :
    ExceptT WriteError m Unit := do
  host.refuseExisting path
  host.writeInOneStep module path code isChecked

/-- Write an output file directly: it is emptied first. -/
def writeDirectly (host : Host m) (path : FilePath) (code : Text) : ExceptT WriteError m Unit := do
  forOutput (host.write path [])
  let bytes ← forOutput (liftM (octetsOf code))
  forOutput (host.write path bytes)

/-- Write code as settings say. -/
def writeOutput (host : Host m) (module : Text) (output : OutputSettings) (path : FilePath)
    (code : Text) : ExceptT WriteError m Unit :=
  let isChecked := output.checkFirst.isTruthy
  match output.atomic.isTruthy, output.mode with
  | true, .errorIfExists => host.writeNew module path code isChecked
  | true, _ => host.writeInOneStep module path code isChecked
  | false, .errorIfExists => do
    host.refuseExisting path
    host.writeDirectly path code
  | false, _ => host.writeDirectly path code

end Host

/-- Why code was not generated into a file. -/
inductive OutputError where
  /-- It was not generated. -/
  | generation (error : GenerationError)
  /-- It was not written. -/
  | writing (error : WriteError)

/-- The wording of an error, if it has one. -/
def OutputError.message? : OutputError → Option Text
  | .generation e => e.message?
  | .writing e => e.message?

/-- Generate the code for a document into a file; the notes on missing names come with it. -/
def Host.generateToFile {m : Type → Type} [Monad m] (host : Host m) (document : Value)
    (settings : Settings) (path : FilePath) : m (Except OutputError Unit × List Text) := do
  match generate document settings with
  | (.error e, notes) => pure (.error (.generation e), notes)
  | (.ok code, notes) =>
    match settings.outputSettings, settings.module.plain with
    | .error fault, _ | _, .error fault => pure (.error (.generation (.fault fault)), notes)
    | .ok output, .ok module =>
      let result ← host.writeOutput module output path code
      pure (result.mapError .writing, notes)

end ZodSchemas
