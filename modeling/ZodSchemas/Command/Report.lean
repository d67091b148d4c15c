import ZodSchemas.Command.Line
import ZodSchemas.Command.Printed
import ZodSchemas.Loading
import ZodSchemas.Output

/-!
# Runs of the command

The command loads the document of its source, generates the code and prints it
or writes it to the output file. The paths of its options are made absolute and
looked up first, then the settings file is read, then the options change the
settings. Nothing is printed before the end: a report holds what a run did
beside its outcome. An error with a wording is a complaint of the command; one
without is a breakdown, of which only the sort is known. How words and documents
in YAML are read is left open.
-/

namespace ZodSchemas

/-- Why no settings were read from a file. -/
inductive SettingsFileError where
  /-- The file has no text. -/
  | file (fault : FileFault)
  /-- The text is no JSON. -/
  | json (error : Json.ReadError)
  /-- The value gives no settings. -/
  | settings (error : SettingsError)

/-- The wording of an error, if it has one. -/
def SettingsFileError.message? : SettingsFileError → Option Text
  | .file (.undecodable e) => some e.message
  | .file fault => fault.message?
  | .json e => some e.message
  | .settings (.unknownMode name) => some (unknownModeMessage name)
  | .settings (.fault _) => none

/-- Why a run of the command failed. -/
inductive CommandError where
  /-- The command line is refused. -/
  | usage (error : UsageError)
  /-- No file can have the path of an option. -/
  | impossiblePath (fault : FileFault)
  /-- The settings file gives no settings. -/
  | settingsFile (path : FilePath) (error : SettingsFileError)
  /-- An option cannot change the settings. -/
  | fixedSettings (fault : Fault)
  /-- The document was not loaded. -/
  | loading (error : LoadError)
  /-- The code was not generated or not written. -/
  | output (error : OutputError)
  /-- The code cannot be printed. -/
  | unprintable

namespace CommandError

/-- The wording of a complaint; a breakdown has none. -/
def message? : CommandError → Option Text
  | .usage e => some e.message
  | .settingsFile path e =>
    e.message?.map fun message =>
      ("Invalid config file " : Text) ++ path.text ++ ": " ++ message
  | .loading e => e.message?
  | .output e => e.message?
  | .impossiblePath _ | .fixedSettings _ | .unprintable => none

/-- The status that a failed run ends with. -/
def status : CommandError → Nat
  | .usage _ => 2
  | _ => 1

end CommandError

/-- What a run does beside its outcome. -/
structure Journal where
  /-- The requests that it makes. -/
  requests : List Request := []
  /-- The names that the document lacks, in the words of the warning. -/
  warnings : List Text := []

/-- What a run of the command did. -/
structure Report where
  /-- What it printed, or why it failed. -/
  outcome : Except CommandError Text
  /-- What it did on the way. -/
  journal : Journal

namespace Report

/-- The printed text. -/
def output (report : Report) : Text := Printed.plain (report.outcome.toOption.getD [])

/-- One warning. -/
def warningLine (warning : Text) : Text := ("WARNING: " : Text) ++ warning ++ "\n"

/-- One complaint. -/
def errorLine (message : Text) : Text := ("Error: " : Text) ++ message ++ "\n"

/-- How the command is used. -/
def usageLine : Text := "Usage: openapi_to_zod [OPTIONS] SOURCE\n"

/-- What stands in front of a complaint about the command line. -/
def usageLines : Text := usageLine ++ "Try \'openapi_to_zod --help\' for help.\n\n"

/-- The complaint about an error, if it has a wording. -/
def complaint (e : CommandError) : Text :=
  match e, e.message? with
  | _, none => []
  | .usage _, some message => usageLines ++ errorLine message
  | _, some message => errorLine message

/-- The warnings, and the complaint at the end. -/
def complaints (report : Report) : Text :=
  let complaint := match report.outcome with
    | .ok _ => []
    | .error e => complaint e
  Printed.escaped (report.journal.warnings.flatMap warningLine ++ Printed.plain complaint)

/-- The status at the end. -/
def status (report : Report) : Nat :=
  match report.outcome with
  | .ok _ => 0
  | .error e => e.status

/-- The breakdown of the run, if it broke down. -/
def breakdown? (report : Report) : Option CommandError :=
  match report.outcome with
  | .ok _ => none
  | .error e => if e.message?.isNone then some e else none

end Report

/-- What a command line asks for, with the paths looked up. -/
structure Invocation where
  /-- The source of the document. -/
  source : Text
  /-- The output file. -/
  output : Option FilePath := none
  /-- The settings file. -/
  config : Option FilePath := none
  /-- What stands in front of every identifier. -/
  namePrefix : Option Text := none
  /-- Whether the output file is replaced. -/
  isForced : Bool := false

/-- Help on the command. -/
def helpText : Text :=
  Report.usageLine ++
    "\n  Generate Zod schemas from the components of the OpenAPI document SOURCE\n" ++
    "  (path or URL).\n\n" ++
    "Options:\n" ++
    "  -o, --output FILE\n" ++
    "  -c, --config PATH\n" ++
    "  -p, --prefix TEXT  Prefix prepended to every generated identifier\n" ++
    "  -f, --force        Overwrite the output file if it already exists\n" ++
    "  --help             Show this message and exit.\n"

/-- How what a run is given is read. -/
structure Readers where
  /-- The words of a command line. -/
  line : List Text → Except UsageError CommandLine
  /-- Texts in YAML. -/
  yaml : YamlReader

/-- The readers of this library. -/
def Readers.standard : Readers := ⟨CommandLine.read, Yaml.read⟩

/-- Steps of a run. -/
abbrev Running (m : Type → Type) (α : Type) := ExceptT CommandError (StateT Journal m) α

namespace Running

variable {m : Type → Type} [Monad m]

/-- A step that the host takes. -/
def perform {α : Type} (x : m α) : Running m α := ExceptT.lift (StateT.lift x)

/-- Go on with a value; an error ends the run. -/
def require {ε α : Type} (f : ε → CommandError) : Except ε α → Running m α
  | .ok a => pure a
  | .error e => throw (f e)

/-- Note requests. -/
def noteRequests (requests : List Request) : Running m Unit :=
  modify fun journal => { journal with requests := journal.requests ++ requests }

/-- Note warnings. -/
def noteWarnings (warnings : List Text) : Running m Unit :=
  modify fun journal => { journal with warnings := journal.warnings ++ warnings }

end Running

namespace Host

open Running

variable {m : Type → Type} [Monad m]

/-- The absolute path that a value of an option spells, and what stands there. -/
def lookUp (host : Host m) (value : Text) : Running m (FilePath × Option FileKind) := do
  let path := FilePath.ofText value
  -- the way is followed part by part, so the first part that no file can have counts
  match path.parts.findSome? fun part => FilePath.fault? ⟨[], [part]⟩ with
  | some fault => throw (.impossiblePath fault)
  | none =>
    let path := path.absolute (← perform host.workingDirectory)
    let kind ← perform (host.kind path).run
    pure (path, kind.toOption)

/-- Let one option say its part. -/
def invoke (host : Host m) (invocation : Invocation) (given : Given) : Running m Invocation :=
  match given with
  | (.output, value) => do
    match ← host.lookUp value with
    | (_, some .directory) => throw (.usage (.outputIsDirectory value))
    | (path, _) => pure { invocation with output := some path }
  | (.config, value) => do
    match ← host.lookUp value with
    | (_, none) => throw (.usage (.noSettingsFile value))
    | (path, some _) => pure { invocation with config := some path }
  | (.namePrefix, value) => pure { invocation with namePrefix := some value }
  | (.force, _) => pure { invocation with isForced := true }
  | (.help, _) => pure invocation

/-- What a command line asks for: the options in order, and then the source. -/
def invocation (host : Host m) (line : CommandLine) : Running m Invocation := do
  let asked ← line.settled.foldlM host.invoke { source := [] }
  let source ← require .usage line.source
  pure { asked with source := source }

/-- The settings in a file. -/
def readSettings (host : Host m) (path : FilePath) : Running m Settings := do
  let refuse := CommandError.settingsFile path
  let t ← require (refuse ∘ .file) (← perform (host.readText path).run)
  let v ← require (refuse ∘ .json) (Json.read t)
  require (refuse ∘ .settings) (Settings.ofValue v)

/-- The settings of an invocation: those of the file, as far as options do not change them. -/
def settingsFor (host : Host m) (invocation : Invocation) : Running m Settings := do
  let settings ← match invocation.config with
    | some path => host.readSettings path
    | none => pure {}
  let settings := match invocation.namePrefix with
    | some text => settings.withPrefix (.text text)
    | none => settings
  if invocation.isForced then require .fixedSettings settings.forced else pure settings

/-- The document of an invocation. -/
def documentFor (host : Host m) (yaml : YamlReader) (invocation : Invocation) :
    Running m Value := do
  let loaded ← perform (host.load yaml invocation.source Loading.standardTimeout)
  noteRequests loaded.events
  .map <$> require .loading loaded.outcome

/-- Print the code for a document. -/
def printCode (document : Value) (settings : Settings) : Running m Text := do
  let (code, warnings) := generate document settings
  noteWarnings warnings
  let code ← require (.output ∘ .generation) code
  if code.isEncodable then pure (code ++ "\n") else throw .unprintable

/-- Write the code for a document to a file, and say so. -/
def saveCode (host : Host m) (document : Value) (settings : Settings) (path : FilePath) :
    Running m Text := do
  let (outcome, warnings) ← perform (host.generateToFile document settings path)
  noteWarnings warnings
  require .output outcome
  pure (("Zod schema generated and saved to " : Text) ++ path.text ++ "\n")

/-- The steps of a run. -/
def steps (host : Host m) (readers : Readers) (words : List Text) : Running m Text := do
  let line ← require .usage (readers.line words)
  if line.has .help then pure helpText
  else
    let invocation ← host.invocation line
    let settings ← host.settingsFor invocation
    let document ← host.documentFor readers.yaml invocation
    match invocation.output with
    | none => printCode document settings
    | some path => host.saveCode document settings path

/-- Run the command. -/
def run (host : Host m) (readers : Readers) (words : List Text) : m Report := do
  let (outcome, journal) ← (host.steps readers words).run.run {}
  pure ⟨outcome, journal⟩

end Host

end ZodSchemas
