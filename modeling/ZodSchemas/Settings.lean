import ZodSchemas.Value.Display
import ZodSchemas.Value.Fault

/-!
# Settings

Settings come from a mapping; keys that name no setting are ignored, and
settings keep whatever value they are given. Beside the three settings the
mapping can replace an operation by a value, after which the operation cannot
be used. Three reserved keys cannot be replaced by any value or by values of
some sorts only, and one of them replaces everything at once.
-/

namespace ZodSchemas

/-- What happens to an output file that exists. -/
inductive OutputMode where
  /-- It is an error. -/
  | errorIfExists
  /-- It is replaced. -/
  | force
  /-- A value that is no mode; the file is replaced. -/
  | unnamed (value : Value)

namespace OutputMode

/-- The name of a mode. -/
def name? : OutputMode → Option Text
  | .errorIfExists => some "error"
  | .force => some "force"
  | .unnamed _ => none

/-- The mode of a name. -/
def ofName? (name : Text) : Option OutputMode :=
  if name = ("error" : Text) then some .errorIfExists
  else if name = ("force" : Text) then some .force
  else none

end OutputMode

/-- How output files are written. -/
structure OutputSettings where
  /-- What happens to an output file that exists. -/
  mode : OutputMode := .errorIfExists
  /-- Whether the code is checked before it is written; any value that counts as true says so. -/
  checkFirst : Value := .bool true
  /-- Whether the file is replaced in one step; any value that counts as true says so. -/
  atomic : Value := .bool true

/-- What stands where the output settings belong. -/
inductive OutputEntry where
  /-- Output settings. -/
  | settings (output : OutputSettings)
  /-- Some other value, which has no settings. -/
  | other (value : Value)
  /-- Nothing. -/
  | none

/-- The operations of settings that a mapping can replace. -/
inductive Operation where
  /-- Naming the declaration of a schema. -/
  | identifier
  /-- Writing the settings as a mapping. -/
  | toEntries
  /-- Reading settings from a mapping. -/
  | ofEntries
deriving DecidableEq

/-- Settings of code generation. -/
structure Settings where
  /-- What stands in front of every generated identifier. -/
  namePrefix : Value := .text []
  /-- The module that the generated code imports from. -/
  module : Value := .text "zod"
  /-- How output files are written. -/
  output : OutputEntry := .settings {}
  /-- The operations that were replaced by a value. -/
  replaced : List Operation := []

/-- Why settings were not read. -/
inductive SettingsError where
  /-- A value of the wrong sort. -/
  | fault (fault : Fault)
  /-- A text that names no output mode. -/
  | unknownMode (name : Text)
deriving DecidableEq

/-- The wording of an unknown output mode. -/
def unknownModeMessage (name : Text) : Text := Quoted.text name ++ " is not a valid OutputMode"

namespace Settings

/-- Output settings from a mapping; a mode that is a text must name one. -/
def outputOf (entries : Entries Value) : Except SettingsError OutputSettings := do
  let mode ← match Entries.find? "mode" entries with
    | none => Except.ok OutputMode.errorIfExists
    | some (.text name) =>
      match OutputMode.ofName? name with
      | some mode => Except.ok mode
      | none => Except.error (.unknownMode name)
    | some v => Except.ok (OutputMode.unnamed v)
  .ok {
    mode := mode
    checkFirst := (Entries.find? "validate_before_write" entries).getD (.bool true)
    atomic := (Entries.find? "atomic_write" entries).getD (.bool true) }

/-- The keys that replace an operation. -/
def operations : List (Text × Operation) :=
  [("schema_identifier", .identifier), ("to_dict", .toEntries), ("from_dict", .ofEntries)]

/-- Replace the operation that a key names, if it names one. -/
def replaceOperation (s : Settings) (key : Text) : Settings :=
  match operations.lookup key with
  | some operation => { s with replaced := operation :: s.replaced }
  | none => s

/-- Settings that consist of the entries of a mapping and nothing else. -/
def ofAll (entries : Entries Value) : Settings :=
  let s : Settings := {
    namePrefix := (Entries.find? "prefix" entries).getD (.text [])
    module := (Entries.find? "zod_module" entries).getD (.text "zod")
    output := match Entries.find? "output" entries with
      | some v => .other v
      | none => .none }
  entries.foldl (fun s e =>
    match e.1 with
    | .text key => s.replaceOperation key
    | _ => s) s

/-- Write one entry of a mapping into settings. -/
def set (s : Settings) (key : Text) (v : Value) : Except SettingsError Settings :=
  if key = ("prefix" : Text) then .ok { s with namePrefix := v }
  else if key = ("zod_module" : Text) then .ok { s with module := v }
  else if key = ("output" : Text) then
    match v.entries? with
    | some entries => do
      let output ← outputOf entries
      .ok { s with output := .settings output }
    | none =>
      match s.output with
      | .none => .ok s
      | _ => .ok { s with output := .other v }
  else if key = ("__class__" : Text) then .error (.fault (.settingSort v.kind))
  else if key = ("__weakref__" : Text) then .error (.fault .fixedSetting)
  else if key = ("__dict__" : Text) then
    match v.entries? with
    | some entries => .ok (ofAll entries)
    | none => .error (.fault (.settingSort v.kind))
  else .ok (s.replaceOperation key)

/-- Read settings from a mapping, entry by entry. -/
def ofValue (v : Value) : Except SettingsError Settings :=
  match v.entries? with
  | some entries => entries.foldlM (fun s e =>
    match e.1 with
    | .text key => set s key e.2
    | key => .error (.fault (.noPropertyName (Value.ofKey key).kind))) {}
  | none => .error (.fault (.noEntries v.kind))

/-- The identifier of the declaration of a schema with some name. -/
def identifier (s : Settings) (name : Value) : Except Fault Text :=
  if Operation.identifier ∈ s.replaced then .error .noOperation
  else do
    let front ← s.namePrefix.plain
    let own ← name.plain
    .ok (front ++ own ++ "Schema")

/-- The output settings. -/
def outputSettings (s : Settings) : Except Fault OutputSettings :=
  match s.output with
  | .settings output => .ok output
  | _ => .error .noOutputSettings

/-- The mapping that reads back as the settings. -/
def toValue (s : Settings) : Except Fault Value := do
  if Operation.toEntries ∈ s.replaced then .error .noOperation
  else
    let output ← s.outputSettings
    match output.mode.name? with
    | none => .error .noModeName
    | some mode =>
      .ok (.map [("prefix", s.namePrefix), ("zod_module", s.module),
        ("output", .map [("mode", .text mode), ("validate_before_write", output.checkFirst),
          ("atomic_write", output.atomic)])])

/-- Equal modes. -/
def sameMode : OutputMode → OutputMode → Bool
  | .errorIfExists, .errorIfExists => true
  | .force, .force => true
  | .unnamed a, .unnamed b => a.same b
  | .unnamed (.text name), mode => mode.name? = some name
  | mode, .unnamed (.text name) => mode.name? = some name
  | _, _ => false

/-- Equal output entries. -/
def sameOutput : OutputEntry → OutputEntry → Bool
  | .settings a, .settings b =>
    sameMode a.mode b.mode && a.checkFirst.same b.checkFirst && a.atomic.same b.atomic
  | .other a, .other b => a.same b
  | .none, .none => true
  | _, _ => false

/-- Equal settings, whatever was replaced. -/
def same (a b : Settings) : Bool :=
  a.namePrefix.same b.namePrefix && a.module.same b.module && sameOutput a.output b.output

/-- The settings with another name prefix. -/
def withPrefix (s : Settings) (v : Value) : Settings := { s with namePrefix := v }

/-- The settings with a mode that replaces files. -/
def forced (s : Settings) : Except Fault Settings := do
  let output ← s.outputSettings
  .ok { s with output := .settings { output with mode := .force } }

end Settings

end ZodSchemas
