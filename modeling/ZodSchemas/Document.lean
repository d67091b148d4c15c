import ZodSchemas.Json.Reader
import ZodSchemas.Value.Display
import ZodSchemas.Yaml.Content

/-!
# Documents

A document is written in one of two formats, and the suffix of its name says in
which. A suffix is compared as it is, so it has to be in lower case.
-/

namespace ZodSchemas

/-- A format of documents. -/
inductive Format where
  /-- YAML. -/
  | yaml
  /-- JSON. -/
  | json
deriving DecidableEq

/-- The format that a suffix stands for. -/
def Format.ofSuffix? (suffix : Text) : Option Format :=
  if suffix = (".yaml" : Text) ∨ suffix = (".yml" : Text) then some .yaml
  else if suffix = (".json" : Text) then some .json
  else none

/-- Why a text is no document. -/
inductive DocumentError where
  /-- The suffix stands for no format. -/
  | unsupportedFormat
  /-- The text is no JSON. -/
  | json (error : Json.ReadError)
  /-- The text is no YAML. -/
  | yaml (error : Yaml.ReadError)
deriving DecidableEq

namespace DocumentError

/-- The wording of an error. Only faults of a format have one: a value that is written well and
cannot exist is reported by its sort alone. -/
def message? : DocumentError → Option Text
  | .unsupportedFormat => some "Unsupported file format. Please provide a YAML or JSON file."
  | .json (.malformed problem line column offset) =>
    some (("Failed to parse document: " : Text) ++
      (Json.ReadError.malformed problem line column offset).message)
  | .json (.tooManyDigits _) => none
  | .yaml .malformed => some "Failed to parse document"
  | .yaml _ => none

end DocumentError

/-- A way of reading YAML. -/
abbrev YamlReader := Text → Except Yaml.ReadError Value

namespace Document

/-- The value of a text in some format, with a way of reading YAML. -/
def readUsing (yaml : YamlReader) (format : Format) (t : Text) : Except DocumentError Value :=
  match format with
  | .yaml => (yaml t).mapError .yaml
  | .json => (Json.read t).mapError .json

/-- The value of a text whose name has some suffix. -/
def parse (t suffix : Text) : Except DocumentError Value :=
  match Format.ofSuffix? suffix with
  | some format => readUsing Yaml.read format t
  | none => .error .unsupportedFormat

end Document

end ZodSchemas
