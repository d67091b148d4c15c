import ZodSchemas.Document
import ZodSchemas.Files.Host
import ZodSchemas.Text.LowerCase
import ZodSchemas.Traced
import ZodSchemas.Web.Address

/-!
# Loading documents

A source is the address of a document on the web or the path of a file. Its
suffix decides the format, and without a format nothing is read. How requests
are answered and how YAML is read is left open. A document that can be generated
from is a mapping at its top.
-/

namespace ZodSchemas

/-- Why a document was not loaded. -/
inductive LoadError where
  /-- The address of a document is malformed. -/
  | malformedAddress
  /-- The text is no document. -/
  | document (error : DocumentError)
  /-- The host refuses to read the source. -/
  | unreadable (source : Text) (problem : FileProblem) (path : FilePath)
  /-- The source has no text. -/
  | noText (fault : FileFault)
  /-- The request went wrong without words. -/
  | brokenRequest (error : FetchError)
  /-- The request brought no document. -/
  | unfetched (address reason : Text)
  /-- The document is no mapping. -/
  | noMapping (source : Text) (kind : Kind)

namespace LoadError

/-- The name that a sort of value has at the top of a document. -/
def topName (kind : Kind) : Text := if kind = .null then "NoneType" else kind.name

/-- The wording of an error, if it has one. -/
def message? : LoadError → Option Text
  | .malformedAddress => none
  | .document e => e.message?
  | .unreadable source problem path =>
    (FileFault.refused problem path).message?.map fun message =>
      ("Failed to read " : Text) ++ source ++ ": " ++ message
  | .noText _ => none
  | .brokenRequest _ => none
  | .unfetched address reason =>
    some (("Failed to fetch " : Text) ++ address ++ ": " ++ reason)
  | .noMapping source kind =>
    some (("Expected a mapping at the top level of " : Text) ++ source ++ ", got " ++ topName kind)

end LoadError

/-- Loading, and the requests that it makes. -/
abbrev Loading (α : Type) := Traced Request LoadError α

namespace Loading

/-- The suffix of a source in lower case; a malformed address has none. -/
def suffix? (source : Text) : Option Text :=
  let path := if Address.isAddress source then Address.path? source else some source
  path.map fun path => LowerCase.text (FilePath.ofText path).suffix

/-- The format of a source. -/
def format (source : Text) : Except LoadError Format :=
  match suffix? source with
  | none => .error .malformedAddress
  | some suffix =>
    match Format.ofSuffix? suffix with
    | some format => .ok format
    | none => .error (.document .unsupportedFormat)

/-- The entries of a document. -/
def entries (source : Text) (document : Value) : Except LoadError (Entries Value) :=
  match document.entries? with
  | some entries => .ok entries
  | none => .error (.noMapping source document.kind)

/-- The entries of the document that a text is. -/
def read (yaml : YamlReader) (source : Text) (format : Format) (t : Text) :
    Except LoadError (Entries Value) := do
  let document ← (Document.readUsing yaml format t).mapError .document
  entries source document

/-- The error of an address whose request brought no document. -/
def ofFetchError (address : Text) : FetchError → LoadError
  | .failed reason => .unfetched address reason
  | e => .brokenRequest e

/-- The error of a source that the host could not read. -/
def ofFault (source : Text) : FileFault → LoadError
  | .refused problem path => .unreadable source problem path
  | fault => .noText fault

/-- Seconds to wait for a reply when nothing else is said. -/
def standardTimeout : Value := .float (.ofDecimal false 30 0)

end Loading

/-- Load the document of a source. -/
def Host.load {m : Type → Type} [Monad m] (host : Host m) (yaml : YamlReader) (source : Text)
    (timeout : Value) : m (Loading (Entries Value)) := do
  match Loading.format source with
  | .error e => pure (Traced.fail e)
  | .ok format =>
    if Address.isAddress source then
      let request : Request := ⟨source, timeout, true⟩
      let answer ← host.fetch request
      pure do
        Traced.emit request
        let t ← (answer.mapError (Loading.ofFetchError source) : Except LoadError Text)
        Loading.read yaml source format t
    else
      match ← host.readText (.ofText source) with
      | .error fault => pure (Traced.fail (Loading.ofFault source fault))
      | .ok t => pure (Traced.ofExcept (Loading.read yaml source format t))

end ZodSchemas
