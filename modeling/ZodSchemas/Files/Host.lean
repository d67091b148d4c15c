import ZodSchemas.Files.Path
import ZodSchemas.Text.Lines
import ZodSchemas.Web.Request

/-!
# Hosts

A host is where files are kept and documents are fetched from. It offers a few
operations, each of which succeeds or fails as a whole; everything else, such
as making a directory together with the missing ones above it, is composed of
them. What an operation changed before a failure stays changed.
-/

namespace ZodSchemas

/-- What is wrong with a path. -/
inductive FileProblem where
  /-- Nothing is there, or not even the directory. -/
  | notFound
  /-- A directory that is used as it stands cannot be replaced. -/
  | busy
  /-- Something is there already. -/
  | exists
  /-- A file stands where a directory is needed. -/
  | notDirectory
  /-- A directory stands where a file is needed. -/
  | isDirectory
  /-- A name or the whole path is too long. -/
  | nameTooLong
  /-- Anything else, by its number and in the words of the host. -/
  | other (number : Nat) (wording : Text)
deriving DecidableEq

namespace FileProblem

/-- The number of a problem. -/
def number : FileProblem → Nat
  | .notFound => 2
  | .busy => 16
  | .exists => 17
  | .notDirectory => 20
  | .isDirectory => 21
  | .nameTooLong => 36
  | .other number _ => number

/-- The wording of a problem. -/
def message : FileProblem → Text
  | .notFound => "No such file or directory"
  | .busy => "Device or resource busy"
  | .exists => "File exists"
  | .notDirectory => "Not a directory"
  | .isDirectory => "Is a directory"
  | .nameTooLong => "File name too long"
  | .other _ wording => wording

/-- The problem of a number. -/
def ofNumber (number : Nat) (wording : Text) : FileProblem :=
  match number with
  | 2 => .notFound
  | 16 => .busy
  | 17 => .exists
  | 20 => .notDirectory
  | 21 => .isDirectory
  | 36 => .nameTooLong
  | _ => .other number wording

end FileProblem

/-- Why a file was not read or written. -/
inductive FileFault where
  /-- The host refuses the path. -/
  | refused (problem : FileProblem) (path : FilePath)
  /-- No file can have the path. -/
  | nullInPath
  /-- The octets of a file are no text. -/
  | undecodable (error : Utf8.DecodeError)
  /-- A text or a path has no octets. -/
  | unencodable
deriving DecidableEq

/-- The wording of a refusal of the host. -/
def FileFault.message? : FileFault → Option Text
  | .refused problem path =>
    some (("[Errno " : Text) ++ Numeral.decimal problem.number ++ "] " ++ problem.message ++ ": " ++
      Quoted.text path.text)
  | _ => none

/-- Why no file can have a path: it has to have octets first, and then no null control. -/
def FilePath.fault? (path : FilePath) : Option FileFault :=
  if path.hasSurrogate then some .unencodable
  else if path.hasNull then some .nullInPath
  else none

/-- A path that a file can have. -/
theorem FilePath.fault?_eq_none {path : FilePath} :
    path.fault? = none ↔ path.hasSurrogate = false ∧ path.hasNull = false := by
  rw [fault?]
  cases path.hasSurrogate <;> cases path.hasNull <;> simp

/-- What stands at a path. -/
inductive FileKind where
  /-- A file. -/
  | file
  /-- A directory. -/
  | directory
deriving DecidableEq

/-- The operations of a host. -/
structure Host (m : Type → Type) where
  /-- The directory that relative paths start from. -/
  workingDirectory : m FilePath
  /-- What stands at a path; the path must lead to something. -/
  kind : FilePath → ExceptT FileFault m FileKind
  /-- The octets of a file. -/
  read : FilePath → ExceptT FileFault m (List UInt8)
  /-- Write a file, new or instead of the one that is there. -/
  write : FilePath → List UInt8 → ExceptT FileFault m Unit
  /-- Make a directory in one that exists. -/
  makeDirectory : FilePath → ExceptT FileFault m Unit
  /-- Make an empty file in a directory, under a new name around some name. -/
  makeTemporary : FilePath → Text → ExceptT FileFault m FilePath
  /-- Move a file to another path, in place of the file there. -/
  move : FilePath → FilePath → ExceptT FileFault m Unit
  /-- Remove a file. -/
  remove : FilePath → ExceptT FileFault m Unit
  /-- Request a document. -/
  fetch : Request → m (Except FetchError Text)

namespace Host

variable {m : Type → Type} [Monad m]

/-- What stands at a path, if anything; a path that is too long is still an error. -/
def kind? (host : Host m) (path : FilePath) : ExceptT FileFault m (Option FileKind) :=
  tryCatch (some <$> host.kind path) fun
    | .refused .notFound _ => pure none
    | .refused .notDirectory _ => pure none
    | .nullInPath => pure none
    | .unencodable => pure none
    | e => throw e

/-- Whether something stands at a path. -/
def exists? (host : Host m) (path : FilePath) : ExceptT FileFault m Bool :=
  Option.isSome <$> host.kind? path

/-- An error, unless a directory stands at the path. -/
def unlessDirectory (host : Host m) (path : FilePath) (e : FileFault) :
    ExceptT FileFault m Unit := do
  if (← host.kind? path) = some .directory then pure () else throw e

/-- Make a directory in one that exists, unless it is there. -/
def ensureDirectory (host : Host m) (path : FilePath) : ExceptT FileFault m Unit :=
  tryCatch (host.makeDirectory path) fun
    | .refused .notFound p => throw (.refused .notFound p)
    | .nullInPath => throw .nullInPath
    | .unencodable => throw .unencodable
    | e => host.unlessDirectory path e

/-- Make a directory and at most `fuel` missing ones above it. -/
def ensureWithin (host : Host m) : Nat → FilePath → ExceptT FileFault m Unit
  | 0, path => host.ensureDirectory path
  | fuel + 1, path =>
    tryCatch (host.ensureDirectory path) fun
      | .refused .notFound p =>
        if path.parts.isEmpty then throw (.refused .notFound p)
        else do
          host.ensureWithin fuel path.parent
          host.ensureDirectory path
      | e => throw e

/-- Make a directory and the missing ones above it. -/
def ensureDirectories (host : Host m) (path : FilePath) : ExceptT FileFault m Unit :=
  host.ensureWithin path.parts.length path

/-- The text of a file, with line feeds at the ends of lines. -/
def readText (host : Host m) (path : FilePath) : ExceptT FileFault m Text := do
  let bytes ← host.read path
  match Utf8.decode bytes with
  | .ok t => pure (Lines.normalize t)
  | .error e => throw (.undecodable e)

end Host

end ZodSchemas
