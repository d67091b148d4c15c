import ZodSchemas.Command.Report
import ZodSchemas.Files.Tree
import ZodSchemas.Web.Reply

/-!
# The command

The command runs on this machine: it reads and writes the files of the machine,
but has no network. All that it decides is decided by the report of its run.
-/

namespace ZodSchemas.Machine

/-- The characters of a text. -/
def string (t : Text) : String := String.ofList t.chars

/-- The number of a code, which some operations write as a negative word. -/
def numberOfCode (code : UInt32) : Nat := min code.toNat (0x100000000 - code.toNat)

/-- The number of an error of the machine. -/
def numberOf : IO.Error → Nat
  | .alreadyExists _ code _ | .otherError code _ | .resourceBusy code _
  | .resourceVanished code _ | .unsupportedOperation code _ | .hardwareFault code _
  | .unsatisfiedConstraints code _ | .illegalOperation code _ | .protocolError code _
  | .timeExpired code _ | .interrupted _ code _ | .noFileOrDirectory _ code _
  | .invalidArgument _ code _ | .permissionDenied _ code _ | .resourceExhausted _ code _
  | .inappropriateType _ code _ | .noSuchThing _ code _ => numberOfCode code
  | .unexpectedEof | .userError _ => 0

/-- What an operation of the machine says about a path. -/
def attempt {α : Type} (path : FilePath) (x : String → IO α) : ExceptT FileFault IO α := do
  match path.fault? with
  | some fault => throw fault
  | none =>
    match ← (x (string path.text)).toBaseIO with
    | .ok a => pure a
    | .error e =>
      throw (.refused (.ofNumber (numberOf e) (Text.ofString (toString e))) path)

/-- What stands at a path: the octets of a directory cannot be read. -/
def kind (path : FilePath) : ExceptT FileFault IO FileKind :=
  tryCatch
    (attempt path fun name => do
      let handle ← IO.FS.Handle.mk name .read
      let _ ← handle.read 1
      pure .file)
    fun
      | .refused .isDirectory _ => pure .directory
      | e => throw e

/-- A new empty file; the number in its name is random. -/
def makeTemporary (directory : FilePath) (name : Text) : ExceptT FileFault IO FilePath := do
  let n ← IO.rand 0 99999999
  let path := directory.child (FileTree.temporaryName name n)
  attempt path fun name => do
    let _ ← IO.FS.Handle.mk name .writeNew
    pure path

/-- This machine. -/
def host : Host IO where
  workingDirectory := do pure (.ofText (toString (← IO.currentDir)))
  kind := kind
  read := fun path => attempt path fun name => do pure (← IO.FS.readBinFile name).toList
  write := fun path bytes => attempt path fun name => IO.FS.writeBinFile name ⟨bytes.toArray⟩
  makeDirectory := fun path => attempt path fun name => IO.FS.createDir name
  makeTemporary := makeTemporary
  move := fun source target => attempt target fun name => IO.FS.rename (string source.text) name
  remove := fun path => attempt path fun name => IO.FS.removeFile name
  fetch := fun request => pure (Client.offline request)

/-- Run the command, print its report and return its status. -/
def runCommand (words : List String) : IO UInt32 := do
  let report ← host.run .standard (words.map Text.ofString)
  IO.print (string report.output)
  IO.eprint (string report.complaints)
  if report.breakdown?.isSome then IO.eprintln "Error: The run broke down."
  pure (.ofNat report.status)

end ZodSchemas.Machine

/-- The command. -/
def main (words : List String) : IO UInt32 := ZodSchemas.Machine.runCommand words
