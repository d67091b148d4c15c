import ZodSchemas.Loading
import ZodSchemas.Proofs.Files.Operations

/-!
# Texts that are read

What reading a file gives is decided by what its path leads to, and what a
source brings by that or by the answer of a client. Loading reads a document
from the text that the source brings. None of this changes the tree.
-/

namespace ZodSchemas

namespace FileTree

/-- The text of the file that a path leads to, with line feeds at the ends of lines. -/
def textAt (tree : FileTree) (path : FilePath) : Except FileFault Text :=
  match tree.locate path with
  | .error fault => .error fault
  | .ok (_, some (.file bytes)) =>
    match Utf8.decode bytes with
    | .ok t => .ok (Lines.normalize t)
    | .error e => .error (.undecodable e)
  | .ok (_, some .directory) => .error (.refused .isDirectory path)
  | .ok (_, none) => .error (.refused .notFound path)

/-- The text that a source brings: that of a file, or that of a reply. -/
def sourceText (tree : FileTree) (client : Client) (source : Text) (timeout : Value) :
    Except LoadError Text :=
  if Address.isAddress source then
    (client ⟨source, timeout, true⟩).mapError (Loading.ofFetchError source)
  else (tree.textAt (.ofText source)).mapError (Loading.ofFault source)

/-- What loading comes to: a format is chosen, and the text of the source is taken and read. -/
def loaded (tree : FileTree) (client : Client) (yaml : YamlReader) (source : Text)
    (timeout : Value) : Except LoadError (Entries Value) := do
  let format ← Loading.format source
  let t ← tree.sourceText client source timeout
  Loading.read yaml source format t

variable (client : Client) (tree : FileTree)

theorem effectOf_readText (path : FilePath) :
    effectOf ((host client).readText path) tree = (tree.textAt path, tree) := by
  have hread : (host client).read = FileTree.read := rfl
  rw [Host.readText, effectOf_bind, hread, effectOf_read_eq, textAt]
  rcases tree.locate path with fault | ⟨place, _ | ⟨bytes | _⟩⟩
  · rfl
  · rfl
  · simp only
    rcases Utf8.decode bytes with e | t <;> rfl
  · rfl

/-- Loading changes nothing, and its outcome is known from the source. -/
theorem run_load (yaml : YamlReader) (source : Text) (timeout : Value) :
    let run := StateT.run ((host client).load yaml source timeout) tree
    run.2 = tree ∧ run.1.outcome = tree.loaded client yaml source timeout := by
  intro run
  simp only [run, Host.load, loaded, sourceText]
  rcases Loading.format source with e | format
  · exact ⟨rfl, rfl⟩
  simp only
  split
  · refine ⟨rfl, ?_⟩
    change Traced.outcome ((Traced.emit ⟨source, timeout, true⟩ : Loading Unit) >>= fun _ =>
      liftM ((client ⟨source, timeout, true⟩).mapError (Loading.ofFetchError source)) >>= fun t =>
        liftM (Loading.read yaml source format t)) = _
    rw [Traced.outcome_bind, Traced.outcome_emit]
    exact Traced.outcome_bind _ _
  · have hread : StateT.run ((host client).readText (.ofText source)) tree =
        (tree.textAt (.ofText source), tree) := effectOf_readText client tree (.ofText source)
    rw [StateT.run_bind, hread]
    rcases tree.textAt (.ofText source) with fault | t <;> exact ⟨rfl, rfl⟩

end FileTree

end ZodSchemas
