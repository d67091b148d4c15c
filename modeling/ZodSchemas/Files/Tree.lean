import ZodSchemas.Files.Host

/-!
# File trees

A file tree is a host whose state is a value: which files and directories there
are and what the files hold. A path is followed part by part. Everything on the
way must be a directory, also where the next part leads back; only the last
part may be missing. Places are told by the names that are stored.
-/

namespace ZodSchemas

/-- What is kept at a place. -/
inductive FileNode where
  /-- A file and its octets. -/
  | file (bytes : List UInt8)
  /-- A directory. -/
  | directory
deriving DecidableEq

/-- A place, by the names that lead to it from the top. -/
abbrev Location := List Text

/-- All files and directories, and where relative paths start. -/
structure FileTree where
  /-- What is kept where; the top is a directory and needs no entry. -/
  nodes : List (Location × FileNode)
  /-- The place where relative paths start. -/
  workingDirectory : Location

namespace FileTree

/-- What is kept at a place. -/
def get? (tree : FileTree) (place : Location) : Option FileNode :=
  if place.isEmpty then some .directory else tree.nodes.lookup place

/-- The tree with something else at a place. -/
def put (tree : FileTree) (place : Location) (node : FileNode) : FileTree :=
  { tree with nodes := (place, node) :: tree.nodes.filter fun e => e.1 != place }

/-- The tree with nothing at a place. -/
def erase (tree : FileTree) (place : Location) : FileTree :=
  { tree with nodes := tree.nodes.filter fun e => e.1 != place }

@[simp] theorem get?_nil (tree : FileTree) : tree.get? [] = some .directory := rfl

/-- Nothing is left of a place whose entries are dropped. -/
theorem lookup_filter_self (place : Location) (nodes : List (Location × FileNode)) :
    (nodes.filter fun e => e.1 != place).lookup place = none := by
  rw [List.lookup_eq_none_iff]
  intro e he
  have hne : e.1 ≠ place := by simpa using (List.mem_filter.mp he).2
  simpa using fun h : place = e.1 => hne h.symm

/-- Dropping the entries of one place keeps those of another. -/
theorem lookup_filter_of_ne {place other : Location} (h : other ≠ place)
    (nodes : List (Location × FileNode)) :
    (nodes.filter fun e => e.1 != place).lookup other = nodes.lookup other := by
  induction nodes with
  | nil => rfl
  | cons e rest ih =>
    obtain ⟨p, node⟩ := e
    by_cases hp : p = place
    · subst hp
      have hne : (other == p) = false := by simpa using h
      rw [List.filter_cons_of_neg (by simp), List.lookup_cons, hne]
      exact ih
    · rw [List.filter_cons_of_pos (by simpa using hp), List.lookup_cons, List.lookup_cons, ih]

/-- What is put at a place is kept there. -/
theorem get?_put_self (tree : FileTree) {place : Location} (h : place ≠ []) (node : FileNode) :
    (tree.put place node).get? place = some node := by
  simp [get?, put, h]

/-- Putting something at one place changes no other. -/
theorem get?_put_of_ne (tree : FileTree) {place other : Location} (h : other ≠ place)
    (node : FileNode) : (tree.put place node).get? other = tree.get? other := by
  have hne : (other == place) = false := by simpa using h
  simp [get?, put, List.lookup_cons, hne, lookup_filter_of_ne h]

/-- A place that is erased is empty. -/
theorem get?_erase_self (tree : FileTree) {place : Location} (h : place ≠ []) :
    (tree.erase place).get? place = none := by
  rw [get?, erase, lookup_filter_self]
  simp [h]

/-- Erasing one place changes no other. -/
theorem get?_erase_of_ne (tree : FileTree) {place other : Location} (h : other ≠ place) :
    (tree.erase place).get? other = tree.get? other := by
  simp [get?, erase, lookup_filter_of_ne h]

/-- The place that a part leads to. -/
def step (place : Location) (part : Text) : Location :=
  if part = FilePath.back then place.dropLast else place ++ [FilePath.stored part]

/-- Follow parts from a directory; only at the end there may be nothing. -/
def follow (tree : FileTree) :
    Location → List Text → Except FileProblem (Location × Option FileNode)
  | place, [] => .ok (place, some .directory)
  | place, part :: rest =>
    if FilePath.longestName < FilePath.width part then .error .nameTooLong
    else
      let target := step place part
      match tree.get? target, rest with
      | node, [] => .ok (target, node)
      | some .directory, next :: others => follow tree target (next :: others)
      | some (.file _), _ :: _ => .error .notDirectory
      | none, _ :: _ => .error .notFound

/-- The place of a path and what is kept there. -/
def locate (tree : FileTree) (path : FilePath) : Except FileFault (Location × Option FileNode) :=
  match path.fault? with
  | some fault => .error fault
  | none =>
    if FilePath.longestPath < FilePath.width path.text then .error (.refused .nameTooLong path)
    else
      let start := if path.root.isEmpty then tree.workingDirectory else []
      (tree.follow start path.parts).mapError fun problem => .refused problem path

/-- Whether the last part of a path leads to a place by name. -/
def endsInName (path : FilePath) : Bool := !path.parts.isEmpty && path.name != FilePath.back

/-- Computations that change a tree. -/
abbrev Action (α : Type) := ExceptT FileFault (StateM FileTree) α

/-- Look something up. -/
def ask {α : Type} (f : FileTree → Except FileFault α) : Action α := do
  match f (← get) with
  | .ok a => pure a
  | .error e => throw e

/-- The place of a path and what is kept there. -/
def find (path : FilePath) : Action (Location × Option FileNode) := ask fun tree => tree.locate path

/-- What stands at a path. -/
def kind (path : FilePath) : Action FileKind := do
  match ← find path with
  | (_, some (.file _)) => pure .file
  | (_, some .directory) => pure .directory
  | (_, none) => throw (.refused .notFound path)

/-- The octets of a file. -/
def read (path : FilePath) : Action (List UInt8) := do
  match ← find path with
  | (_, some (.file bytes)) => pure bytes
  | (_, some .directory) => throw (.refused .isDirectory path)
  | (_, none) => throw (.refused .notFound path)

/-- Write a file. -/
def write (path : FilePath) (bytes : List UInt8) : Action Unit := do
  match ← find path with
  | (_, some .directory) => throw (.refused .isDirectory path)
  | (place, _) => modify fun tree => tree.put place (.file bytes)

/-- Make a directory. -/
def makeDirectory (path : FilePath) : Action Unit := do
  match ← find path with
  | (_, some _) => throw (.refused .exists path)
  | (place, none) => modify fun tree => tree.put place .directory

/-- A name for a file that has none for long: hidden, with a number behind the name it is for. -/
def temporaryName (name : Text) (n : Nat) : Text :=
  ("." : Text) ++ name ++ "." ++ Numeral.padded 8 n ++ ".tmp"

/-- The first of these names that is free in a directory. -/
def freeName (tree : FileTree) (place : Location) (name : Text) : Text :=
  temporaryName name (((List.range (tree.nodes.length + 1)).find? fun n =>
    (tree.get? (step place (temporaryName name n))).isNone).getD 0)

/-- Make an empty file under a new name. -/
def makeTemporary (directory : FilePath) (name : Text) : Action FilePath := do
  let (place, _) ← find directory
  let path := directory.child ((← get).freeName place name)
  write path []
  pure path

/-- Move a file over another. -/
def move (source target : FilePath) : Action Unit := do
  let bytes ← read source
  let (origin, _) ← find source
  if !endsInName target then throw (.refused .busy target)
  else
    match ← find target with
    | (_, some .directory) => throw (.refused .isDirectory target)
    | (place, _) => modify fun tree => (tree.erase origin).put place (.file bytes)

/-- Remove a file. -/
def remove (path : FilePath) : Action Unit := do
  match ← find path with
  | (place, some (.file _)) => modify fun tree => tree.erase place
  | (_, some .directory) => throw (.refused .isDirectory path)
  | (_, none) => throw (.refused .notFound path)

/-- The tree as a host, with a client. -/
def host (client : Client) : Host (StateM FileTree) where
  workingDirectory := do
    let tree ← get
    pure ⟨"/", tree.workingDirectory⟩
  kind := kind
  read := read
  write := write
  makeDirectory := makeDirectory
  makeTemporary := makeTemporary
  move := move
  remove := remove
  fetch := fun request => pure (client request)

end FileTree

end ZodSchemas
