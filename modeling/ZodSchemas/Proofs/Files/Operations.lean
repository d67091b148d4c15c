import ZodSchemas.Proofs.Files.Places

/-!
# Operations on a file tree

Each operation looks its path up and then refuses or changes one place. Looking
things up changes nothing. Making a directory together with the missing ones
above it changes nothing but some places on the way of its path, where nothing
was and a directory is then, also when it fails.
-/

namespace ZodSchemas

namespace FileTree

/-- The tree as a host that makes temporary files in some way. -/
def hostMaking (make : FilePath → Text → Action FilePath) (client : Client) :
    Host (StateM FileTree) := { host client with makeTemporary := make }

section

variable (make : FilePath → Text → Action FilePath) (client : Client)

theorem hostMaking_kind : (hostMaking make client).kind = kind := rfl

theorem hostMaking_write : (hostMaking make client).write = write := rfl

theorem hostMaking_move : (hostMaking make client).move = move := rfl

theorem hostMaking_remove : (hostMaking make client).remove = remove := rfl

theorem hostMaking_makeTemporary : (hostMaking make client).makeTemporary = make := rfl

end

variable {tree other : FileTree} {place origin : Location} {path : FilePath}

theorem effectOf_find (path : FilePath) (tree : FileTree) :
    effectOf (find path) tree = (tree.locate path, tree) := by
  rw [find, ask, effectOf_bind, effectOf_get]
  cases h : tree.locate path <;> simp [h]

/-- Looking up what stands at a path changes nothing. -/
theorem keeps_kind (path : FilePath) : Keeps (· = ·) (kind path) := by
  intro tree
  rw [kind, effectOf_bind, effectOf_find]
  rcases tree.locate path with _ | ⟨_, _ | ⟨_ | _⟩⟩ <;> rfl

/-- How reading ends is decided by what the path leads to. -/
theorem effectOf_read_eq (path : FilePath) (tree : FileTree) :
    effectOf (read path) tree =
      match tree.locate path with
      | .error e => (.error e, tree)
      | .ok (_, some (.file bytes)) => (.ok bytes, tree)
      | .ok (_, some .directory) => (.error (.refused .isDirectory path), tree)
      | .ok (_, none) => (.error (.refused .notFound path), tree) := by
  rw [read, effectOf_bind, effectOf_find]
  rcases tree.locate path with e | ⟨place, _ | ⟨bytes | _⟩⟩ <;> rfl

/-- A file that a path leads to is read. -/
theorem effectOf_read {bytes : List UInt8}
    (h : tree.locate path = .ok (place, some (.file bytes))) :
    effectOf (read path) tree = (.ok bytes, tree) := by
  rw [effectOf_read_eq, h]

/-- Something that a path leads to is of some kind. -/
theorem exists_effectOf_kind {node : FileNode} (h : tree.locate path = .ok (place, some node)) :
    ∃ k, effectOf (kind path) tree = (.ok k, tree) := by
  rw [kind, effectOf_bind, effectOf_find, h]
  cases node with
  | file bytes => exact ⟨.file, rfl⟩
  | directory => exact ⟨.directory, rfl⟩

/-- How writing ends is decided by what the path leads to. -/
theorem effectOf_write_eq (path : FilePath) (bytes : List UInt8) (tree : FileTree) :
    effectOf (write path bytes) tree =
      match tree.locate path with
      | .error e => (.error e, tree)
      | .ok (_, some .directory) => (.error (.refused .isDirectory path), tree)
      | .ok (place, _) => (.ok (), tree.put place (.file bytes)) := by
  rw [write, effectOf_bind, effectOf_find]
  rcases tree.locate path with e | ⟨place, _ | ⟨old | _⟩⟩ <;> rfl

/-- Writing is refused and changes nothing, or puts a file where no directory is. -/
theorem effectOf_write_cases (path : FilePath) (bytes : List UInt8) (tree : FileTree) :
    (∃ e, effectOf (write path bytes) tree = (.error e, tree)) ∨
      ∃ place node, tree.locate path = .ok (place, node) ∧ node ≠ some .directory ∧
        effectOf (write path bytes) tree = (.ok (), tree.put place (.file bytes)) := by
  rw [effectOf_write_eq]
  rcases tree.locate path with e | ⟨place, _ | ⟨old | _⟩⟩
  · exact .inl ⟨e, rfl⟩
  · exact .inr ⟨place, none, rfl, by simp, rfl⟩
  · exact .inr ⟨place, some (.file old), rfl, by simp, rfl⟩
  · exact .inl ⟨_, rfl⟩

/-- A file that a path leads to is written. -/
theorem effectOf_write {old : List UInt8} (h : tree.locate path = .ok (place, some (.file old)))
    (bytes : List UInt8) :
    effectOf (write path bytes) tree = (.ok (), tree.put place (.file bytes)) := by
  rw [effectOf_write_eq, h]

/-- Making a directory is refused and changes nothing, or puts it where nothing is. -/
theorem effectOf_makeDirectory_cases (path : FilePath) (tree : FileTree) :
    (∃ e, effectOf (makeDirectory path) tree = (.error e, tree)) ∨
      ∃ place, tree.locate path = .ok (place, none) ∧
        effectOf (makeDirectory path) tree = (.ok (), tree.put place .directory) := by
  rw [makeDirectory, effectOf_bind, effectOf_find]
  rcases tree.locate path with e | ⟨place, _ | node⟩
  · exact .inl ⟨e, rfl⟩
  · exact .inr ⟨place, rfl, rfl⟩
  · exact .inl ⟨_, rfl⟩

/-- A file that a path leads to is removed. -/
theorem effectOf_remove {bytes : List UInt8}
    (h : tree.locate path = .ok (place, some (.file bytes))) :
    effectOf (remove path) tree = (.ok (), tree.erase place) := by
  rw [remove, effectOf_bind, effectOf_find, h]
  rfl

/-- Why no file is moved to a path, if none is. -/
def targetFault? (tree : FileTree) (path : FilePath) : Option FileFault :=
  if !endsInName path then some (.refused .busy path)
  else match tree.locate path with
    | .error e => some e
    | .ok (_, some .directory) => some (.refused .isDirectory path)
    | .ok _ => none

/-- A path that a file can be moved to leads to no directory. -/
theorem exists_locate_of_targetFault? (h : tree.targetFault? path = none) :
    ∃ place node, tree.locate path = .ok (place, node) ∧ node ≠ some .directory := by
  rw [targetFault?] at h
  split at h
  · cases h
  · rcases hl : tree.locate path with e | ⟨place, _ | ⟨bytes | _⟩⟩ <;> rw [hl] at h
    · cases h
    · exact ⟨place, none, rfl, by simp⟩
    · exact ⟨place, some (.file bytes), rfl, by simp⟩
    · cases h

/-- A move is refused and changes nothing. -/
theorem effectOf_move_eq_error {source : FilePath} {bytes : List UInt8} {e : FileFault}
    (hs : tree.locate source = .ok (origin, some (.file bytes)))
    (h : tree.targetFault? path = some e) :
    effectOf (move source path) tree = (.error e, tree) := by
  rw [move, effectOf_bind, effectOf_read hs]
  simp only [effectOf_bind, effectOf_find, hs]
  rw [targetFault?] at h
  split at h
  · next hname =>
    rw [if_pos hname]
    cases h
    rfl
  · next hname =>
    rw [if_neg hname]
    rw [effectOf_bind, effectOf_find]
    rcases hl : tree.locate path with e' | ⟨place, _ | ⟨old | _⟩⟩ <;> rw [hl] at h <;> cases h <;>
      rfl

/-- A file is moved from its place to another. -/
theorem effectOf_move {source : FilePath} {bytes : List UInt8} {node : Option FileNode}
    (hs : tree.locate source = .ok (origin, some (.file bytes)))
    (h : tree.targetFault? path = none) (hl : tree.locate path = .ok (place, node)) :
    effectOf (move source path) tree = (.ok (), (tree.erase origin).put place (.file bytes)) := by
  rw [move, effectOf_bind, effectOf_read hs]
  simp only [effectOf_bind, effectOf_find, hs]
  rw [targetFault?] at h
  split at h
  · cases h
  · next hname =>
    rw [if_neg hname, effectOf_bind, effectOf_find, hl]
    rcases node with _ | ⟨old | _⟩ <;> rw [hl] at h
    · rfl
    · rfl
    · cases h

/-- A place that is reached on the way of a path. -/
def IsOnWay (tree : FileTree) (path : FilePath) (place : Location) : Prop :=
  ∃ front, front <+: path.parts ∧ place = front.foldl step (tree.startOf path)

/-- Nothing has changed but some places on the way of a path: nothing was there, and now a
directory is. -/
structure Grows (path : FilePath) (tree other : FileTree) : Prop where
  /-- Relative paths start at the same place. -/
  workingDirectory_eq : other.workingDirectory = tree.workingDirectory
  /-- A place holds what it held, or a directory on the way. -/
  get?_cases (place : Location) : other.get? place = tree.get? place ∨
    tree.get? place = none ∧ other.get? place = some .directory ∧ tree.IsOnWay path place

namespace Grows

theorem refl (path : FilePath) (tree : FileTree) : Grows path tree tree := ⟨rfl, fun _ => .inl rfl⟩

theorem trans {third : FileTree} (h : Grows path tree other) (h' : Grows path other third) :
    Grows path tree third := by
  have hway : ∀ place, other.IsOnWay path place → tree.IsOnWay path place := by
    rintro place ⟨front, hfront, rfl⟩
    exact ⟨front, hfront, by rw [startOf, startOf, h.workingDirectory_eq]⟩
  refine ⟨h'.workingDirectory_eq.trans h.workingDirectory_eq, fun place => ?_⟩
  rcases h'.get?_cases place with heq' | ⟨hnone', hdir', hway'⟩
  · rw [heq']
    exact h.get?_cases place
  · rcases h.get?_cases place with heq | ⟨-, hdir, -⟩
    · exact .inr ⟨heq ▸ hnone', hdir', hway place hway'⟩
    · rw [hdir] at hnone'
      cases hnone'

instance : IsPreorder FileTree (Grows path) where
  refl := refl path
  trans _ _ _ := trans

/-- What a path adds is also added by a longer one. -/
theorem mono {front : FilePath} (h : Grows front tree other) (hroot : front.root = path.root)
    (hparts : front.parts <+: path.parts) : Grows path tree other := by
  refine ⟨h.workingDirectory_eq, fun place => (h.get?_cases place).imp_right ?_⟩
  rintro ⟨hnone, hdir, way, hway, rfl⟩
  exact ⟨hnone, hdir, way, hway.trans hparts, by rw [startOf, startOf, hroot]⟩

/-- A computation that changes nothing adds nothing. -/
theorem keeps_of_eq {ε α : Type} {x : ExceptT ε (StateM FileTree) α} (h : Keeps (· = ·) x) :
    Keeps (Grows path) x := by
  intro tree
  rw [← h tree]
  exact refl path tree

end Grows

/-- Making a directory adds nothing but the directory. -/
theorem keeps_makeDirectory (path : FilePath) : Keeps (Grows path) (makeDirectory path) := by
  intro tree
  rcases effectOf_makeDirectory_cases path tree with ⟨e, he⟩ | ⟨place, hl, hd⟩
  · rw [he]
    exact Grows.refl path tree
  · rw [hd]
    have hplace := placeOf_of_locate hl
    have hfree : tree.get? place = none :=
      (get?_of_locate hl (parts_ne_nil_of_locate hl (by simp))).symm
    have hne : place ≠ [] := ne_nil_of_get? hfree (by simp)
    refine ⟨rfl, fun p => ?_⟩
    rcases eq_or_ne p place with rfl | hp
    · exact .inr ⟨hfree, get?_put_self tree hne _, path.parts, List.prefix_refl _, hplace⟩
    · exact .inl (get?_put_of_ne tree hp _)

variable (make : FilePath → Text → Action FilePath) (client : Client)

theorem keeps_kind? (path : FilePath) :
    Keeps (· = ·) ((hostMaking make client).kind? path) := by
  refine Keeps.tryCatch ((keeps_kind path).map some) ?_
  rintro (⟨_ | _, _⟩ | _ | _ | _) <;> exact fun _ => rfl

theorem keeps_exists? (path : FilePath) :
    Keeps (· = ·) ((hostMaking make client).exists? path) :=
  (keeps_kind? make client path).map _

theorem keeps_ensureDirectory (path : FilePath) :
    Keeps (Grows path) ((hostMaking make client).ensureDirectory path) := by
  have hunless : ∀ e, Keeps (Grows path) ((hostMaking make client).unlessDirectory path e) := by
    intro e
    refine Keeps.bind (Grows.keeps_of_eq (keeps_kind? make client path)) fun k => ?_
    split
    · exact Keeps.pure _
    · exact Keeps.throw _
  refine Keeps.tryCatch (keeps_makeDirectory path) fun e => ?_
  rcases e with ⟨_ | _, _⟩ | _ | _ | _
  all_goals first | exact hunless _ | exact Keeps.throw _

/-- Making a directory and missing ones above it adds nothing but them. -/
theorem keeps_ensureWithin (fuel : Nat) (path : FilePath) :
    Keeps (Grows path) ((hostMaking make client).ensureWithin fuel path) := by
  induction fuel generalizing path with
  | zero => exact keeps_ensureDirectory make client path
  | succ fuel ih =>
    refine Keeps.tryCatch (keeps_ensureDirectory make client path) fun e => ?_
    have hparent : Keeps (Grows path) ((hostMaking make client).ensureWithin fuel path.parent) :=
      fun tree => (ih path.parent tree).mono rfl (List.dropLast_prefix _)
    rcases e with ⟨_ | _, _⟩ | _ | _ | _
    case refused.notFound =>
      dsimp only
      split
      · exact Keeps.throw _
      · exact Keeps.bind hparent fun _ => keeps_ensureDirectory make client path
    all_goals exact Keeps.throw _

theorem keeps_ensureDirectories (path : FilePath) :
    Keeps (Grows path) ((hostMaking make client).ensureDirectories path) :=
  keeps_ensureWithin make client path.parts.length path

end FileTree

end ZodSchemas
