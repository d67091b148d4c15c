import ZodSchemas.Output
import ZodSchemas.Proofs.Files.Operations
import ZodSchemas.Web.Reply

/-!
# Writing in one step is all or nothing

An output file that is written in one step either holds the code in the end, and
nothing else has changed; or writing fails, and nothing at all has changed. In
both cases missing directories above the file may have been made. All that is
asked of the host's way of making temporary files is that they are new.
-/

namespace ZodSchemas

open FileTree

variable {tree : FileTree} {path temporary : FilePath} {origin : Location} {module code : Text}
  {isChecked : Bool} {make : FilePath → Text → Action FilePath}

/-- Temporary files are new: a failure to make one changes nothing, and else an empty file stands
where nothing was and the path leads to it. -/
structure MakesFresh (make : FilePath → Text → Action FilePath) : Prop where
  /-- A failure changes nothing. -/
  of_error {directory : FilePath} {name : Text} {tree other : FileTree} {fault : FileFault} :
    effectOf (make directory name) tree = (.error fault, other) → other = tree
  /-- An empty file stands at a place that was free. -/
  of_ok {directory path : FilePath} {name : Text} {tree other : FileTree} :
    effectOf (make directory name) tree = (.ok path, other) →
      ∃ place, tree.get? place = none ∧ other = tree.put place (.file []) ∧
        other.locate path = .ok (place, some (.file []))

/-- Under the first free name of a directory the temporary file is new. -/
theorem makesFresh_makeTemporary : MakesFresh makeTemporary := by
  have hcases : ∀ directory name tree,
      (∃ e, effectOf (makeTemporary directory name) tree = (.error e, tree)) ∨
        ∃ path place, effectOf (makeTemporary directory name) tree =
            (.ok path, tree.put place (.file [])) ∧ tree.get? place = none ∧
          (tree.put place (.file [])).locate path = .ok (place, some (.file [])) := by
    intro directory name tree
    rw [makeTemporary, effectOf_bind, effectOf_find]
    rcases hd : tree.locate directory with e | ⟨place, node⟩
    · exact .inl ⟨e, rfl⟩
    · simp only [effectOf_bind, effectOf_get]
      rcases effectOf_write_cases (directory.child (tree.freeName place name)) [] tree with
        ⟨e, he⟩ | ⟨target, old, hl, hne, hw⟩
      · exact .inl ⟨e, by rw [he]⟩
      · have htarget : target = step place (tree.freeName place name) := by
          have hplace := placeOf_of_locate hd
          rw [placeOf_of_locate hl, placeOf, FilePath.child, List.foldl_append, hplace]
          rfl
        have hfree : tree.get? target = none := by rw [htarget, get?_freeName]
        exact .inr ⟨_, target, by rw [hw]; rfl, hfree, locate_put hl hne _⟩
  constructor
  · intro directory name tree other fault h
    rcases hcases directory name tree with ⟨e, he⟩ | ⟨path, place, hok, -, -⟩
    · exact (congrArg Prod.snd (h.symm.trans he))
    · cases h.symm.trans hok
  · intro directory path name tree other h
    rcases hcases directory name tree with ⟨e, he⟩ | ⟨path', place, hok, hfree, hl⟩
    · cases h.symm.trans he
    · cases h.symm.trans hok
      exact ⟨place, hfree, rfl, hl⟩

variable (make) (client : Client)

theorem effectOf_forOutput {α : Type} (x : Action α) (tree : FileTree) :
    effectOf (Host.forOutput x) tree =
      ((effectOf x tree).1.mapError .file, (effectOf x tree).2) := rfl

/-- A temporary file is filled; the code is checked; the file is moved. Each step can be the
last. -/
theorem effectOf_fillAndMove {old : List UInt8} (module : Text) (path : FilePath) (code : Text)
    (isChecked : Bool) (h : tree.locate temporary = .ok (origin, some (.file old))) :
    effectOf ((hostMaking make client).fillAndMove module temporary path code isChecked) tree =
      match Utf8.encode? code with
      | none => (.error (.file .unencodable), tree)
      | some bytes =>
        let filled := tree.put origin (.file bytes)
        if isChecked && !startsWithImport module code then
          (.error (.unexpectedStart (importLine module)), filled)
        else match filled.targetFault? path with
          | some fault => (.error (.file fault), filled)
          | none => (.ok (), (filled.erase origin).put (filled.placeOf path) (.file bytes)) := by
  rw [Host.fillAndMove, effectOf_bind, effectOf_forOutput, effectOf_liftM, octetsOf]
  rcases Utf8.encode? code with _ | bytes
  · rfl
  · have hl := locate_put h (by simp) (.file bytes)
    simp only [Except.mapError]
    rw [effectOf_bind, effectOf_forOutput, hostMaking_write, effectOf_write h bytes]
    simp only [Except.mapError]
    split
    · rfl
    · rw [effectOf_forOutput, hostMaking_move]
      rcases ht : (tree.put origin (.file bytes)).targetFault? path with _ | fault
      · obtain ⟨place, node, hp, -⟩ := exists_locate_of_targetFault? ht
        rw [effectOf_move hl ht hp, ← placeOf_of_locate hp]
        rfl
      · rw [effectOf_move_eq_error hl ht]
        rfl

/-- A file that a path leads to is discarded. -/
theorem effectOf_discard {bytes : List UInt8}
    (h : tree.locate path = .ok (origin, some (.file bytes))) :
    effectOf ((hostMaking make client).discard path) tree = (.ok (), tree.erase origin) := by
  rw [Host.discard, effectOf_tryCatch, hostMaking_remove, effectOf_remove h]

/-- Writing in one step goes on from one part to the next, and discards the temporary file when
the last part fails. -/
theorem effectOf_writeInOneStep (module : Text) (path : FilePath) (code : Text) (isChecked : Bool)
    (tree : FileTree) :
    effectOf ((hostMaking make client).writeInOneStep module path code isChecked) tree =
      match effectOf ((hostMaking make client).ensureDirectories path.parent) tree with
      | (.error fault, grown) => (.error (.file fault), grown)
      | (.ok (), grown) =>
        match effectOf (make path.parent path.name) grown with
        | (.error fault, other) => (.error (.file fault), other)
        | (.ok temporary, made) =>
          match effectOf
            ((hostMaking make client).fillAndMove module temporary path code isChecked) made with
          | (.ok (), done) => (.ok (), done)
          | (.error e, kept) =>
            match effectOf ((hostMaking make client).discard temporary) kept with
            | (.ok (), left) => (.error e, left)
            | (.error fault, left) => (.error (.file fault), left) := by
  rw [Host.writeInOneStep, effectOf_bind, effectOf_forOutput]
  rcases effectOf ((hostMaking make client).ensureDirectories path.parent) tree with ⟨_ | _, grown⟩
  · rfl
  · simp only [Except.mapError]
    rw [effectOf_bind, effectOf_forOutput, hostMaking_makeTemporary]
    rcases effectOf (make path.parent path.name) grown with ⟨_ | temporary, made⟩
    · rfl
    · simp only [Except.mapError]
      rw [effectOf_tryCatch]
      rcases effectOf ((hostMaking make client).fillAndMove module temporary path code isChecked)
        made with ⟨e | _, kept⟩
      · simp only
        rw [effectOf_bind, effectOf_forOutput]
        rcases effectOf ((hostMaking make client).discard temporary) kept with ⟨_ | _, left⟩ <;> rfl
      · rfl

variable {make} {old bytes : List UInt8} {place : Location}

/-- What is put and erased again was not there at all. -/
theorem get?_erase_put (hfree : tree.get? origin = none) (node : FileNode) (p : Location) :
    ((tree.put origin node).erase origin).get? p = tree.get? p := by
  rcases eq_or_ne p origin with rfl | hp
  · rw [get?_erase_self _ (ne_nil_of_get? hfree (by simp)), hfree]
  · rw [get?_erase_of_ne _ hp, get?_put_of_ne _ hp]

/-- Only what is put last counts. -/
theorem get?_erase_put_put (hfree : tree.get? origin = none) (first last : FileNode)
    (p : Location) : (((tree.put origin first).put origin last).erase origin).get? p =
      tree.get? p := by
  rcases eq_or_ne p origin with rfl | hp
  · rw [get?_erase_self _ (ne_nil_of_get? hfree (by simp)), hfree]
  · rw [get?_erase_of_ne _ hp, get?_put_of_ne _ hp, get?_put_of_ne _ hp]

/-- Places that hold the same have grown in the same way. -/
theorem FileTree.Grows.congr {grown left : FileTree} (h : Grows path tree grown)
    (hw : left.workingDirectory = grown.workingDirectory)
    (hget : ∀ p, left.get? p = grown.get? p) : Grows path tree left :=
  ⟨hw.trans h.workingDirectory_eq, fun p => by rw [hget]; exact h.get?_cases p⟩

/-- A tree in which a file is put grows as the tree does. -/
theorem FileTree.Grows.put {grown : FileTree} (h : Grows path tree grown) (hne : place ≠ [])
    (node : FileNode) : Grows path (tree.put place node) (grown.put place node) := by
  refine ⟨h.workingDirectory_eq, fun p => ?_⟩
  rcases eq_or_ne p place with rfl | hp
  · exact .inl (by rw [get?_put_self _ hne, get?_put_self _ hne])
  · rw [get?_put_of_ne _ hp, get?_put_of_ne _ hp]
    exact h.get?_cases p

/-- A temporary file that is moved leaves nothing behind, and the path leads to it then. -/
theorem locate_moved (hfree : tree.get? origin = none)
    (ht : ((tree.put origin (.file old)).put origin (.file bytes)).targetFault? path = none) :
    let filled := (tree.put origin (.file old)).put origin (.file bytes)
    let place := filled.placeOf path
    let moved := (filled.erase origin).put place (.file bytes)
    place ≠ [] ∧ moved.locate path = .ok (place, some (.file bytes)) ∧
      ∀ p, moved.get? p = (tree.put place (.file bytes)).get? p := by
  intro filled place moved
  have horigin : origin ≠ [] := ne_nil_of_get? hfree (by simp)
  obtain ⟨target, node, hl, hnode⟩ := exists_locate_of_targetFault? ht
  obtain rfl : target = place := placeOf_of_locate hl
  have hget : node = filled.get? place := get?_of_locate hl (parts_ne_nil_of_locate hl hnode)
  have hplace : place ≠ [] := ne_nil_of_get? hget.symm hnode
  have hmoved : ∀ p, moved.get? p = (tree.put place (.file bytes)).get? p := by
    intro p
    rcases eq_or_ne p place with heq | hp
    · rw [heq, get?_put_self _ hplace, get?_put_self _ hplace]
    · rw [get?_put_of_ne _ hp, get?_put_of_ne _ hp, get?_erase_put_put hfree]
  refine ⟨hplace, ?_, hmoved⟩
  have hdirectories : ∀ p, filled.get? p = some .directory → moved.get? p = some .directory := by
    intro p hd
    have hp : p ≠ place := by
      rintro rfl
      exact hnode (hget.trans hd)
    have ho : p ≠ origin := by
      rintro rfl
      rw [get?_put_self _ horigin] at hd
      cases hd
    rw [get?_put_of_ne _ hp, get?_erase_of_ne _ ho, hd]
  rw [locate_of_directories hl hnode hdirectories rfl, get?_put_self _ hplace]

/-- Why an output file is not written in one step. -/
inductive Obstacle (host : Host (StateM FileTree)) (module : Text) (path : FilePath) (code : Text)
    (isChecked : Bool) (tree : FileTree) : WriteError → Prop
  /-- A directory above the file cannot be made. -/
  | directories {grown : FileTree} {fault : FileFault}
    (h : effectOf (host.ensureDirectories path.parent) tree = (.error fault, grown)) :
    Obstacle host module path code isChecked tree (.file fault)
  /-- No temporary file can be made. -/
  | temporary {grown other : FileTree} {fault : FileFault}
    (hd : effectOf (host.ensureDirectories path.parent) tree = (.ok (), grown))
    (h : effectOf (host.makeTemporary path.parent path.name) grown = (.error fault, other)) :
    Obstacle host module path code isChecked tree (.file fault)
  /-- The code has no octets. -/
  | code (h : Utf8.encode? code = none) :
    Obstacle host module path code isChecked tree (.file .unencodable)
  /-- The check refuses the code. -/
  | start (hc : isChecked = true) (h : startsWithImport module code = false) :
    Obstacle host module path code isChecked tree (.unexpectedStart (importLine module))
  /-- Beside the temporary file nothing can be moved to the path. -/
  | target {grown other : FileTree} {temporary : FilePath} {origin : Location}
    {bytes : List UInt8} {fault : FileFault}
    (hd : effectOf (host.ensureDirectories path.parent) tree = (.ok (), grown))
    (hm : effectOf (host.makeTemporary path.parent path.name) grown = (.ok temporary, other))
    (h : (other.put origin (.file bytes)).targetFault? path = some fault) :
    Obstacle host module path code isChecked tree (.file fault)

/-- What writing an output file in one step may come to: the path leads to a file with the code,
or there is an obstacle. Nothing else has changed but missing directories above the file. -/
def AllOrNothing (obstacle : WriteError → Prop) (module : Text) (path : FilePath) (code : Text)
    (isChecked : Bool) (tree : FileTree) : Except WriteError Unit × FileTree → Prop
  | (.ok (), other) => (isChecked = true → startsWithImport module code = true) ∧
    ∃ place bytes, Utf8.encode? code = some bytes ∧
      other.locate path = .ok (place, some (.file bytes)) ∧
      Grows path.parent (tree.put place (.file bytes)) other
  | (.error e, other) => obstacle e ∧ Grows path.parent tree other

/-- Writing in one step is all or nothing. -/
theorem allOrNothing_writeInOneStep (fresh : MakesFresh make) (client : Client) (module : Text)
    (path : FilePath) (code : Text) (isChecked : Bool) (tree : FileTree) :
    AllOrNothing (Obstacle (hostMaking make client) module path code isChecked tree) module path
      code isChecked tree
      (effectOf ((hostMaking make client).writeInOneStep module path code isChecked) tree) := by
  have hgrows := keeps_ensureDirectories make client path.parent tree
  rw [effectOf_writeInOneStep]
  rcases hd : effectOf ((hostMaking make client).ensureDirectories path.parent) tree with
    ⟨fault | _, grown⟩ <;> rw [hd] at hgrows
  · exact ⟨.directories hd, hgrows⟩
  simp only
  rcases hm : effectOf (make path.parent path.name) grown with ⟨fault | temporary, made⟩
  · exact ⟨.temporary hd hm, fresh.of_error hm ▸ hgrows⟩
  obtain ⟨origin, hfree, rfl, hl⟩ := fresh.of_ok hm
  simp only
  rw [effectOf_fillAndMove make client module path code isChecked hl]
  rcases hb : Utf8.encode? code with _ | bytes
  · -- nothing is written
    simp only
    rw [effectOf_discard make client hl]
    exact ⟨.code hb, hgrows.congr rfl (get?_erase_put hfree _)⟩
  simp only
  have hleft := effectOf_discard make client (locate_put hl (by simp) (.file bytes))
  have hsame : FileTree.Grows path.parent tree
      (((grown.put origin (.file [])).put origin (.file bytes)).erase origin) :=
    hgrows.congr rfl (get?_erase_put_put hfree _ _)
  by_cases hcheck : (isChecked && !startsWithImport module code) = true
  · -- the check fails
    rw [if_pos hcheck]
    simp only
    rw [hleft]
    have hcheck : isChecked = true ∧ startsWithImport module code = false := by simpa using hcheck
    exact ⟨.start hcheck.1 hcheck.2, hsame⟩
  · rw [if_neg hcheck]
    rcases ht : ((grown.put origin (.file [])).put origin (.file bytes)).targetFault? path with
      _ | fault
    · obtain ⟨hne, hlocate, hget⟩ := locate_moved hfree ht
      refine ⟨fun hc => by simpa [hc] using hcheck, _, bytes, hb, hlocate, ?_⟩
      exact (hgrows.put hne _).congr rfl hget
    · -- the file cannot be moved
      simp only
      rw [hleft]
      exact ⟨.target hd hm ht, hsame⟩

/-- Whether something stands at a path is known without changing anything. -/
theorem keeps_refuseExisting (make : FilePath → Text → Action FilePath) (client : Client)
    (path : FilePath) : Keeps (· = ·) ((hostMaking make client).refuseExisting path) := by
  refine Keeps.bind ((keeps_exists? make client path).adapt WriteError.file) fun b => ?_
  cases b
  · exact Keeps.pure ()
  · exact Keeps.throw _

/-- An output file that exists is refused. -/
theorem effectOf_refuseExisting {node : FileNode} (make : FilePath → Text → Action FilePath)
    (client : Client) (h : tree.locate path = .ok (place, some node)) :
    effectOf ((hostMaking make client).refuseExisting path) tree =
      (.error (.outputExists path), tree) := by
  obtain ⟨k, hk⟩ := exists_effectOf_kind h
  have hexists : effectOf ((hostMaking make client).exists? path) tree = (.ok true, tree) := by
    rw [Host.exists?, effectOf_map, Host.kind?, effectOf_tryCatch, effectOf_map, hostMaking_kind,
      hk]
    rfl
  rw [Host.refuseExisting, effectOf_bind, effectOf_forOutput, hexists]
  rfl

/-- Writing in one step is all or nothing, and so it is when an output file that exists is left
alone; where something stands at the path, nothing at all is changed then. -/
theorem write_all_or_nothing (fresh : MakesFresh make) (client : Client) (module : Text)
    (path : FilePath) (code : Text) (isChecked : Bool) (tree : FileTree) :
    let host := hostMaking make client
    let obstacle := Obstacle host module path code isChecked tree
    AllOrNothing obstacle module path code isChecked tree
        (effectOf (host.writeInOneStep module path code isChecked) tree) ∧
      AllOrNothing (fun e => (effectOf (host.refuseExisting path) tree).1 = .error e ∨ obstacle e)
        module path code isChecked tree
        (effectOf (host.writeNew module path code isChecked) tree) ∧
      ∀ place node, tree.locate path = .ok (place, some node) →
        effectOf (host.writeNew module path code isChecked) tree =
          (.error (.outputExists path), tree) := by
  intro host obstacle
  have hwrite : AllOrNothing obstacle module path code isChecked tree
      (effectOf (host.writeInOneStep module path code isChecked) tree) :=
    allOrNothing_writeInOneStep fresh client module path code isChecked tree
  have hrefuse := keeps_refuseExisting make client path tree
  refine ⟨hwrite, ?_, fun place node h => ?_⟩
  · rw [Host.writeNew, effectOf_bind]
    rcases hr : effectOf (host.refuseExisting path) tree with ⟨e | _, t⟩ <;>
      obtain rfl : t = tree := (hrefuse.trans (congrArg Prod.snd hr)).symm
    · exact ⟨.inl rfl, Grows.refl _ _⟩
    · simp only
      rcases hw : effectOf (host.writeInOneStep module path code isChecked) t with
        ⟨e | _, other⟩ <;> rw [hw] at hwrite
      · exact ⟨.inr hwrite.1, hwrite.2⟩
      · exact hwrite
  · rw [Host.writeNew, effectOf_bind, effectOf_refuseExisting make client h]

/-- A file in a directory that is made for it, and an empty file that is left alone. -/
theorem write_all_or_nothing_source :
    let path : FilePath := ⟨[], ["src", "out.ts"]⟩
    let code : Text := "import \x7b z \x7d from 'zod';"
    let host := FileTree.host .offline
    let kept : FileTree := ⟨[(["src", "out.ts"], .file []), (["src"], .directory)], []⟩
    (effectOf (host.writeInOneStep "zod" path code true) ⟨[], []⟩).1.toBool = true ∧
      AllOrNothing (Obstacle host "zod" path code true ⟨[], []⟩) "zod" path code true ⟨[], []⟩
        (effectOf (host.writeInOneStep "zod" path code true) ⟨[], []⟩) ∧
      effectOf (host.writeNew "zod" path code true) kept = (.error (.outputExists path), kept) := by
  refine ⟨by decide +kernel, ?_, ?_⟩
  · exact (write_all_or_nothing makesFresh_makeTemporary .offline _ _ _ _ _).1
  · exact (write_all_or_nothing makesFresh_makeTemporary .offline _ _ _ _ _).2.2
      [Text.ofString "src", Text.ofString "out.ts"] (.file []) (by decide +kernel)

end ZodSchemas
