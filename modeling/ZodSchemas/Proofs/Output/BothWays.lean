import ZodSchemas.Proofs.Declaration.Agreement
import ZodSchemas.Proofs.Declaration.Spelling
import ZodSchemas.Proofs.Output.InOneStep
import ZodSchemas.Web.Reply

/-!
# Writing in one step and directly

In a directory that exists an output file can be written in one step or
directly, and both come to the same: the same files in the end, with the code in
the output file, or the same error and nothing changed. The one exception is a
path that does not end in a name, and so leads to a directory: both ways refuse
to replace it, each in its own words.
-/

namespace ZodSchemas

namespace FileTree

/-- Everything is in a directory, and relative paths start at one. -/
structure IsClosed (tree : FileTree) : Prop where
  /-- Where something is kept there is a directory around it. -/
  inside : ∀ place node, tree.get? place = some node → tree.get? place.dropLast = some .directory
  /-- Relative paths start at a directory. -/
  start : tree.get? tree.workingDirectory = some .directory

/-- Two trees have the same files and directories. -/
structure HoldsSame (tree other : FileTree) : Prop where
  /-- Relative paths start at the same place. -/
  workingDirectory : tree.workingDirectory = other.workingDirectory
  /-- The same is kept everywhere. -/
  get? : ∀ place, tree.get? place = other.get? place

theorem HoldsSame.refl (tree : FileTree) : tree.HoldsSame tree := ⟨rfl, fun _ => rfl⟩

/-- The lengths of a path and of its name are within the limits. -/
structure Fits (path : FilePath) : Prop where
  /-- The whole path is not too long. -/
  whole : FilePath.width path.text ≤ FilePath.longestPath
  /-- The name is not too long. -/
  last : FilePath.width path.name ≤ FilePath.longestName

variable {tree other : FileTree} {start place directory origin : Location} {path : FilePath}

/-- One more part behind those that lead to a directory leads to what is kept there. -/
theorem follow_concat {front : List Text} {part : Text}
    (h : tree.follow start front = .ok (place, some .directory))
    (hw : FilePath.width part ≤ FilePath.longestName) :
    tree.follow start (front ++ [part]) = .ok (step place part, tree.get? (step place part)) := by
  induction front generalizing start with
  | nil =>
    obtain ⟨rfl, -⟩ := follow_nil_eq_ok.mp h
    simp [follow, Nat.not_lt.mpr hw]
  | cons first rest ih =>
    rw [follow] at h
    split at h
    · cases h
    · next hlong =>
      simp only at h
      rw [List.cons_append, follow, if_neg hlong]
      simp only
      cases rest with
      | nil =>
        obtain ⟨rfl, hnode⟩ : step start first = place ∧
            tree.get? (step start first) = some .directory := by simpa using h
        rw [hnode]
        exact ih rfl
      | cons next others =>
        split at h
        · next heq => exact absurd heq (by simp)
        · next hnode heq =>
          cases heq
          rw [hnode]
          exact ih h
        · cases h
        · cases h

/-- A path in a directory leads to what is kept there under its name. -/
theorem locate_of_parent (hp : tree.locate path.parent = .ok (directory, some .directory))
    (hf : Fits path) (hfault : path.fault? = none) (hne : path.parts ≠ []) :
    tree.locate path = .ok (step directory path.name, tree.get? (step directory path.name)) := by
  obtain ⟨-, -, hfollow⟩ := locate_eq_ok.mp hp
  refine locate_eq_ok.mpr ⟨hfault, hf.whole, ?_⟩
  rw [FilePath.parts_eq_concat hne]
  exact follow_concat hfollow hf.last

/-- A path to a directory leads to it in a tree that has the same directories, or more of them. -/
theorem locate_directory (h : tree.locate path = .ok (place, some .directory))
    (hd : ∀ p, tree.get? p = some .directory → other.get? p = some .directory)
    (hw : other.workingDirectory = tree.workingDirectory) :
    other.locate path = .ok (place, some .directory) := by
  obtain ⟨hfault, hlong, hf⟩ := locate_eq_ok.mp h
  have hstart : other.startOf path = tree.startOf path := by rw [startOf, startOf, hw]
  have hfollow := follow_of_directories hd hf
  refine locate_eq_ok.mpr ⟨hfault, hlong, ?_⟩
  rw [hstart, hfollow]
  split
  · rfl
  · next hne => rw [hd place (get?_of_locate h hne).symm]

/-- A path that leads to a directory is one in the tree. -/
theorem IsClosed.get?_of_locate (hc : tree.IsClosed)
    (h : tree.locate path = .ok (place, some .directory)) : tree.get? place = some .directory := by
  by_cases hne : path.parts = []
  · obtain ⟨-, -, hf⟩ := locate_eq_ok.mp h
    rw [hne] at hf
    obtain ⟨rfl, -⟩ := follow_nil_eq_ok.mp hf
    rw [startOf]
    split
    · exact hc.start
    · exact tree.get?_nil
  · exact (FileTree.get?_of_locate h hne).symm

/-- In a directory, a path that does not end in a name leads to a directory. -/
theorem IsClosed.exists_directory (hc : tree.IsClosed)
    (hp : tree.locate path.parent = .ok (directory, some .directory)) (hf : Fits path)
    (hname : endsInName path = false) :
    path.fault? = none ∧ ∃ place, tree.locate path = .ok (place, some .directory) := by
  by_cases hne : path.parts = []
  · have hparent : path.parent = path := by
      rw [FilePath.parent, hne]
      cases path
      simpa using hne.symm
    rw [hparent] at hp
    exact ⟨(locate_eq_ok.mp hp).1, directory, hp⟩
  · have hback : path.name = FilePath.back := by simpa [endsInName, hne] using hname
    have hfault : path.fault? = none := by
      obtain ⟨hsurrogate, hnull⟩ := FilePath.fault?_eq_none.mp (locate_eq_ok.mp hp).1
      rw [FilePath.fault?_eq_none, FilePath.hasSurrogate_eq, FilePath.hasNull_eq, hsurrogate,
        hnull, hback]
      decide
    refine ⟨hfault, step directory path.name, ?_⟩
    have hup : step directory path.name = directory.dropLast := by rw [hback, step, if_pos rfl]
    rw [locate_of_parent hp hf hfault hne, hup, hc.inside _ _ (hc.get?_of_locate hp)]

/-- Only what is put last at a place counts. -/
theorem get?_put_put (tree : FileTree) {place : Location} (h : place ≠ []) (first last : FileNode)
    (p : Location) :
    ((tree.put place first).put place last).get? p = (tree.put place last).get? p := by
  rcases eq_or_ne p place with rfl | hp
  · rw [get?_put_self _ h, get?_put_self _ h]
  · rw [get?_put_of_ne _ hp, get?_put_of_ne _ hp, get?_put_of_ne _ hp]

/-- A file that is put where nothing was and then filled makes and hides no directory. -/
theorem get?_put_put_eq_directory (hfree : tree.get? origin = none) (old bytes : List UInt8)
    (p : Location) :
    ((tree.put origin (.file old)).put origin (.file bytes)).get? p = some .directory ↔
      tree.get? p = some .directory := by
  have horigin : origin ≠ [] := ne_nil_of_get? hfree (by simp)
  rw [get?_put_put _ horigin]
  rcases eq_or_ne p origin with rfl | hne
  · simp [get?_put_self _ horigin, hfree]
  · rw [get?_put_of_ne _ hne]

/-- A path that a file can be moved to ends in a name. -/
theorem endsInName_of_targetFault? (h : tree.targetFault? path = none) :
    endsInName path = true := by
  by_contra hname
  have hfalse : endsInName path = false := by simpa using hname
  rw [targetFault?, hfalse] at h
  cases h

end FileTree

open FileTree

/-- Beside a file temporary files are new: for a path that no file can have none is made, and else
an empty file stands where nothing was and the path leads to it. -/
structure MakesBeside (make : FilePath → Text → Action FilePath) (tree : FileTree)
    (path : FilePath) : Prop where
  /-- No file can have the path. -/
  of_fault {fault : FileFault} : path.fault? = some fault →
    effectOf (make path.parent path.name) tree = (.error fault, tree)
  /-- An empty file stands at a place that was free. -/
  of_name : path.fault? = none → ∃ temporary origin, tree.get? origin = none ∧
    effectOf (make path.parent path.name) tree = (.ok temporary, tree.put origin (.file [])) ∧
    (tree.put origin (.file [])).locate temporary = .ok (origin, some (.file []))

/-- How writing an output file in one step and writing it directly come to the same. -/
inductive EndsAlike (mode : OutputMode) (path : FilePath) (bytes : List UInt8) (tree : FileTree) :
    Except WriteError Unit × FileTree → Except WriteError Unit × FileTree → Prop where
  /-- Both fail with the same error and change nothing. -/
  | failed {e : WriteError} {left right : FileTree} (hl : left.HoldsSame tree)
      (hr : right.HoldsSame tree) :
      EndsAlike mode path bytes tree (.error e, left) (.error e, right)
  /-- Both put the octets into the file that the path leads to, and change nothing else. -/
  | written {place : Location} {left right : FileTree}
      (hl : left.HoldsSame (tree.put place (.file bytes)))
      (hr : right.HoldsSame (tree.put place (.file bytes)))
      (leads : left.locate path = .ok (place, some (.file bytes)))
      (leads' : right.locate path = .ok (place, some (.file bytes))) :
      EndsAlike mode path bytes tree (.ok (), left) (.ok (), right)
  /-- The path does not end in a name, and files are to be replaced: both refuse to replace the
  directory there, each in its own words, and change nothing. -/
  | directory {left right : FileTree} (hname : endsInName path = false)
      (hmode : mode ≠ .errorIfExists) (hl : left.HoldsSame tree) (hr : right.HoldsSame tree) :
      EndsAlike mode path bytes tree (.error (.file (.refused .busy path)), left)
        (.error (.file (.refused .isDirectory path)), right)

variable {tree : FileTree} {path : FilePath} {directory : Location} {module code : Text}
  {bytes : List UInt8} {make : FilePath → Text → Action FilePath} (client : Client)

/-- A directory that exists is not made. -/
theorem effectOf_ensureDirectories
    (h : tree.locate path = .ok (directory, some .directory)) :
    effectOf ((hostMaking make client).ensureDirectories path) tree = (.ok (), tree) := by
  have hmake : effectOf (makeDirectory path) tree = (.error (.refused .exists path), tree) := by
    rw [makeDirectory, effectOf_bind, effectOf_find, h]
    rfl
  have hkind : effectOf ((hostMaking make client).kind? path) tree =
      (.ok (some .directory), tree) := by
    rw [Host.kind?, effectOf_tryCatch, effectOf_map, hostMaking_kind, kind, effectOf_bind,
      effectOf_find, h]
    rfl
  have hensure : effectOf ((hostMaking make client).ensureDirectory path) tree =
      (.ok (), tree) := by
    have hmaking : effectOf ((hostMaking make client).makeDirectory path) tree =
        (.error (.refused .exists path), tree) := hmake
    rw [Host.ensureDirectory, effectOf_tryCatch, hmaking]
    simp only
    rw [Host.unlessDirectory, effectOf_bind, hkind]
    rfl
  unfold Host.ensureDirectories
  cases path.parts.length with
  | zero => exact hensure
  | succ fuel => rw [Host.ensureWithin, effectOf_tryCatch, hensure]

/-- Code is written directly into a file, or into none. -/
theorem effectOf_writeDirectly (path : FilePath) (tree : FileTree)
    (hb : Utf8.encode? code = some bytes) :
    effectOf ((hostMaking make client).writeDirectly path code) tree =
      match tree.locate path with
      | .error e => (.error (.file e), tree)
      | .ok (_, some .directory) => (.error (.file (.refused .isDirectory path)), tree)
      | .ok (place, _) => (.ok (), (tree.put place (.file [])).put place (.file bytes)) := by
  have hoctets : octetsOf code = .ok bytes := by rw [octetsOf, hb]
  -- the file is there and empty when the code is written into it
  have hfill {emptied : FileTree} {place : Location}
      (hl : emptied.locate path = .ok (place, some (.file []))) :
      effectOf (do
        let bytes ← Host.forOutput (liftM (octetsOf code))
        Host.forOutput ((hostMaking make client).write path bytes)) emptied =
      (.ok (), emptied.put place (.file bytes)) := by
    rw [effectOf_bind, effectOf_forOutput, effectOf_liftM, hoctets]
    simp only [Except.mapError]
    rw [effectOf_forOutput, hostMaking_write, effectOf_write hl]
    rfl
  rw [Host.writeDirectly, effectOf_bind, effectOf_forOutput, hostMaking_write, effectOf_write_eq]
  rcases hl : tree.locate path with e | ⟨place, _ | ⟨old | _⟩⟩
  · rfl
  · exact hfill (locate_put hl (by simp) (.file []))
  · exact hfill (locate_put hl (by simp) (.file []))
  · rfl

/-- In a directory, a path that ends in a name leads to what is kept there under the name. -/
theorem FileTree.locate_of_endsInName
    (hp : tree.locate path.parent = .ok (directory, some .directory)) (hf : Fits path)
    (hfault : path.fault? = none) (hname : endsInName path = true) :
    tree.locate path = .ok (step directory path.name, tree.get? (step directory path.name)) := by
  have hne : path.parts ≠ [] := by
    intro hnil
    simp [endsInName, hnil] at hname
  exact locate_of_parent hp hf hfault hne

/-- Whether a file can be moved to a path in a directory depends on the directories only. -/
theorem FileTree.targetFault?_congr {other : FileTree}
    (hp : tree.locate path.parent = .ok (directory, some .directory)) (hf : Fits path)
    (hfault : path.fault? = none) (hw : other.workingDirectory = tree.workingDirectory)
    (hd : ∀ p, other.get? p = some .directory ↔ tree.get? p = some .directory) :
    other.targetFault? path = tree.targetFault? path := by
  rw [targetFault?, targetFault?]
  by_cases hname : endsInName path = true
  · have hother := locate_directory hp (fun p => (hd p).mpr) hw
    rw [locate_of_endsInName hp hf hfault hname, locate_of_endsInName hother hf hfault hname]
    have hplace := hd (step directory path.name)
    generalize tree.get? (step directory path.name) = node at hplace ⊢
    generalize other.get? (step directory path.name) = node' at hplace ⊢
    rcases node with _ | ⟨old | _⟩ <;> rcases node' with _ | ⟨old' | _⟩ <;> simp at hplace ⊢
  · simp [hname]

/-- In a directory that exists, code that starts as it should is written in one step wherever a
file can be moved to. -/
theorem exists_effectOf_writeInOneStep
    (hp : tree.locate path.parent = .ok (directory, some .directory)) (hf : Fits path)
    (hm : MakesBeside make tree path) (hfault : path.fault? = none)
    (hb : Utf8.encode? code = some bytes) (hs : startsWithImport module code = true)
    (isChecked : Bool) :
    (∀ fault, tree.targetFault? path = some fault → ∃ left : FileTree,
      effectOf ((hostMaking make client).writeInOneStep module path code isChecked) tree =
        (.error (.file fault), left) ∧ left.HoldsSame tree) ∧
    (tree.targetFault? path = none → ∃ left : FileTree,
      effectOf ((hostMaking make client).writeInOneStep module path code isChecked) tree =
        (.ok (), left) ∧
      left.HoldsSame (tree.put (step directory path.name) (.file bytes)) ∧
      left.locate path = .ok (step directory path.name, some (.file bytes))) := by
  obtain ⟨temporary, origin, hfree, hmade, hl⟩ := hm.of_name hfault
  have hcheck : ¬ (isChecked && !startsWithImport module code) = true := by simp [hs]
  have hfilled := get?_put_put_eq_directory hfree [] bytes
  have htarget : ((tree.put origin (.file [])).put origin (.file bytes)).targetFault? path =
    tree.targetFault? path := targetFault?_congr hp hf hfault rfl hfilled
  rw [effectOf_writeInOneStep, effectOf_ensureDirectories client hp]
  simp only
  rw [hmade]
  simp only
  rw [effectOf_fillAndMove make client module path code isChecked hl, hb]
  simp only
  rw [if_neg hcheck, htarget]
  constructor
  · intro fault ht
    rw [ht]
    simp only
    rw [effectOf_discard make client (locate_put hl (by simp) (.file bytes))]
    exact ⟨_, rfl, rfl, get?_erase_put_put hfree _ _⟩
  · intro ht
    rw [ht]
    obtain ⟨-, hmoved, hget⟩ := locate_moved hfree (htarget.trans ht)
    have hname := endsInName_of_targetFault? ht
    have hplace := placeOf_of_locate (locate_of_endsInName
      (locate_directory hp (fun p => (hfilled p).mpr) rfl) hf hfault hname)
    rw [← hplace] at hmoved hget
    rw [← hplace]
    exact ⟨_, rfl, ⟨rfl, hget⟩, hmoved⟩

/-- Where no file can have the path, nothing is written in one step. -/
theorem effectOf_writeInOneStep_of_fault {fault : FileFault}
    (hp : tree.locate path.parent = .ok (directory, some .directory))
    (hm : MakesBeside make tree path) (hfault : path.fault? = some fault) (module code : Text)
    (isChecked : Bool) :
    effectOf ((hostMaking make client).writeInOneStep module path code isChecked) tree =
      (.error (.file fault), tree) := by
  rw [effectOf_writeInOneStep, effectOf_ensureDirectories client hp]
  simp only
  rw [hm.of_fault hfault]

/-- In a directory that exists, code that starts as it should is written in one step as it is
written directly. -/
theorem endsAlike_write (hc : tree.IsClosed)
    (hp : tree.locate path.parent = .ok (directory, some .directory)) (hf : Fits path)
    (hm : MakesBeside make tree path) (hb : Utf8.encode? code = some bytes)
    (hs : startsWithImport module code = true) (isChecked : Bool) {mode : OutputMode}
    (hmode : endsInName path = false → mode ≠ .errorIfExists) :
    EndsAlike mode path bytes tree
      (effectOf ((hostMaking make client).writeInOneStep module path code isChecked) tree)
      (effectOf ((hostMaking make client).writeDirectly path code) tree) := by
  have hsame := HoldsSame.refl tree
  rw [effectOf_writeDirectly client path tree hb]
  rcases hfault : path.fault? with _ | fault
  swap
  · rw [effectOf_writeInOneStep_of_fault client hp hm hfault, locate, hfault]
    exact .failed hsame hsame
  have hone := exists_effectOf_writeInOneStep client hp hf hm hfault hb hs isChecked
  by_cases hname : endsInName path = true
  · have hl := locate_of_endsInName hp hf hfault hname
    by_cases hnode : tree.get? (step directory path.name) = some .directory
    · have hfault : tree.targetFault? path = some (.refused .isDirectory path) := by
        simp [targetFault?, hname, hl, hnode]
      obtain ⟨left, heffect, hleft⟩ := hone.1 _ hfault
      rw [heffect, hl, hnode]
      exact .failed hleft hsame
    · have hfault : tree.targetFault? path = none := by
        simp [targetFault?, hname, hl, hnode]
      obtain ⟨left, heffect, hleft, hleads⟩ := hone.2 hfault
      have hplace : step directory path.name ≠ [] := ne_nil_of_get? rfl hnode
      have hdirect : (tree.put (step directory path.name) (.file [])).put
          (step directory path.name) (.file bytes) |>.HoldsSame
          (tree.put (step directory path.name) (.file bytes)) :=
        ⟨rfl, get?_put_put tree hplace _ _⟩
      have hleads' := locate_put (locate_put hl hnode (.file [])) (by simp) (.file bytes)
      rw [heffect, hl]
      generalize tree.get? (step directory path.name) = node at hnode
      rcases node with _ | ⟨old | _⟩
      · exact .written hleft hdirect hleads hleads'
      · exact .written hleft hdirect hleads hleads'
      · exact absurd rfl hnode
  · have hname : endsInName path = false := by simpa using hname
    obtain ⟨-, place, hl⟩ := hc.exists_directory hp hf hname
    have hfault : tree.targetFault? path = some (.refused .busy path) := by
      rw [targetFault?, hname]
      rfl
    obtain ⟨left, heffect, hleft⟩ := hone.1 _ hfault
    rw [heffect, hl]
    exact .directory hname (hmode hname) hleft hsame

/-- In a directory that exists, code that starts as it should is written alike with settings that
differ only in the way of writing. -/
theorem endsAlike_writeOutput (hc : tree.IsClosed)
    (hp : tree.locate path.parent = .ok (directory, some .directory)) (hf : Fits path)
    (hm : MakesBeside make tree path) (hb : Utf8.encode? code = some bytes)
    (hs : startsWithImport module code = true) (output : OutputSettings) :
    EndsAlike output.mode path bytes tree
      (effectOf ((hostMaking make client).writeOutput module
        { output with atomic := .bool true } path code) tree)
      (effectOf ((hostMaking make client).writeOutput module
        { output with atomic := .bool false } path code) tree) := by
  have hsame := HoldsSame.refl tree
  have hwrite (mode : OutputMode) (hmode : endsInName path = false → mode ≠ .errorIfExists) :=
    endsAlike_write client hc hp hf hm hb hs output.checkFirst.isTruthy hmode
  rw [Host.writeOutput, Host.writeOutput]
  by_cases hmode : output.mode = .errorIfExists
  · rw [hmode]
    change EndsAlike _ path bytes tree
      (effectOf ((hostMaking make client).writeNew module path code _) tree)
      (effectOf ((hostMaking make client).refuseExisting path >>= fun _ =>
        (hostMaking make client).writeDirectly path code) tree)
    rw [Host.writeNew, effectOf_bind, effectOf_bind]
    have hkeeps := keeps_refuseExisting make client path tree
    rcases hr : effectOf ((hostMaking make client).refuseExisting path) tree with ⟨e | _, t⟩ <;>
      obtain rfl : t = tree := (hkeeps.trans (congrArg Prod.snd hr)).symm
    · exact .failed hsame hsame
    · refine hwrite .errorIfExists fun hname => ?_
      -- the directory there would have been refused
      obtain ⟨-, place, hl⟩ := hc.exists_directory hp hf hname
      cases hr.symm.trans (effectOf_refuseExisting make client hl)
  · have hwrite := hwrite output.mode fun _ => hmode
    rcases hcases : output.mode with _ | _ | value
    · exact absurd hcases hmode
    · rw [hcases] at hwrite
      exact hwrite
    · rw [hcases] at hwrite
      exact hwrite

/-- Generating into a file that code is generated for is writing the code. -/
theorem run_generateToFile {document : Value} {settings : Settings} {notes : List Text}
    (h : generate document settings = (.ok code, notes))
    (hmodule : settings.module.plain = .ok module) (output : OutputSettings) :
    StateT.run ((hostMaking make client).generateToFile document
        { settings with output := .settings output } path) tree =
      let written := effectOf ((hostMaking make client).writeOutput module output path code) tree
      ((written.1.mapError .writing, notes), written.2) := by
  rw [Host.generateToFile, generate_withOutput, h, Settings.outputSettings]
  simp only
  rw [hmodule]
  rfl

/-- No file can have the path of a temporary file for the reason that no file can have the path that
it is for. -/
theorem fault?_temporaryName (path : FilePath) (n : Nat) :
    (path.parent.child (temporaryName path.name n)).fault? = path.fault? := by
  have hname (isOfSort : CodePoint → Bool)
      (hplain : ∀ c : CodePoint, 0 < c.value ∧ c.value < 0x80 → isOfSort c = false) :
      (temporaryName path.name n).any isOfSort = path.name.any isOfSort := by
    have hend : (("." : Text) ++ Numeral.padded 8 n ++ ".tmp").any isOfSort = false :=
      List.any_eq_false.mpr fun c hc => by simp [hplain c (value_of_mem_temporaryEnd hc)]
    simp only [List.any_append, Bool.or_eq_false_iff] at hend
    simp [temporaryName, hend]
  have hsurrogate := hname (fun c => c.isSurrogate && !FilePath.isLoneOctet c) fun c hc => by
    simp only [CodePoint.isSurrogate, Bool.and_eq_false_iff, decide_eq_false_iff_not]
    omega
  have hnull := hname (fun c => c.value = 0) fun c hc => by simpa using Nat.ne_of_gt hc.1
  rw [FilePath.fault?, FilePath.hasSurrogate_eq, FilePath.hasNull_eq, FilePath.parent_child,
    FilePath.name_child, hsurrogate, hnull, ← FilePath.hasSurrogate_eq, ← FilePath.hasNull_eq,
    FilePath.fault?]

/-- In a directory that exists, temporary files under the first free name are new, unless that name
is too long. -/
theorem makesBeside_makeTemporary (hp : tree.locate path.parent = .ok (directory, some .directory))
    (hf : Fits (path.parent.child (tree.freeName directory path.name))) :
    MakesBeside makeTemporary tree path := by
  have hmake : effectOf (makeTemporary path.parent path.name) tree =
      effectOf (do
        write (path.parent.child (tree.freeName directory path.name)) []
        return path.parent.child (tree.freeName directory path.name)) tree := by
    rw [makeTemporary, effectOf_bind, effectOf_find, hp]
    simp only [effectOf_bind, effectOf_get]
  have hfault : (path.parent.child (tree.freeName directory path.name)).fault? = path.fault? :=
    fault?_temporaryName path _
  constructor
  · intro fault h
    rw [hmake, effectOf_bind, effectOf_write_eq, locate, hfault, h]
  · intro h
    have hl := locate_of_parent (by rwa [FilePath.parent_child]) hf (hfault.trans h)
      (by simp [FilePath.child])
    rw [FilePath.name_child, get?_freeName] at hl
    refine ⟨_, _, get?_freeName tree directory path.name, ?_, locate_put hl (by simp) _⟩
    rw [hmake, effectOf_bind, effectOf_write_eq, hl]
    rfl

/-- In a directory that exists, generating into a file ends alike with settings that differ only in
the way of writing; the check before writing never refuses the code. -/
theorem both_ways_end_alike {document : Value} {settings : Settings}
    (h : (generate document settings).1 = .ok code) (hb : Utf8.encode? code = some bytes)
    (hc : tree.IsClosed) (hp : tree.locate path.parent = .ok (directory, some .directory))
    (hf : Fits path) (hm : MakesBeside make tree path) (output : OutputSettings) :
    let run (atomic : Bool) := StateT.run ((hostMaking make client).generateToFile document
      { settings with output := .settings { output with atomic := .bool atomic } } path) tree
    (∀ module, settings.module.plain = .ok module → startsWithImport module code = true) ∧
      ∃ left right, EndsAlike output.mode path bytes tree left right ∧
        run true = ((left.1.mapError .writing, (generate document settings).2), left.2) ∧
        run false = ((right.1.mapError .writing, (generate document settings).2), right.2) := by
  intro run
  obtain ⟨module, hmodule, hprefix⟩ := exists_module_of_generate h
  have hs : startsWithImport module code = true := List.isPrefixOf_iff_prefix.mpr hprefix
  have hgenerate : generate document settings = (.ok code, (generate document settings).2) :=
    Prod.ext h rfl
  constructor
  · intro other hother
    cases hmodule.symm.trans hother
    exact hs
  · exact ⟨_, _, endsAlike_writeOutput client hc hp hf hm hb hs output,
      run_generateToFile client hgenerate hmodule _, run_generateToFile client hgenerate hmodule _⟩

/-- A definition of a text. -/
def textDocument : Value := documentWith [("A", .map [("type", "string")])]

/-- A tree with one empty file. -/
def treeOfOne : FileTree := ⟨[(["out.ts"], .file [])], []⟩

theorem isClosed_treeOfOne : treeOfOne.IsClosed := by
  refine ⟨fun place node h => ?_, rfl⟩
  rcases place with _ | ⟨name, _ | ⟨next, rest⟩⟩
  · rfl
  · rfl
  · simp [treeOfOne, get?, List.lookup_cons] at h

/-- The code of the definition can be written. -/
theorem exists_code_textDocument : ∃ code bytes, generate textDocument {} = (.ok code, []) ∧
    Utf8.encode? code = some bytes := by
  have hnotes : (generate textDocument {}).2 = [] := by decide +kernel
  have hok : ((generate textDocument {}).1.toOption.bind Utf8.encode?).isSome = true := by
    decide +kernel
  rcases hcode : (generate textDocument {}).1 with e | code
  · simp [hcode, Except.toOption] at hok
  · obtain ⟨bytes, hb⟩ := Option.isSome_iff_exists.mp hok
    exact ⟨code, bytes, Prod.ext hcode hnotes, by simpa [hcode, Except.toOption] using hb⟩

/-- An empty file that is replaced in both ways. -/
theorem both_ways_end_alike_replaced :
    let path : FilePath := ⟨[], ["out.ts"]⟩
    let run (atomic : Bool) := StateT.run ((host .offline).generateToFile textDocument
      { output := .settings { mode := .force, atomic := .bool atomic } } path) treeOfOne
    ∃ code bytes left right, (generate textDocument {}).1 = .ok code ∧
      Utf8.encode? code = some bytes ∧ treeOfOne.IsClosed ∧
      treeOfOne.locate path.parent = .ok ([], some .directory) ∧ Fits path ∧
      MakesBeside makeTemporary treeOfOne path ∧
      EndsAlike .force path bytes treeOfOne left right ∧
      run true = ((left.1.mapError .writing, []), left.2) ∧
      run false = ((right.1.mapError .writing, []), right.2) := by
  intro path run
  have hp : treeOfOne.locate path.parent = .ok ([], some .directory) := by decide +kernel
  have hf : Fits path := ⟨by decide +kernel, by decide +kernel⟩
  have hm : MakesBeside makeTemporary treeOfOne path :=
    makesBeside_makeTemporary hp ⟨by decide +kernel, by decide +kernel⟩
  obtain ⟨code, bytes, hcode, hb⟩ := exists_code_textDocument
  have hok : (generate textDocument {}).1 = .ok code := by rw [hcode]
  obtain ⟨-, left, right, halike, hleft, hright⟩ := both_ways_end_alike .offline hok hb
    isClosed_treeOfOne hp hf hm { mode := .force }
  rw [hcode] at hleft hright
  exact ⟨code, bytes, left, right, hok, hb, isClosed_treeOfOne, hp, hf, hm, halike, hleft, hright⟩

/-- At the path of the directory itself the two ways end in different errors, although the code can
be generated and written. -/
theorem both_ways_differ_at_directory :
    let path : FilePath := ⟨[], []⟩
    let run (atomic : Bool) := StateT.run ((host .offline).generateToFile textDocument
      { output := .settings { mode := .force, atomic := .bool atomic } } path) treeOfOne
    (∃ code bytes, (generate textDocument {}).1 = .ok code ∧ Utf8.encode? code = some bytes) ∧
      treeOfOne.IsClosed ∧ treeOfOne.locate path.parent = .ok ([], some .directory) ∧
      Fits path ∧ MakesBeside makeTemporary treeOfOne path ∧
      (run true).1.1 = .error (.writing (.file (.refused .busy path))) ∧
      (run false).1.1 = .error (.writing (.file (.refused .isDirectory path))) := by
  intro path run
  have hp : treeOfOne.locate path.parent = .ok ([], some .directory) := by decide +kernel
  have hf : Fits path := ⟨by decide +kernel, by decide +kernel⟩
  have hm : MakesBeside makeTemporary treeOfOne path :=
    makesBeside_makeTemporary hp ⟨by decide +kernel, by decide +kernel⟩
  obtain ⟨code, bytes, hcode, hb⟩ := exists_code_textDocument
  have hok : (generate textDocument {}).1 = .ok code := by rw [hcode]
  obtain ⟨module, hmodule, hprefix⟩ := exists_module_of_generate hok
  have hs : startsWithImport module code = true := List.isPrefixOf_iff_prefix.mpr hprefix
  have hrun (output : OutputSettings) :
      StateT.run ((host .offline).generateToFile textDocument
        { output := .settings output } path) treeOfOne =
      let written := effectOf ((hostMaking makeTemporary .offline).writeOutput
        module output path code) treeOfOne
      ((written.1.mapError .writing, []), written.2) :=
    run_generateToFile .offline hcode hmodule output
  refine ⟨⟨code, bytes, hok, hb⟩, isClosed_treeOfOne, hp, hf, hm, ?_, ?_⟩
  · obtain ⟨left, heffect, -⟩ :=
      (exists_effectOf_writeInOneStep .offline hp hf hm rfl hb hs true).1 _ rfl
    have hwrite := hrun { mode := .force, atomic := .bool true }
    change _ =
      ((Except.mapError _ (effectOf (Host.writeInOneStep _ module path code true) _).1, _), _)
      at hwrite
    rw [heffect] at hwrite
    exact congrArg (fun r => r.1.1) hwrite
  · have heffect : effectOf ((hostMaking makeTemporary .offline).writeDirectly path code)
        treeOfOne = (.error (.file (.refused .isDirectory path)), treeOfOne) :=
      effectOf_writeDirectly .offline path treeOfOne hb
    have hwrite := hrun { mode := .force, atomic := .bool false }
    change _ = ((Except.mapError _ (effectOf (Host.writeDirectly _ path code) _).1, _), _) at hwrite
    rw [heffect] at hwrite
    exact congrArg (fun r => r.1.1) hwrite

end ZodSchemas
