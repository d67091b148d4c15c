import Mathlib.Data.List.Nodup
import Mathlib.Data.List.Perm.Subperm
import ZodSchemas.Proofs.Files.Effects
import ZodSchemas.Proofs.Value.Reread

/-!
# Places in a file tree

Where a path leads depends only on the directories on the way: as long as they
stay, it leads to the same place, whatever is put there. The names for temporary
files are all different, so one of them is free in every directory.
-/

namespace ZodSchemas

namespace FileTree

variable {tree other : FileTree} {start place : Location} {parts : List Text} {path : FilePath}
  {node : Option FileNode} {name : Text}

/-- Where a path starts. -/
def startOf (tree : FileTree) (path : FilePath) : Location :=
  if path.root.isEmpty then tree.workingDirectory else []

/-- The place that a path names, whether or not it leads there. -/
def placeOf (tree : FileTree) (path : FilePath) : Location :=
  path.parts.foldl step (tree.startOf path)

/-- Without parts one stays in a directory. -/
theorem follow_nil_eq_ok :
    tree.follow start [] = .ok (place, node) ↔ start = place ∧ some .directory = node := by
  simp [follow]

/-- What is kept at a place that is followed to is what the tree has there. -/
theorem follow_eq_ok (h : tree.follow start parts = .ok (place, node)) :
    place = parts.foldl step start ∧ (parts ≠ [] → node = tree.get? place) := by
  induction parts generalizing start with
  | nil =>
    obtain ⟨rfl, -⟩ := follow_nil_eq_ok.mp h
    exact ⟨rfl, fun hne => absurd rfl hne⟩
  | cons part rest ih =>
    rw [follow] at h
    split at h
    · cases h
    · simp only at h
      split at h
      · obtain ⟨rfl, rfl⟩ : step start part = place ∧ tree.get? (step start part) = node := by
          simpa using h
        exact ⟨rfl, fun _ => rfl⟩
      · obtain ⟨hplace, hnode⟩ := ih h
        exact ⟨hplace, fun _ => hnode (by simp)⟩
      · cases h
      · cases h

/-- A path leads to the same place in a tree that has the same directories, or more of them. -/
theorem follow_of_directories
    (hd : ∀ p, tree.get? p = some .directory → other.get? p = some .directory)
    (h : tree.follow start parts = .ok (place, node)) :
    other.follow start parts =
      .ok (place, if parts = [] then some .directory else other.get? place) := by
  induction parts generalizing start with
  | nil =>
    obtain ⟨rfl, -⟩ := follow_nil_eq_ok.mp h
    rfl
  | cons part rest ih =>
    rw [follow] at h ⊢
    split at h
    · cases h
    · next hlong =>
      rw [if_neg hlong]
      simp only at h ⊢
      cases rest with
      | nil =>
        obtain ⟨rfl, -⟩ : step start part = place ∧ tree.get? (step start part) = node := by
          simpa using h
        simp
      | cons next others =>
        split at h
        · next heq => exact absurd heq (by simp)
        · next hget heq =>
          cases heq
          rw [hd _ hget]
          simpa using ih h
        · cases h
        · cases h

/-- A path that is located is followed from its start. -/
theorem locate_eq_ok :
    tree.locate path = .ok (place, node) ↔
      path.fault? = none ∧ FilePath.width path.text ≤ FilePath.longestPath ∧
        tree.follow (tree.startOf path) path.parts = .ok (place, node) := by
  rw [locate]
  split
  · next hfault => simp [hfault]
  · next hfault =>
    split
    · next hlong => simp [Nat.not_le.mpr hlong]
    · next hlong =>
      simp only [hfault, Nat.not_lt.mp hlong, true_and, startOf]
      cases tree.follow _ path.parts <;> simp [Except.mapError]

/-- A path leads to the place that it names. -/
theorem placeOf_of_locate (h : tree.locate path = .ok (place, node)) : place = tree.placeOf path :=
  (follow_eq_ok (locate_eq_ok.mp h).2.2).1

/-- A path without parts leads to a directory. -/
theorem parts_ne_nil_of_locate (h : tree.locate path = .ok (place, node))
    (hne : node ≠ some .directory) : path.parts ≠ [] := by
  intro hnil
  obtain ⟨-, -, hf⟩ := locate_eq_ok.mp h
  rw [hnil] at hf
  exact hne (follow_nil_eq_ok.mp hf).2.symm

/-- A path with parts leads to what the tree has at the place. -/
theorem get?_of_locate (h : tree.locate path = .ok (place, node)) (hne : path.parts ≠ []) :
    node = tree.get? place := (follow_eq_ok (locate_eq_ok.mp h).2.2).2 hne

/-- A path that leads to no directory leads to the same place in a tree that has the same
directories, or more of them. -/
theorem locate_of_directories (h : tree.locate path = .ok (place, node))
    (hne : node ≠ some .directory)
    (hd : ∀ p, tree.get? p = some .directory → other.get? p = some .directory)
    (hw : other.workingDirectory = tree.workingDirectory) :
    other.locate path = .ok (place, other.get? place) := by
  obtain ⟨hfault, hlong, hf⟩ := locate_eq_ok.mp h
  have hstart : other.startOf path = tree.startOf path := by rw [startOf, startOf, hw]
  have := follow_of_directories hd hf
  rw [if_neg (parts_ne_nil_of_locate h hne)] at this
  exact locate_eq_ok.mpr ⟨hfault, hlong, hstart ▸ this⟩

/-- The top is no place of a file and not free. -/
theorem ne_nil_of_get? (h : tree.get? place = node) (hne : node ≠ some .directory) :
    place ≠ [] := by
  rintro rfl
  exact hne h.symm

/-- A path that leads to no directory leads to the same place once something is put there. -/
theorem locate_put (h : tree.locate path = .ok (place, node)) (hne : node ≠ some .directory)
    (new : FileNode) : (tree.put place new).locate path = .ok (place, some new) := by
  have hget : tree.get? place ≠ some .directory :=
    get?_of_locate h (parts_ne_nil_of_locate h hne) ▸ hne
  have hd : ∀ p, tree.get? p = some .directory → (tree.put place new).get? p = some .directory := by
    intro p hp
    have hother : p ≠ place := by
      rintro rfl
      exact hget hp
    rw [get?_put_of_ne tree hother, hp]
  have hl := locate_of_directories h hne hd rfl
  rwa [get?_put_self tree (ne_nil_of_get? rfl hget)] at hl

end FileTree

namespace Numeral

/-- A padded number consists of digits. -/
theorem isDigit_of_mem_padded {width n : Nat} {c : CodePoint} (h : c ∈ padded width n) :
    c.isDigit = true := by
  rcases List.mem_append.mp h with hz | hd
  · rw [List.eq_of_mem_replicate hz]
    decide
  · exact isDigit_of_mem_decimal hd

/-- Zeros in front of digits do not change the number. -/
theorem decimal?_padded (width n : Nat) : decimal? (padded width n) = some n := by
  have hne : padded width n ≠ [] := by simp [padded, padLeft, decimal_ne_nil]
  have hall : (padded width n).all CodePoint.isDigit = true :=
    List.all_eq_true.mpr fun _ => isDigit_of_mem_padded
  have zeros : ∀ k digits, valueOf 10 (List.replicate k 0 ++ digits) = valueOf 10 digits := by
    intro k digits
    induction k with
    | zero => rfl
    | succ k ih => simpa [List.replicate_succ, valueOf] using ih
  have hvalue : valueOf 10 ((padded width n).map fun c => c.value - 0x30) =
      valueOf 10 ((decimal n).map fun c => c.value - 0x30) := by
    rw [padded, padLeft, List.map_append, List.map_replicate]
    exact zeros _ _
  have hd := decimal?_decimal n
  rw [decimal?, if_neg (by simp [decimal_ne_nil]),
    if_pos (List.all_eq_true.mpr fun c hc => isDigit_of_mem_decimal hc)] at hd
  rw [decimal?, if_neg (by simpa using hne), if_pos hall, hvalue, hd]

end Numeral

namespace FilePath

/-- The parts of a path are those of its parent and its name. -/
theorem parts_eq_concat {path : FilePath} (h : path.parts ≠ []) :
    path.parts = path.parent.parts ++ [path.name] := by
  rw [name, List.getLast?_eq_getLast_of_ne_nil h]
  exact (List.dropLast_append_getLast h).symm

/-- A path holds what its parent or its name holds. -/
theorem holds_eq (isOfSort : CodePoint → Bool) (path : FilePath) :
    path.holds isOfSort = (path.parent.holds isOfSort || path.name.any isOfSort) := by
  by_cases hne : path.parts = []
  · simp [holds, parent, name, hne]
  · have hparts := parts_eq_concat hne
    calc path.holds isOfSort
      _ = (path.parent.parts ++ [path.name]).any fun part => part.any isOfSort := by
        rw [holds, ← hparts]
      _ = (path.parent.holds isOfSort || path.name.any isOfSort) := by simp [holds]

theorem hasSurrogate_eq (path : FilePath) : path.hasSurrogate =
    (path.parent.hasSurrogate || path.name.any fun c => c.isSurrogate && !isLoneOctet c) :=
  holds_eq _ path

theorem hasNull_eq (path : FilePath) : path.hasNull =
    (path.parent.hasNull || path.name.any fun c => c.value = 0) := holds_eq _ path

@[simp] theorem parent_child (path : FilePath) (name : Text) : (path.child name).parent = path := by
  simp [parent, child]

@[simp] theorem name_child (path : FilePath) (part : Text) : (path.child part).name = part := by
  simp [name, child]

/-- There are more lone octets in front than are taken together behind the first. -/
theorem lt_of_spelled? {name : Text} {c : CodePoint} {behind : Nat}
    (h : spelled? name = some (c, behind)) : behind < name.length := by
  obtain ⟨n, -, hn⟩ := List.exists_of_findSome?_eq_some h
  split at hn
  · next heq _ =>
    cases hn
    have hlone : behind < (name.takeWhile isLoneOctet).length := by
      by_contra hle
      rw [List.drop_eq_nil_of_le (Nat.not_lt.mp hle)] at heq
      cases heq
    exact hlone.trans_le (List.takeWhile_prefix _).length_le
  · cases hn

/-- Code points that are no lone octets do not count where a name starts with others. -/
theorem spelled?_append {tail : Text} (h : ∀ c ∈ tail, isLoneOctet c = false) (name : Text) :
    spelled? (name ++ tail) = spelled? name := by
  have hlone : (name ++ tail).takeWhile isLoneOctet = name.takeWhile isLoneOctet := by
    have htail : tail.takeWhile isLoneOctet = [] := by
      cases tail with
      | nil => rfl
      | cons c rest => simp [h c (by simp)]
    rw [List.takeWhile_append, htail]
    split
    · next hall => rw [List.append_nil, (List.takeWhile_prefix _).eq_of_length hall]
    · rfl
  rw [spelled?, spelled?, hlone]

/-- Code points that are no lone octets are stored as they are. -/
theorem storedBehind_append {tail : Text} (h : ∀ c ∈ tail, isLoneOctet c = false) (name : Text)
    {behind : Nat} (hb : behind ≤ name.length) :
    storedBehind behind (name ++ tail) = storedBehind behind name ++ tail := by
  have hnone : ∀ {t : Text}, (∀ c ∈ t, isLoneOctet c = false) → spelled? t = none := by
    intro t ht
    have := spelled?_append ht []
    exact this
  have hplain : ∀ {t : Text}, (∀ c ∈ t, isLoneOctet c = false) → storedBehind 0 t = t := by
    intro t ht
    induction t with
    | nil => rfl
    | cons c rest ih =>
      rw [storedBehind, hnone ht]
      exact congrArg (c :: ·) (ih fun d hd => ht d (List.mem_cons_of_mem _ hd))
  induction name generalizing behind with
  | nil =>
    obtain rfl : behind = 0 := Nat.le_zero.mp hb
    exact hplain h
  | cons c rest ih =>
    cases behind with
    | succ behind => exact ih (Nat.le_of_succ_le_succ hb)
    | zero =>
      rw [List.cons_append, storedBehind, storedBehind, ← List.cons_append, spelled?_append h]
      split
      · next d behind hspelled =>
        have hle : behind ≤ rest.length := Nat.le_of_lt_succ (lt_of_spelled? hspelled)
        rw [ih hle, List.cons_append]
      · rw [ih (Nat.zero_le _), List.cons_append]

theorem stored_append {tail : Text} (h : ∀ c ∈ tail, isLoneOctet c = false) (name : Text) :
    stored (name ++ tail) = stored name ++ tail := storedBehind_append h name (Nat.zero_le _)

end FilePath

namespace FileTree

variable {tree : FileTree} {place : Location} {name : Text}

/-- The name of a temporary file leads to it and not back. -/
theorem temporaryName_ne_back (name : Text) (n : Nat) : temporaryName name n ≠ FilePath.back := by
  intro h
  have hl := congrArg List.length h
  simp [temporaryName, FilePath.back, Text.ofString] at hl
  omega

/-- What the name of a temporary file has behind the other name is in ASCII, and no null control. -/
theorem value_of_mem_temporaryEnd {n : Nat} {c : CodePoint}
    (h : c ∈ ("." : Text) ++ Numeral.padded 8 n ++ ".tmp") : 0 < c.value ∧ c.value < 0x80 := by
  have hletters : ∀ d ∈ (".tmp" : Text), 0 < d.value ∧ d.value < 0x80 := by decide
  simp only [List.mem_append] at h
  rcases h with (hpoint | hdigit) | hend
  · exact hletters c (List.mem_of_mem_take (i := 1) hpoint)
  · have hc := Numeral.isDigit_of_mem_padded hdigit
    simp only [CodePoint.isDigit, Bool.and_eq_true, decide_eq_true_eq] at hc
    omega
  · exact hletters c hend

/-- A temporary file is kept under the name that it is for, with a number of its own behind it. -/
theorem step_temporaryName (place : Location) (name : Text) (n : Nat) :
    step place (temporaryName name n) =
      place ++ [FilePath.stored (("." : Text) ++ name) ++
        (("." : Text) ++ Numeral.padded 8 n ++ ".tmp")] := by
  have hplain : ∀ c ∈ ("." : Text) ++ Numeral.padded 8 n ++ ".tmp",
      FilePath.isLoneOctet c = false := by
    intro c hc
    have hascii := (value_of_mem_temporaryEnd hc).2
    simp only [FilePath.isLoneOctet, Bool.and_eq_false_iff, decide_eq_false_iff_not]
    omega
  have hname : temporaryName name n =
      (("." : Text) ++ name) ++ (("." : Text) ++ Numeral.padded 8 n ++ ".tmp") := by
    simp [temporaryName]
  rw [step, if_neg (temporaryName_ne_back name n), hname, FilePath.stored_append hplain]

/-- The temporary files of a name are all kept at different places. -/
theorem step_temporaryName_injective (place : Location) (name : Text) :
    Function.Injective fun n => step place (temporaryName name n) := by
  intro a b h
  have hp : Numeral.padded 8 a = Numeral.padded 8 b := by
    simpa [step_temporaryName] using h
  simpa [Numeral.decimal?_padded] using congrArg Numeral.decimal? hp

/-- In every directory one of the names leads to a free place. -/
theorem get?_freeName (tree : FileTree) (place : Location) (name : Text) :
    tree.get? (step place (tree.freeName place name)) = none := by
  have hfound : ((List.range (tree.nodes.length + 1)).find? fun n =>
      (tree.get? (step place (temporaryName name n))).isNone).isSome := by
    rw [List.find?_isSome]
    by_contra hall
    push Not at hall
    -- otherwise there are more names than entries
    have hsub : (List.range (tree.nodes.length + 1)).map
        (fun n => step place (temporaryName name n)) ⊆ tree.nodes.map (·.1) := by
      intro p hp
      obtain ⟨n, hn, rfl⟩ := List.mem_map.mp hp
      have hsome : tree.get? (step place (temporaryName name n)) ≠ none := by
        simpa using hall n hn
      rw [get?, if_neg (by simp [step_temporaryName])] at hsome
      by_contra hmem
      refine hsome (List.lookup_eq_none_iff.mpr fun e he => ?_)
      simpa using fun heq => hmem (List.mem_map.mpr ⟨e, he, Eq.symm heq⟩)
    have hnodup : ((List.range (tree.nodes.length + 1)).map
        fun n => step place (temporaryName name n)).Nodup :=
      List.nodup_range.map (step_temporaryName_injective place name)
    have hle := (List.subperm_of_subset hnodup hsub).length_le
    rw [List.length_map, List.length_map, List.length_range] at hle
    omega
  obtain ⟨n, hn⟩ := Option.isSome_iff_exists.mp hfound
  have hfree := List.find?_some hn
  simp only [freeName, hn, Option.getD_some]
  simpa using hfree

end FileTree

end ZodSchemas
