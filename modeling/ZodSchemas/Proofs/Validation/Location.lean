import ZodSchemas.Proofs.Validation.Leaves
import ZodSchemas.Proofs.Validation.Verdict

/-!
# Where issues are

The path of an issue is followed from the value that was validated. It leads to
a part of the value, or to a property that the schema declares and that an
existing mapping there lacks; the latter exactly when the issue is that
something is required. Unions report nothing from inside their options, so the
schema at the end of a path is found without them.
-/

namespace ZodSchemas

open Validation

namespace Value

/-- The part of a value one step inside it: under a present key of a mapping, or at a valid index
of a list. -/
def step? (v : Value) : Step → Option Value
  | .key key => v.entries?.bind (Entries.find? key)
  | .index n => (listItems? v).bind fun items => items[n]?

/-- The part of a value at the end of a path. -/
def at? (v : Value) : Path → Option Value
  | [] => some v
  | step :: rest => (v.step? step).bind fun part => part.at? rest

variable {v part : Value} {path : Path}

/-- A path goes on from where its front leads. -/
theorem at?_append (h : v.at? path = some part) (rest : Path) :
    v.at? (path ++ rest) = part.at? rest := by
  induction path generalizing v with
  | nil => rw [List.nil_append, Option.some.inj h]
  | cons step more ih =>
    obtain ⟨between, hs, hb⟩ := Option.bind_eq_some_iff.mp h
    rw [List.cons_append, at?, hs]
    exact ih hb

/-- A path that leads somewhere leads there all the way. -/
theorem isSome_at?_dropLast (h : (v.at? path).isSome = true) :
    (v.at? path.dropLast).isSome = true := by
  induction path generalizing v with
  | nil => rfl
  | cons step rest ih =>
    cases rest with
    | nil => rfl
    | cons next more =>
      obtain ⟨_, hw⟩ := Option.isSome_iff_exists.mp h
      obtain ⟨between, hs, hb⟩ := Option.bind_eq_some_iff.mp hw
      rw [List.dropLast_cons_cons, at?, hs]
      exact ih (by rw [hb]; rfl)

/-- One step leads where it leads. -/
theorem at?_singleton (step : Step) : v.at? [step] = v.step? step := by
  rw [at?]
  cases v.step? step <;> rfl

/-- A key that a mapping has leads to its value. -/
theorem step?_key {entries : Entries Value} (h : v.entries? = some entries) (key : Key) :
    v.step? (.key key) = Entries.find? key entries := by
  rw [step?, h, Option.bind_some]

/-- The index of an item leads to it. -/
theorem step?_index {items : List Value} (h : listItems? v = some items) {p : Value × Nat}
    (hp : p ∈ items.zipIdx) : v.step? (.index p.2) = some p.1 := by
  rw [step?, h, Option.bind_some]
  exact List.mem_zipIdx_iff_getElem?.mp hp

end Value

/-- A node describes what stands at the end of a path. -/
inductive Registry.DescribesAt (registry : Registry) : Node → Path → Node → Prop where
  /-- At the end is the node itself. -/
  | here {node : Node} : DescribesAt registry node [] node
  /-- What is nullable describes what it does when it is not. -/
  | nullable {inner node : Node} {path : Path} (described : DescribesAt registry inner path node) :
      DescribesAt registry (.nullable inner) path node
  /-- What is optional describes what it does when it is needed. -/
  | optional {inner node : Node} {path : Path} (described : DescribesAt registry inner path node) :
      DescribesAt registry (.optional inner) path node
  /-- A reference describes what its body does. -/
  | lazy {ref : Ref} {body node : Node} {path : Path} (found : registry.body ref = .ok body)
      (described : DescribesAt registry body path node) : DescribesAt registry (.lazy ref) path node
  /-- An object describes what is under its keys. -/
  | property {nodes : Entries Node} {required : List Key} {key : Key} {inner node : Node}
      {path : Path} (declared : (key, inner) ∈ nodes)
      (described : DescribesAt registry inner path node) :
      DescribesAt registry (.object nodes required) (.key key :: path) node
  /-- A list describes what is at its indexes. -/
  | element {element node : Node} {index : Nat} {path : Path}
      (described : DescribesAt registry element path node) :
      DescribesAt registry (.array element) (.index index :: path) node

/-- Nothing is at a path, though the node declares it: up to its last step the path leads to a
mapping, and the last one is a key that the mapping lacks and the schema there declares. -/
inductive Registry.Lacks (registry : Registry) (node : Node) (v : Value) : Path → Prop where
  /-- A declared property of an existing mapping. -/
  | property (path : Path) {key : Key} {mapping : Value} {entries : Entries Value}
      {nodes : Entries Node} {required : List Key} (reached : v.at? path = some mapping)
      (exists_mapping : mapping.entries? = some entries)
      (lacking : Entries.find? key entries = none)
      (described : registry.DescribesAt node path (.object nodes required))
      (declared : key ∈ Entries.keys nodes) : Lacks registry node v (path ++ [.key key])

/-- An issue points at a real location: all steps of its path but the last lead to parts of the
value, the last one does so too or is a declared key that is lacking, and it is lacking exactly when
something is required. -/
structure Issue.IsPlaced (registry : Registry) (node : Node) (v : Value) (issue : Issue) :
    Prop where
  /-- All steps but the last lead to parts of the value. -/
  way : (v.at? issue.path.dropLast).isSome = true
  /-- So does the last one, or it is lacking. -/
  last : (v.at? issue.path).isSome = true ∨ registry.Lacks node v issue.path
  /-- What is not there is required, and nothing else is. -/
  absent : v.at? issue.path = none ↔ issue.message = "Required"

variable {registry : Registry} {node inner : Node} {v part : Value} {front : Path}

/-- What is lacking in a part is lacking in the value. -/
theorem Registry.Lacks.under {path : Path} (h : registry.Lacks inner part path)
    (hf : v.at? front = some part)
    (hd : ∀ path deep, registry.DescribesAt inner path deep →
      registry.DescribesAt node (front ++ path) deep) :
    registry.Lacks node v (front ++ path) := by
  cases h with
  | property path reached exists_mapping lacking described declared =>
    rw [← List.append_assoc]
    exact .property (front ++ path) ((Value.at?_append hf path).trans reached) exists_mapping
      lacking (hd path _ described) declared

namespace Issue

variable {issue : Issue}

/-- An issue seen from further outside twice. -/
theorem under_under (outer between : Path) (issue : Issue) :
    (issue.under between).under outer = issue.under (outer ++ between) := by
  simp only [under, List.append_assoc]

/-- A complaint about the value itself points at it. -/
theorem isPlaced_self {message : Text} (h : message ≠ "Required") :
    IsPlaced registry node v ⟨[], message⟩ where
  way := rfl
  last := .inl rfl
  absent := by simpa [Value.at?] using h

/-- The complaint that a declared property is required points at its key. -/
theorem isPlaced_property {nodes : Entries Node} {required : List Key} {e : Key × Node}
    {entries : Entries Value} (hv : v.entries? = some entries) (he : e ∈ nodes)
    (hn : Entries.find? e.1 entries = none) :
    IsPlaced registry (.object nodes required) v ⟨[.key e.1], "Required"⟩ where
  way := rfl
  last := .inr (.property [] rfl hv hn .here (List.mem_map_of_mem he))
  absent := by simp [Value.at?_singleton, Value.step?_key hv, hn]

/-- An issue that points into a part points into the value. -/
theorem IsPlaced.under (h : issue.IsPlaced registry inner part) (front : Path)
    (hf : v.at? front = some part)
    (hd : ∀ path deep, registry.DescribesAt inner path deep →
      registry.DescribesAt node (front ++ path) deep) :
    (issue.under front).IsPlaced registry node v where
  way := by
    obtain ⟨path, message⟩ := issue
    by_cases hp : path = []
    · subst hp
      rw [Issue.under, List.append_nil]
      exact Value.isSome_at?_dropLast (by rw [hf]; rfl)
    · rw [Issue.under, List.dropLast_append_of_ne_nil hp, Value.at?_append hf]
      exact h.way
  last := by
    rw [Issue.under, Value.at?_append hf]
    exact h.last.imp_right fun hl => hl.under hf hd
  absent := by
    rw [Issue.under, Value.at?_append hf]
    exact h.absent

/-- An issue of a node is one of another node that describes the same. -/
theorem IsPlaced.of_describes (h : issue.IsPlaced registry inner v)
    (hd : ∀ path deep, registry.DescribesAt inner path deep →
      registry.DescribesAt node path deep) : issue.IsPlaced registry node v :=
  h.under [] rfl hd

end Issue

namespace Validation

variable {value : Option Value} {path : Path} {verdict : Verdict}

/-- About what is absent nothing is said but that it is required, right where it is absent. -/
theorem Derives.eq_required (h : Derives registry node value path verdict) (hv : value = none) :
    ∀ issue ∈ verdict.issues, issue = ⟨path, "Required"⟩ := by
  induction h with
  | unknown => simp [Verdict.accept]
  | lazy _ _ ih => exact ih hv
  | absent => simp [Verdict.accept]
  | required _ => simp [Verdict.reject]
  | _ => simp at hv

/-- An issue of a part, as one of the value. -/
theorem exists_own_of_part {step : Step} {issue : Issue} (hs : v.step? step = some part)
    (hd : ∀ path deep, registry.DescribesAt inner path deep →
      registry.DescribesAt node (step :: path) deep)
    (h : ∃ own : Issue, issue = own.under (path ++ [step]) ∧ own.IsPlaced registry inner part) :
    ∃ own : Issue, issue = own.under path ∧ own.IsPlaced registry node v := by
  obtain ⟨own, rfl, hp⟩ := h
  refine ⟨own.under [step], (Issue.under_under path [step] own).symm, ?_⟩
  exact hp.under [step] ((Value.at?_singleton step).trans hs) hd

/-- The issues of a rejection with a message of its own point at the value. -/
theorem exists_own_of_about {issue : Issue} (h : issue.path = path ∧ issue.message ≠ "Required") :
    ∃ own : Issue, issue = own.under path ∧ own.IsPlaced registry node v := by
  obtain ⟨place, message⟩ := issue
  obtain ⟨rfl, hm⟩ := h
  exact ⟨⟨[], message⟩, by simp [Issue.under], Issue.isPlaced_self hm⟩

/-- The issues about a value that is present point into it. -/
theorem Derives.isPlaced (h : Derives registry node value path verdict) {v : Value}
    (hv : value = some v) :
    ∀ issue ∈ verdict.issues, ∃ own : Issue, issue = own.under path ∧
      own.IsPlaced registry node v := by
  intro issue hi
  induction h generalizing v with
  | unknown => simp [Verdict.accept] at hi
  | lazy found _ ih =>
    obtain ⟨own, he, hp⟩ := ih hv hi
    exact ⟨own, he, hp.of_describes fun _ _ => .lazy found⟩
  | absent => simp at hv
  | required _ => simp at hv
  | leaf simple ruled =>
    exact exists_own_of_about ((isAbout_of_isLeaf simple ruled).issues issue hi)
  | optional _ ih =>
    obtain ⟨own, he, hp⟩ := ih hv hi
    exact ⟨own, he, hp.of_describes fun _ _ => .optional⟩
  | null => simp [Verdict.accept] at hi
  | nullable _ _ ih =>
    obtain ⟨own, he, hp⟩ := ih hv hi
    exact ⟨own, he, hp.of_describes fun _ _ => .nullable⟩
  | option _ _ _ _ _ valid _ _ => simp [valid] at hi
  | noOption _ _ _ =>
    exact exists_own_of_about ((isAbout_reject (v := v) (by decide)).issues issue hi)
  | @object nodes required u entries path verdicts mapping judged ih =>
    obtain rfl := Option.some.inj hv
    obtain ⟨e, he, hi⟩ := List.mem_flatMap.mp hi
    cases hf : Entries.find? e.1 entries with
    | none =>
      -- Only here something is judged that is absent.
      have hr := (judged e he).eq_required hf issue hi
      exact ⟨⟨[.key e.1], "Required"⟩, hr, Issue.isPlaced_property mapping he hf⟩
    | some w =>
      exact exists_own_of_part ((Value.step?_key mapping e.1).trans hf)
        (fun _ _ => .property he) (ih e he hf hi)
  | noMapping _ =>
    exact exists_own_of_about ((isAbout_reject (expected_ne_required _ _)).issues issue hi)
  | @array element u items path verdicts listed judged ih =>
    obtain rfl := Option.some.inj hv
    obtain ⟨p, hp, hi⟩ := List.mem_flatMap.mp hi
    exact exists_own_of_part (Value.step?_index listed hp) (fun _ _ => .element) (ih p hp rfl hi)
  | noList _ =>
    exact exists_own_of_about ((isAbout_reject (expected_ne_required _ _)).issues issue hi)

end Validation

/-- When parsing fails there is an issue, and every issue points at a real location: a part of the
value, or, exactly when it says that something is required, a declared property that an existing
mapping lacks. -/
theorem issues_are_placed {issues : List Issue}
    (h : (parse registry node (some v)).outcome = .ok (.error issues)) :
    issues ≠ [] ∧ ∀ issue ∈ issues, issue.IsPlaced registry node v := by
  obtain ⟨⟨data, found⟩, hv, hr⟩ := parse_eq_ok.mp h
  cases found with
  | nil => simp at hr
  | cons first rest =>
    obtain rfl : issues = first :: rest := by simpa using hr
    refine ⟨by simp, fun issue hi => ?_⟩
    obtain ⟨own, rfl, hp⟩ := (derives_of_validateAt hv).isPlaced rfl issue hi
    exact hp

/-- Trees with named nodes, which refer to themselves. -/
def treeRegistry : Registry :=
  .ofEntries [] [("Tree", .object
    [("name", .lazy ⟨"Name", 0⟩), ("children", .optional (.array (.lazy ⟨"Tree", 0⟩)))] ["name"]),
    ("Name", .union [.string [], .object [("short", .string [])] ["short"]])]

/-- A tree with one child without a name, one with a name that is none, and one that is no tree. -/
def treeValue : Value :=
  .map [("name", "root"), ("children", .list [.map [("children", .list [])],
    .map [("name", .map [])], .int 1])]

/-- What is wrong with the tree: a name is lacking, another is wrong, and a child is. -/
def treeIssues : List Issue :=
  [⟨[.key "children", .index 0, .key "name"], "Required"⟩,
    ⟨[.key "children", .index 1, .key "name"], "Invalid input: no union option matched"⟩,
    ⟨[.key "children", .index 2], "Expected object, received int"⟩]

/-- The issues of the tree point into it. -/
theorem issues_are_placed_tree :
    (parse treeRegistry (.lazy ⟨"Tree", 0⟩) (some treeValue)).outcome = .ok (.error treeIssues) ∧
    treeIssues ≠ [] ∧
      ∀ issue ∈ treeIssues, issue.IsPlaced treeRegistry (.lazy ⟨"Tree", 0⟩) treeValue :=
  have failed : (parse treeRegistry (.lazy ⟨"Tree", 0⟩) (some treeValue)).outcome =
      .ok (.error treeIssues) := rfl
  ⟨failed, issues_are_placed failed⟩

end ZodSchemas
