import Mathlib.Data.List.Forall2
import ZodSchemas.Proofs.Validation.Leaves
import ZodSchemas.Proofs.Validation.Verdict

/-!
# What parsing leaves of a value

Parsing drops entries of mappings and nothing else. Atoms stay, a list keeps its
items in their order, and of a mapping those entries are left whose keys the
object declares, in the order in which it declares them. Absence never becomes
data: what is present leaves something, and what is absent leaves nothing.
-/

namespace ZodSchemas

open Validation

/-- The first value is left of the second when entries of mappings are dropped, at any depth. -/
inductive Value.Restricts : Value → Value → Prop where
  /-- Nothing is dropped. -/
  | refl (v : Value) : Restricts v v
  /-- A list keeps its items, each of which may lose something. -/
  | list {left items : List Value} {v : Value} (listed : listItems? v = some items)
      (length : left.length = items.length) (each : ∀ p ∈ left.zip items, Restricts p.1 p.2) :
      Restricts (.list left) v
  /-- A mapping keeps some of its keys, and what stands under each may lose something. -/
  | map {left entries : Entries Value} {v : Value} (mapping : v.entries? = some entries)
      (kept : ∀ e ∈ left, Entries.has e.1 entries = true)
      (each : ∀ e ∈ left, ∀ w, Entries.find? e.1 entries = some w → Restricts e.2 w) :
      Restricts (.map left) v

namespace Registry

/-- What a node leaves of a value. -/
inductive Trims (registry : Registry) : Node → Value → Value → Prop where
  /-- A node without others in it leaves all. -/
  | leaf {node : Node} {v : Value} (simple : node.isLeaf = true) : Trims registry node v v
  /-- So does one that accepts anything. -/
  | unknown {v : Value} : Trims registry .unknown v v
  /-- A reference leaves what its body does. -/
  | lazy {ref : Ref} {body : Node} {v left : Value} (found : registry.body ref = .ok body)
      (trimmed : Trims registry body v left) : Trims registry (.lazy ref) v left
  /-- What is optional leaves what it does when it is needed. -/
  | optional {inner : Node} {v left : Value} (trimmed : Trims registry inner v left) :
      Trims registry (.optional inner) v left
  /-- Null stays. -/
  | null {inner : Node} : Trims registry (.nullable inner) .null .null
  /-- What is nullable leaves of anything else what it does when it is not. -/
  | nullable {inner : Node} {v left : Value} (present : v ≠ .null)
      (trimmed : Trims registry inner v left) : Trims registry (.nullable inner) v left
  /-- A union leaves what one of its options does. -/
  | option {options : List Node} {option : Node} {v left : Value} (member : option ∈ options)
      (trimmed : Trims registry option v left) : Trims registry (.union options) v left
  /-- A list keeps all items. -/
  | array {element : Node} {v : Value} {items left : List Value}
      (listed : listItems? v = some items) (length : items.length = left.length)
      (each : ∀ p ∈ items.zip left, Trims registry element p.1 p.2) :
      Trims registry (.array element) v (.list left)
  /-- Of a mapping exactly the declared properties that are present stay, in the order of their
  declaration. -/
  | object {nodes : Entries Node} {required : List Key} {v : Value} {entries left : Entries Value}
      (mapping : v.entries? = some entries)
      (keys : Entries.keys left = (Entries.keys nodes).filter fun key => Entries.has key entries)
      (each : ∀ p ∈ (nodes.filter fun e => Entries.has e.1 entries).zip left,
        ∀ w, Entries.find? p.1.1 entries = some w → Trims registry p.1.2 w p.2.2) :
      Trims registry (.object nodes required) v (.map left)

end Registry

/-- What a partial function gives stands in the order of what it is given for. -/
theorem forall₂_filterMap {α β : Type} (g : α → Option β) (l : List α) :
    List.Forall₂ (fun a b => g a = some b) (l.filter fun a => (g a).isSome) (l.filterMap g) := by
  induction l with
  | nil => exact .nil
  | cons a rest ih =>
    cases h : g a with
    | none => simpa [h] using ih
    | some b => simpa [h] using ih

/-- An item of the second of two lists has a partner in the first with the same image. -/
theorem exists_mem_zip_of_map_eq {α β γ : Type} {f : α → γ} {g : β → γ} {l : List α} {r : List β}
    (h : r.map g = l.map f) {b : β} (hb : b ∈ r) : ∃ a, (a, b) ∈ l.zip r ∧ g b = f a := by
  induction r generalizing l with
  | nil => simp at hb
  | cons first rest ih =>
    cases l with
    | nil => simp at h
    | cons a l =>
      obtain ⟨hfirst, hrest⟩ := List.cons.inj h
      rcases List.mem_cons.mp hb with rfl | hb
      · exact ⟨a, by simp, hfirst⟩
      · obtain ⟨other, hm, he⟩ := ih hrest hb
        exact ⟨other, List.mem_cons_of_mem _ hm, he⟩

/-- The items of two lists side by side have an index in the first. -/
theorem exists_mem_zip_zipIdx {α β : Type} {l : List α} {r : List β} {p : α × β}
    (h : p ∈ l.zip r) : ∃ index, ((p.1, index), p.2) ∈ l.zipIdx.zip r := by
  rw [← List.zipIdx_map_fst 0 l, List.zip_map_left] at h
  obtain ⟨q, hq, rfl⟩ := List.mem_map.mp h
  exact ⟨q.1.2, hq⟩

/-- Entries with the same keys one by one have the same keys. -/
theorem keys_eq_of_forall₂ {α β : Type} {entries : Entries α} {others : Entries β}
    (h : List.Forall₂ (fun e f => e.1 = f.1) entries others) :
    Entries.keys entries = Entries.keys others := by
  induction h with
  | nil => rfl
  | cons he _ ih => rw [Entries.keys_cons, Entries.keys_cons, he, ih]

/-- The keys of the entries that pass a test of their keys are the keys that pass. -/
theorem Entries.keys_filter {α : Type} (entries : Entries α) (test : Key → Bool) :
    Entries.keys (entries.filter fun e => test e.1) = (Entries.keys entries).filter test :=
  (List.filter_map ..).symm

namespace Registry

variable {registry : Registry} {node : Node} {v left : Value}

/-- What a node leaves of a value is a restriction of it. -/
theorem Trims.restricts (h : registry.Trims node v left) : left.Restricts v := by
  induction h with
  | leaf _ => exact .refl _
  | unknown => exact .refl _
  | lazy _ _ ih => exact ih
  | optional _ ih => exact ih
  | null => exact .refl _
  | nullable _ _ ih => exact ih
  | option _ _ ih => exact ih
  | @array element v items left listed length _ ih =>
    refine .list listed length.symm fun p hp => ih (p.2, p.1) ?_
    rw [← List.zip_swap]
    exact List.mem_map_of_mem (f := Prod.swap) hp
  | @object nodes required v entries left mapping keys _ ih =>
    have declared : ∀ e ∈ left, ∃ n, (n, e) ∈ (nodes.filter fun e => Entries.has e.1 entries).zip
        left ∧ e.1 = n.1 := by
      intro e he
      rw [← Entries.keys_filter nodes fun key => Entries.has key entries] at keys
      exact exists_mem_zip_of_map_eq keys he
    refine .map mapping (fun e he => ?_) fun e he w hw => ?_
    · obtain ⟨n, hm, hk⟩ := declared e he
      rw [hk]
      exact (List.mem_filter.mp (List.of_mem_zip hm).1).2
    · obtain ⟨n, hm, hk⟩ := declared e he
      exact ih (n, e) hm w (hk ▸ hw)

end Registry

namespace Validation

variable {registry : Registry} {node : Node} {value : Option Value} {path : Path}
  {verdict : Verdict}

/-- There is data exactly when there is a value. -/
theorem Derives.data_isSome (h : Derives registry node value path verdict) :
    verdict.data.isSome = value.isSome := by
  induction h with
  | unknown => rfl
  | lazy _ _ ih => exact ih
  | absent => rfl
  | required _ => rfl
  | leaf simple ruled => rw [(isAbout_of_isLeaf simple ruled).data]
  | optional _ ih => exact ih
  | null => rfl
  | nullable _ _ ih => exact ih
  | option _ _ _ _ _ _ _ ih => exact ih
  | noOption _ _ _ => rfl
  | object _ _ _ => rfl
  | noMapping _ => rfl
  | array _ _ _ => rfl
  | noList _ => rfl

/-- What is left of a mapping are the declared properties that are present, each with what its node
leaves. -/
theorem leaves_ofProperties {nodes : Entries Node} {entries : Entries Value}
    {verdicts : Key × Node → Verdict}
    (h : ∀ e ∈ nodes, Derives registry e.2 (Entries.find? e.1 entries) (path ++ [.key e.1])
      (verdicts e)) :
    List.Forall₂ (fun e left => e.1 = left.1 ∧ (verdicts e).data = some left.2)
      (nodes.filter fun e => Entries.has e.1 entries)
      (nodes.filterMap fun e => (verdicts e).data.map fun v => (e.1, v)) := by
  have present : ∀ e ∈ nodes,
      ((verdicts e).data.map fun v => (e.1, v)).isSome = Entries.has e.1 entries := by
    intro e he
    rw [Option.isSome_map, (h e he).data_isSome, Entries.has]
  rw [← List.filter_congr present]
  refine (forall₂_filterMap _ nodes).imp fun e left hl => ?_
  obtain ⟨v, hv, rfl⟩ := Option.map_eq_some_iff.mp hl
  exact ⟨rfl, hv⟩

/-- What is left of a list are its items, each with what the element's node leaves. -/
theorem leaves_ofElements {element : Node} {items : List Value} {verdicts : Value × Nat → Verdict}
    (h : ∀ p ∈ items.zipIdx, Derives registry element (some p.1) (path ++ [.index p.2])
      (verdicts p)) :
    List.Forall₂ (fun p left => (verdicts p).data = some left) items.zipIdx
      (items.zipIdx.filterMap fun p => (verdicts p).data) := by
  have present : items.zipIdx.filter (fun p => (verdicts p).data.isSome) = items.zipIdx := by
    refine List.filter_eq_self.mpr fun p hp => ?_
    rw [(h p hp).data_isSome]
    rfl
  have hleft := forall₂_filterMap (fun p => (verdicts p).data) items.zipIdx
  rwa [present] at hleft

/-- A verdict without issues leaves what the node leaves of the value. -/
theorem Derives.trims (h : Derives registry node value path verdict) (hi : verdict.issues = [])
    {v : Value} (hv : value = some v) :
    ∃ left, verdict.data = some left ∧ registry.Trims node v left := by
  induction h generalizing v with
  | unknown => exact ⟨v, hv, .unknown⟩
  | lazy found _ ih =>
    obtain ⟨left, hl, ht⟩ := ih hi hv
    exact ⟨left, hl, .lazy found ht⟩
  | absent => simp at hv
  | required _ => simp at hv
  | leaf simple ruled =>
    obtain rfl := Option.some.inj hv
    exact ⟨_, (isAbout_of_isLeaf simple ruled).data, .leaf simple⟩
  | optional _ ih =>
    obtain ⟨left, hl, ht⟩ := ih hi hv
    exact ⟨left, hl, .optional ht⟩
  | null =>
    obtain rfl := Option.some.inj hv
    exact ⟨.null, rfl, .null⟩
  | nullable present _ ih =>
    obtain rfl := Option.some.inj hv
    obtain ⟨left, hl, ht⟩ := ih hi rfl
    exact ⟨left, hl, .nullable present ht⟩
  | option _ split _ _ _ valid _ ih =>
    obtain ⟨left, hl, ht⟩ := ih valid hv
    exact ⟨left, hl, .option (by simp [split]) ht⟩
  | noOption _ _ _ => simp [Verdict.reject] at hi
  | @object nodes required u entries path verdicts mapping judged ih =>
    obtain rfl := Option.some.inj hv
    have hleft := leaves_ofProperties judged
    refine ⟨_, rfl, .object mapping ?_ fun p hp w hw => ?_⟩
    · rw [← Entries.keys_filter nodes fun key => Entries.has key entries]
      exact (keys_eq_of_forall₂ (hleft.imp fun _ _ h => h.1)).symm
    · obtain ⟨-, hd⟩ := (List.forall₂_iff_zip.mp hleft).2 hp
      have he : p.1 ∈ nodes := (List.mem_filter.mp (List.of_mem_zip hp).1).1
      have hvalid : (verdicts p.1).issues = [] := List.flatMap_eq_nil_iff.mp hi p.1 he
      obtain ⟨left, hl, ht⟩ := ih p.1 he hvalid hw
      obtain rfl : left = p.2.2 := by simpa [hl] using hd
      exact ht
  | noMapping _ => simp [Verdict.reject] at hi
  | @array element u items path verdicts listed judged ih =>
    obtain rfl := Option.some.inj hv
    have hleft := leaves_ofElements judged
    refine ⟨_, rfl, .array listed ?_ fun p hp => ?_⟩
    · simpa using hleft.length_eq
    · -- The index of an item only shows in the places of issues.
      obtain ⟨index, hp⟩ := exists_mem_zip_zipIdx hp
      have hd := (List.forall₂_iff_zip.mp hleft).2 hp
      have hm : (p.1, index) ∈ items.zipIdx := (List.of_mem_zip hp).1
      have hvalid := List.flatMap_eq_nil_iff.mp hi _ hm
      obtain ⟨left, hl, ht⟩ := ih _ hm hvalid rfl
      obtain rfl : left = p.2 := by simpa [hl] using hd
      exact ht
  | noList _ => simp [Verdict.reject] at hi

end Validation

/-- Parsing drops entries of mappings only, and exactly those that are not declared: the data is
present, it is a restriction of the value, and it is what the node leaves of the value. -/
theorem parse_only_drops {registry : Registry} {node : Node} {v : Value} {data : Option Value}
    (h : (parse registry node (some v)).outcome = .ok (.ok data)) :
    ∃ left, data = some left ∧ left.Restricts v ∧ registry.Trims node v left := by
  have hderived := derives_of_validateAt (parse_eq_data.mp h)
  obtain ⟨left, hl, ht⟩ := hderived.trims rfl rfl
  exact ⟨left, hl, ht.restricts, ht⟩

/-- Parts that hold parts, one of them behind a reference that may be null. -/
def partRegistry : Registry :=
  .ofEntries [] [("Part", .object
    [("size", .union [.number, .string []]), ("inner", .optional (.nullable (.lazy ⟨"Part", 0⟩))),
      ("tags", .optional (.array (.object [("name", .string [])] ["name"])))] ["size"])]

/-- A part with entries that are not declared, on every level. -/
def partValue : Value :=
  .map [("note", "new"), ("tags", .list [.map [("name", "a"), ("rank", .int 1)]]),
    ("inner", .map [("weight", .int 2), ("size", "big"), ("inner", .null)]), ("size", .int 3)]

/-- Parsing a part drops the entries that are not declared. -/
theorem parse_only_drops_part :
    (parse partRegistry (.lazy ⟨"Part", 0⟩) (some partValue)).outcome =
      .ok (.ok (some (.map [("size", .int 3),
        ("inner", .map [("size", "big"), ("inner", .null)]),
        ("tags", .list [.map [("name", "a")]])]))) ∧
    ∃ left, some (.map [("size", .int 3), ("inner", .map [("size", "big"), ("inner", .null)]),
        ("tags", .list [.map [("name", "a")]])]) = some left ∧
      left.Restricts partValue ∧ partRegistry.Trims (.lazy ⟨"Part", 0⟩) partValue left :=
  ⟨rfl, parse_only_drops rfl⟩

end ZodSchemas
