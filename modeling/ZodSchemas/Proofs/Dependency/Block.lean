import ZodSchemas.Proofs.Dependency.Order

/-!
# The block that a name inserts

Placing a name takes it out of what remains before its dependencies are placed,
so fewer names remain in every call inside. Hence one function alone does what
placing says, and it ends whatever the state is. It inserts a block of names at
the position, which ends with the name and holds exactly what was taken out.
-/

namespace ZodSchemas

namespace Sequencer

/-- Place a name, given how the names that it depends on are placed. -/
def placeNext (place : Sequencer → Key → Nat → Sequencer × Nat) (s : Sequencer) (name : Key)
    (position : Nat) : Sequencer × Nat :=
  match Entries.find? name s.remaining with
  | none => (s, 0)
  | some dependencies =>
    let s : Sequencer :=
      ⟨Entries.erase name s.remaining, s.result.insertIdx position name⟩
    let (s, count) := placeEach place dependencies s position
    (s, count + 1)

/-- A function places names as it is said: it calls itself for what a name depends on. -/
def IsPlacing (place : Sequencer → Key → Nat → Sequencer × Nat) : Prop :=
  ∀ s name position, place s name position = placeNext place s name position

/-- A function adds nothing to what remains. -/
def Shrinks (place : Sequencer → Key → Nat → Sequencer × Nat) : Prop :=
  ∀ s name position, (place s name position).1.remaining.length ≤ s.remaining.length

variable {place other : Sequencer → Key → Nat → Sequencer × Nat} {s : Sequencer} {name : Key}
  {position : Nat}

/-- A name that does not remain inserts nothing. -/
theorem placeNext_of_gone (h : Entries.find? name s.remaining = none) :
    placeNext place s name position = (s, 0) := by
  simp only [placeNext, h]

/-- A name that remains is taken out and inserted, and then what it depends on. -/
theorem placeNext_of_found {dependencies : List Key}
    (h : Entries.find? name s.remaining = some dependencies) :
    placeNext place s name position =
      ((placeEach place dependencies
          ⟨Entries.erase name s.remaining, s.result.insertIdx position name⟩ position).1,
        (placeEach place dependencies
          ⟨Entries.erase name s.remaining, s.result.insertIdx position name⟩ position).2 + 1) := by
  simp only [placeNext, h]

/-- Names that are placed one after another add nothing to what remains. -/
theorem Shrinks.placeEach (h : Shrinks place) (names : List Key) (s : Sequencer)
    (position : Nat) :
    (Sequencer.placeEach place names s position).1.remaining.length ≤ s.remaining.length := by
  induction names generalizing s position with
  | nil => exact Nat.le_refl _
  | cons name names ih =>
    have hfirst := h s name position
    have hothers := ih (place s name position).1 (position + (place s name position).2)
    exact Nat.le_trans hothers hfirst

/-- Taking a name out adds nothing to what remains. -/
theorem Shrinks.placeNext (h : Shrinks place) : Shrinks (Sequencer.placeNext place) := by
  intro s name position
  cases hf : Entries.find? name s.remaining with
  | none =>
    have hsame : Sequencer.placeNext place s name position = (s, 0) := placeNext_of_gone hf
    exact Nat.le_of_eq (congrArg (fun placed => placed.1.remaining.length) hsame)
  | some dependencies =>
    have hl := Entries.length_erase (Entries.has_of_find? hf)
    have hi := h.placeEach dependencies
      ⟨Entries.erase name s.remaining, s.result.insertIdx position name⟩ position
    rw [placeNext_of_found hf]
    dsimp only at hi ⊢
    omega

/-- Placing adds nothing to what remains. -/
theorem shrinks_placeWithin (fuel : Nat) : Shrinks (placeWithin fuel) := by
  induction fuel with
  | zero => exact fun s _ _ => Nat.le_refl s.remaining.length
  | succ fuel ih => exact ih.placeNext

/-- Names are placed alike by functions that agree where fewer names remain. -/
theorem placeEach_congr {bound : Nat} (ho : Shrinks other)
    (h : ∀ t : Sequencer, t.remaining.length < bound →
      ∀ name position, place t name position = other t name position)
    (names : List Key) (hs : s.remaining.length < bound) (position : Nat) :
    placeEach place names s position = placeEach other names s position := by
  induction names generalizing s position with
  | nil => rfl
  | cons name names ih =>
    have hfirst := ho s name position
    have hlt : (other s name position).1.remaining.length < bound := by omega
    have hrest := ih hlt (position + (other s name position).2)
    simp only [placeEach, h s hs, hrest]

/-- The calls that placing a name makes are calls where fewer names remain. -/
theorem placeNext_congr (ho : Shrinks other)
    (h : ∀ t : Sequencer, t.remaining.length < s.remaining.length →
      ∀ name position, place t name position = other t name position)
    (name : Key) (position : Nat) :
    placeNext place s name position = placeNext other s name position := by
  cases hf : Entries.find? name s.remaining with
  | none =>
    rw [placeNext_of_gone hf, placeNext_of_gone hf]
  | some dependencies =>
    have hl := Entries.length_erase (Entries.has_of_find? hf)
    have hlt : (⟨Entries.erase name s.remaining, s.result.insertIdx position name⟩ :
        Sequencer).remaining.length < s.remaining.length := by
      dsimp only
      omega
    rw [placeNext_of_found hf, placeNext_of_found hf, placeEach_congr ho h dependencies hlt]

/-- Where nothing remains nothing is placed. -/
theorem placeWithin_of_length_eq_zero (fuel : Nat) (hs : s.remaining.length = 0) :
    placeWithin fuel s name position = (s, 0) := by
  have hgone : Entries.find? name s.remaining = none := by
    rw [List.eq_nil_of_length_eq_zero hs, Entries.find?]
  cases fuel with
  | zero => rfl
  | succ fuel => exact placeNext_of_gone hgone

/-- The bound on the depth is of no account once it is as large as what remains. -/
theorem placeWithin_congr {fuel more : Nat} (hf : s.remaining.length ≤ fuel)
    (hm : s.remaining.length ≤ more) (name : Key) (position : Nat) :
    placeWithin fuel s name position = placeWithin more s name position := by
  induction fuel generalizing more s name position with
  | zero =>
    have hs : s.remaining.length = 0 := by omega
    rw [placeWithin_of_length_eq_zero 0 hs, placeWithin_of_length_eq_zero more hs]
  | succ fuel ih =>
    cases more with
    | zero =>
      have hs : s.remaining.length = 0 := by omega
      rw [placeWithin_of_length_eq_zero _ hs, placeWithin_of_length_eq_zero 0 hs]
    | succ more =>
      refine placeNext_congr (shrinks_placeWithin more) (fun t ht name position => ?_) name position
      have htf : t.remaining.length ≤ fuel := by omega
      have htm : t.remaining.length ≤ more := by omega
      exact ih htf htm name position

/-- Placing places names as it is said. -/
theorem isPlacing_place : IsPlacing Sequencer.place := by
  intro s name position
  have hdeep : s.place name position = placeWithin (s.remaining.length + 1) s name position :=
    placeWithin_congr (Nat.le_refl _) (Nat.le_succ _) name position
  have hinside : ∀ t : Sequencer, t.remaining.length < s.remaining.length →
      ∀ name position, Sequencer.place t name position =
        placeWithin s.remaining.length t name position := by
    intro t ht name position
    exact placeWithin_congr (Nat.le_refl _) (Nat.le_of_lt ht) name position
  rw [hdeep]
  exact (placeNext_congr (shrinks_placeWithin _) hinside name position).symm

/-- Placing adds nothing to what remains. -/
theorem shrinks_place : Shrinks Sequencer.place :=
  fun s name position => shrinks_placeWithin s.remaining.length s name position

/-- Nothing but placing places names as it is said: the calls inside end, whatever the state. -/
theorem IsPlacing.eq_place (h : IsPlacing place) : place = Sequencer.place := by
  have agree : ∀ (bound : Nat) (s : Sequencer), s.remaining.length < bound →
      ∀ name position, place s name position = s.place name position := by
    intro bound
    induction bound with
    | zero => exact fun s hs => absurd hs (Nat.not_lt_zero _)
    | succ bound ih =>
      intro s hs name position
      rw [h s name position, isPlacing_place s name position]
      refine placeNext_congr shrinks_place (fun t ht => ?_) name position
      have hlt : t.remaining.length < bound := by omega
      exact ih t hlt
  funext s name position
  exact agree (s.remaining.length + 1) s (Nat.lt_succ_self _) name position

/-- What placing a name comes to: a block of names is inserted at the position. -/
structure InsertsBlock (s : Sequencer) (name : Key) (position : Nat) (placed : Sequencer × Nat)
    (block : List Key) : Prop where
  /-- The block comes of a visit, whose derivation is the tree of all calls that are made. -/
  ends : Visits [name] s.remaining placed.1.remaining block
  /-- What stood in front of the position and behind it stands there still. -/
  result : placed.1.result = s.result.take position ++ block ++ s.result.drop position
  /-- The number that comes with the state is that of the names in the block. -/
  count : placed.2 = block.length
  /-- A name that does not remain inserts nothing. -/
  gone : Entries.has name s.remaining = false → block = []
  /-- A name that remains is the last of its block. -/
  last : Entries.has name s.remaining = true → block.getLast? = some name
  /-- No name comes twice in the block. -/
  differ : KeysDiffer block
  /-- The names of the block are those that were taken out. -/
  taken : ∀ k, k.isAmong block =
    (Entries.has k s.remaining && !Entries.has k placed.1.remaining)
  /-- All others remain, in their order and with their dependencies. -/
  kept : placed.1.remaining.Sublist s.remaining

end Sequencer

namespace Visits

variable {name : Key} {block : List Key} {remaining rest : DependencyMap}

/-- The visit of a name that does not remain inserts nothing. -/
theorem block_of_gone (h : Visits [name] remaining rest block)
    (hn : Entries.has name remaining = false) : block = [] := by
  cases h with
  | skip _ others =>
    cases others
    rfl
  | visit found _ _ =>
    rw [Entries.has_of_find? found] at hn
    simp at hn

/-- The visit of a name that remains ends with the name. -/
theorem getLast?_block (h : Visits [name] remaining rest block)
    (hn : Entries.has name remaining = true) : block.getLast? = some name := by
  cases h with
  | skip gone _ =>
    simp [Entries.has, gone] at hn
  | visit _ _ others =>
    cases others
    exact List.getLast?_concat

/-- The names of a block are those that a visit takes out. -/
theorem isAmong_block {names : List Key} (h : Visits names remaining rest block)
    (hd : KeysDiffer (Entries.keys remaining)) (k : Key) :
    k.isAmong block = (Entries.has k remaining && !Entries.has k rest) := by
  rw [h.has_rest hd k]
  cases ha : k.isAmong block with
  | true =>
    rw [h.has_of_isAmong hd ha]
    rfl
  | false => cases Entries.has k remaining <;> rfl

end Visits

open Sequencer

/-- Placing is the one function that places names as it is said, so it ends in every state. In a
state whose remaining names differ it inserts a block at any position of the result: the block ends
with the name, is empty if the name does not remain, and holds exactly what is taken out. -/
theorem place_insertsBlock {s : Sequencer} (hd : KeysDiffer (Entries.keys s.remaining))
    (name : Key) {position : Nat} (hp : position ≤ s.result.length) :
    (∀ place, IsPlacing place ↔ place = Sequencer.place) ∧
      ∃ block, InsertsBlock s name position (s.place name position) block := by
  constructor
  · intro place
    constructor
    · exact fun h => h.eq_place
    · rintro rfl
      exact isPlacing_place
  · obtain ⟨rest, block, hv, he⟩ :=
      place_visits name s.remaining (s.result.take position) (s.result.drop position)
    have hlength : (s.result.take position).length = position := List.length_take_of_le hp
    rw [List.take_append_drop, hlength] at he
    refine ⟨block, ?_⟩
    rw [show s.place name position = _ from he]
    exact ⟨hv, rfl, rfl, hv.block_of_gone, hv.getLast?_block, hv.block_differ hd,
      hv.isAmong_block hd, hv.sublist⟩

/-- Names in the middle of being placed: two of those that remain lead to each other. -/
def halfPlaced : Sequencer :=
  ⟨[("B", ["C"]), ("A", ["X", "C", "B"]), ("C", ["A"]), ("D", [])], ["X", "Y"]⟩

/-- The block of a name that leads to two others goes between those that are placed. -/
theorem place_insertsBlock_halfPlaced :
    KeysDiffer (Entries.keys halfPlaced.remaining) ∧ 1 ≤ halfPlaced.result.length ∧
      (halfPlaced.place "A" 1).1.result = (["X", "C", "B", "A", "Y"] : List Key) ∧
      ∃ block, halfPlaced.InsertsBlock "A" 1 (halfPlaced.place "A" 1) block := by
  have hd : KeysDiffer (Entries.keys halfPlaced.remaining) := by
    unfold KeysDiffer
    decide
  exact ⟨hd, by decide, by decide, (place_insertsBlock hd "A" (by decide)).2⟩

end ZodSchemas
