import ZodSchemas.Conversion
import ZodSchemas.Value.Finite

/-!
# Conversion without a bound

The conversion of a schema only asks for the conversions of schemas inside it.
If every walk into the schema ends, the bound on the depth is never met: the
schema is converted by its form and by the conversions of the schemas inside.
-/

namespace ZodSchemas

namespace Entries

/-- What belongs to a key after a write was written or was there. -/
theorem mem_put {α : Type} {key : Key} {a : α} {entries : Entries α} {e : Key × α}
    (h : e ∈ put key a entries) : e.2 = a ∨ e ∈ entries := by
  induction entries with
  | nil => simp_all [put]
  | cons f rest ih =>
    obtain ⟨k, b⟩ := f
    rw [put] at h
    split at h
    · rcases List.mem_cons.mp h with rfl | h
      · exact .inl rfl
      · exact .inr (List.mem_cons_of_mem _ h)
    · rcases List.mem_cons.mp h with rfl | h
      · exact .inr (by simp)
      · exact (ih h).imp_right (List.mem_cons_of_mem _)

/-- What belongs to a key after a merge comes from one of the two sides. -/
theorem exists_of_mem_merge {α : Type} {entries others : Entries α} {e : Key × α}
    (h : e ∈ merge entries others) : e ∈ entries ∨ ∃ f ∈ others, e.2 = f.2 := by
  induction others generalizing entries with
  | nil => exact .inl h
  | cons f rest ih =>
    rcases ih h with h | ⟨g, hg, he⟩
    · rcases mem_put h with h | h
      · exact .inr ⟨f, by simp, h⟩
      · exact .inl h
    · exact .inr ⟨g, List.mem_cons_of_mem _ hg, he⟩

end Entries

namespace Value

/-- A value with entries is a mapping. -/
theorem shape_of_entries? {v : Value} {entries : Entries Value} (h : v.entries? = some entries) :
    v.shape = .map entries := by
  unfold entries? at h
  split at h
  · next listed hs => rw [hs, Option.some.inj h]
  · simp at h

/-- The parts of a mapping are what belongs to its keys. -/
theorem parts_of_entries? {v : Value} {entries : Entries Value} (h : v.entries? = some entries) :
    v.parts = entries.map (·.2) := by
  simp only [parts, shape_of_entries? h]

/-- The entries of a mapping are its parts. -/
theorem mem_parts_of_entries? {v : Value} {entries : Entries Value} {e : Key × Value}
    (h : v.entries? = some entries) (he : e ∈ entries) : e.2 ∈ v.parts := by
  rw [parts_of_entries? h]
  exact List.mem_map_of_mem he

/-- The items of a value are its parts, or have none themselves. -/
theorem mem_parts_of_items? {v w : Value} {items : List Value} (h : v.items? = some items)
    (hw : w ∈ items) : w ∈ v.parts ∨ ∃ key, w = .atom key := by
  unfold items? at h
  split at h
  all_goals
    simp only [Option.some.injEq, reduceCtorEq] at h
    try subst h
  · next hs => exact .inl (by simpa [parts, hs] using hw)
  · next hs => exact .inl (by simpa [parts, hs] using hw)
  all_goals
    obtain ⟨x, -, rfl⟩ := List.mem_map.mp hw
    exact .inr ⟨_, rfl⟩

/-- What holds of a value holds of all that is inside it; it holds of everything that a reader of
schemas may put in the place of a missing value. -/
structure IsHereditary (P : Value → Prop) : Prop where
  /-- It holds of the parts of a value. -/
  part : ∀ {v w : Value}, P v → w ∈ v.parts → P w
  /-- It holds of what has no parts. -/
  atom : ∀ key, P (.atom key)
  /-- It holds of a mapping without entries. -/
  empty : P (.map [])

/-- All that is inside a value fits wherever the value does. -/
theorem isHereditary_fits (n : Nat) : IsHereditary fun v => v.fits n = true where
  part := fits_of_mem_parts
  atom := fits_atom n
  empty := by cases n <;> rfl

namespace IsHereditary

variable {P : Value → Prop} {schema : Entries Value}

/-- It holds of the items of a value. -/
theorem of_itemsOf (hp : IsHereditary P) {v w : Value} {items : List Value} (h : P v)
    (hi : v.itemsOf = .ok items) (hw : w ∈ items) : P w := by
  unfold itemsOf at hi
  split at hi
  · next listed hl =>
    obtain rfl := Except.ok.inj hi
    rcases mem_parts_of_items? hl hw with hm | ⟨key, rfl⟩
    · exact hp.part h hm
    · exact hp.atom key
  · simp at hi

/-- It holds of the entries of a value. -/
theorem of_entries? (hp : IsHereditary P) {v : Value} {entries : Entries Value} {e : Key × Value}
    (h : P v) (hv : v.entries? = some entries) (he : e ∈ entries) : P e.2 :=
  hp.part h (mem_parts_of_entries? hv he)

/-- It holds of what belongs to a keyword, or stands in its place. -/
theorem orEmpty (hp : IsHereditary P) {key : Key} (hs : ∀ e ∈ schema, P e.2) :
    P (Value.orEmpty (Entries.find? key schema)) := by
  unfold Value.orEmpty
  split
  · next v hv =>
    split
    · obtain ⟨k, -, hm⟩ := Entries.mem_of_find? hv
      exact hs (k, v) hm
    · exact hp.empty
  · exact hp.empty

/-- It holds of declared properties. -/
theorem of_declaredProperties (hp : IsHereditary P) {properties : Entries Value}
    (hs : ∀ e ∈ schema, P e.2) (h : declaredProperties schema = .ok properties) :
    ∀ e ∈ properties, P e.2 := by
  intro e he
  unfold declaredProperties at h
  dsimp only at h
  split at h
  · next entries hv =>
    obtain rfl := Except.ok.inj h
    exact hp.of_entries? (hp.orEmpty hs) hv he
  · simp at h

/-- It holds of all properties after a member was taken along. -/
theorem of_add (hp : IsHereditary P) {merged result : Merged} {member : Value} (hm : P member)
    (hs : ∀ e ∈ merged.properties, P e.2) (h : merged.add member = .ok result) :
    ∀ e ∈ result.properties, P e.2 := by
  obtain ⟨schema, hv, h⟩ := exceptBind_eq_ok.mp h
  have hschema : ∀ e ∈ schema, P e.2 := by
    intro e he
    refine hp.of_entries? hm ?_ he
    unfold Value.entriesOf at hv
    split at hv
    · next hl => exact hl.trans (congrArg some (Except.ok.inj hv))
    · simp at hv
  split at h
  · obtain ⟨properties, hd, h⟩ := exceptBind_eq_ok.mp h
    obtain ⟨required, -, h⟩ := exceptBind_eq_ok.mp h
    obtain rfl := Except.ok.inj h
    intro e he
    rcases Entries.exists_of_mem_merge he with he | ⟨o, ho, heo⟩
    · exact hs e he
    · exact heo ▸ hp.of_declaredProperties hschema hd o ho
  · exact Except.ok.inj h ▸ hs

/-- It holds of the properties of all members. -/
theorem of_ofMembers (hp : IsHereditary P) {members : List Value} {merged : Merged}
    (hm : ∀ m ∈ members, P m) (h : Merged.ofMembers members = .ok merged) :
    ∀ e ∈ merged.properties, P e.2 := by
  have fold : ∀ (members : List Value) (start : Merged), (∀ m ∈ members, P m) →
      (∀ e ∈ start.properties, P e.2) → members.foldlM Merged.add start = .ok merged →
      ∀ e ∈ merged.properties, P e.2 := by
    intro members
    induction members with
    | nil =>
      intro start _ hs h
      exact Except.ok.inj h ▸ hs
    | cons m rest ih =>
      intro start hm hs h
      rw [List.foldlM_cons] at h
      obtain ⟨next, hn, h⟩ := exceptBind_eq_ok.mp h
      have hnext := hp.of_add (hm m (by simp)) hs hn
      exact ih next (fun m hx => hm m (List.mem_cons_of_mem _ hx)) hnext h
  exact fold members ⟨[], []⟩ hm (by simp) h

end IsHereditary

end Value

variable {P : Value → Prop} {f g : Value → Conversion Node} {schema : Entries Value}

namespace Source

variable (source other : Source)

/-- Properties are converted by the conversions of their schemas. -/
theorem properties_congr {required : List Key} {entries : Entries Value}
    (h : ∀ e ∈ entries, f e.2 = g e.2) :
    properties f required entries = properties g required entries := by
  induction entries with
  | nil => rfl
  | cons e rest ih =>
    obtain ⟨k, v⟩ := e
    have hv : f v = g v := h (k, v) (by simp)
    have hr := ih fun e he => h e (List.mem_cons_of_mem _ he)
    unfold properties
    split
    · exact hr
    · rw [hv, hr]

/-- An object is converted by the conversions of the schemas of its properties. -/
theorem object_congr {schemas : Option Value} {names : Except Fault (List Value)}
    (h : ∀ entries, (Value.orEmpty schemas).entries? = some entries →
      ∀ e ∈ entries, f e.2 = g e.2) :
    object f schemas names = object g schemas names := by
  unfold object
  congr 1
  funext keys
  unfold Value.entriesOf
  cases he : (Value.orEmpty schemas).entries? with
  | none => rfl
  | some entries => simp [properties_congr (h entries he)]

/-- Options are converted by the conversions of the members. -/
theorem mapM_congr {members : List Value} (h : ∀ m ∈ members, f m = g m) :
    members.mapM f = members.mapM g := by
  induction members with
  | nil => rfl
  | cons m rest ih =>
    rw [List.mapM_cons, List.mapM_cons, h m (by simp),
      ih fun m hm => h m (List.mem_cons_of_mem _ hm)]

/-- Members that are options are converted one by one. -/
theorem anyOf_congr (hp : Value.IsHereditary P) {members : Value} (hm : P members)
    (h : ∀ w, P w → f w = g w) :
    source.ofForm f (.anyOf members) = other.ofForm g (.anyOf members) := by
  simp only [ofForm]
  cases hi : members.itemsOf with
  | error e => rfl
  | ok items =>
    have hc : items.mapM f = items.mapM g := mapM_congr fun w hw => h w (hp.of_itemsOf hm hi hw)
    simp [hc]

/-- Members that are taken together are converted by the conversions of their properties. -/
theorem allOf_congr (hp : Value.IsHereditary P) {members : Value} (hm : P members)
    (h : ∀ w, P w → f w = g w) :
    source.ofForm f (.allOf members) = other.ofForm g (.allOf members) := by
  simp only [ofForm]
  cases hi : members.itemsOf with
  | error e => rfl
  | ok items =>
    cases hr : Merged.ofMembers items with
    | error e => simp [hr]
    | ok merged =>
      have hs := hp.of_ofMembers (fun m hx => hp.of_itemsOf hm hi hx) hr
      have hc : object f (some (.map merged.properties)) (.ok merged.required) =
          object g (some (.map merged.properties)) (.ok merged.required) := by
        apply object_congr
        intro entries he e hin
        refine h e.2 (hs e ?_)
        unfold Value.orEmpty at he
        cases hm : merged.properties with
        | nil => simp_all [Value.isTruthy, Value.entries?, Value.shape]
        | cons p rest => simp_all [Value.isTruthy, Value.entries?, Value.shape]
      simp [hr, hc]

/-- The items of a list are converted by the conversion of their schema. -/
theorem array_congr {items : Option Value} (hi : ∀ v ∈ items, P v) (h : ∀ w, P w → f w = g w) :
    source.ofForm f (.array items) = other.ofForm g (.array items) := by
  cases items with
  | none => rfl
  | some v =>
    simp only [ofForm]
    rw [h v (hi v rfl)]

/-- A schema is converted by its form and the conversions of schemas that are like its entries, by
any source that refers to the same. -/
theorem ofForm_congr (hp : Value.IsHereditary P) (hs : ∀ e ∈ schema, P e.2)
    (hr : ∀ target, Entries.find? "$ref" schema = some target →
      source.reference target = other.reference target)
    (h : ∀ w, P w → f w = g w) :
    source.ofForm f (.of schema) = other.ofForm g (.of schema) := by
  have found : ∀ {key : Key} {v : Value}, Entries.find? key schema = some v → P v := by
    intro key v hf
    obtain ⟨k, -, hm⟩ := Entries.mem_of_find? hf
    exact hs (k, v) hm
  unfold Form.of
  split
  · next ht => exact hr _ ht
  · split
    · next hm => exact allOf_congr source other hp (found hm) h
    · split
      · next hm => exact anyOf_congr source other hp (found hm) h
      · split
        · next hm => exact anyOf_congr source other hp (found hm) h
        · unfold Form.ofType
          simp only []
          split
          · exact object_congr fun entries he e hin =>
              h e.2 (hp.of_entries? (hp.orEmpty hs) he hin)
          · split
            · exact array_congr source other (fun v hv => found hv) h
            · split
              · split <;> rfl
              · split
                · rfl
                · split <;> rfl

/-- A value is converted by the conversions of values that are like its parts, by any source that
refers to the same. -/
theorem ofSchema_congr (hp : Value.IsHereditary P) {v : Value} (hv : ∀ w ∈ v.parts, P w)
    (hr : ∀ schema target, v.entries? = some schema →
      Entries.find? "$ref" schema = some target → source.reference target = other.reference target)
    (h : ∀ w, P w → f w = g w) : source.ofSchema f v = other.ofSchema g v := by
  unfold ofSchema
  cases he : v.entries? with
  | none => rfl
  | some schema =>
    have hs : ∀ e ∈ schema, P e.2 := fun e hin => hv e.2 (Value.mem_parts_of_entries? he hin)
    dsimp only
    rw [ofForm_congr source other hp hs (hr schema · he) h]

variable {n : Nat}

/-- A value is converted by the conversions of values that are one step closer to the end. -/
theorem ofSchema_congr_of_fits {v : Value} (hv : v.fits (n + 1) = true)
    (h : ∀ w : Value, w.fits n = true → f w = g w) :
    source.ofSchema f v = source.ofSchema g v :=
  ofSchema_congr source source (Value.isHereditary_fits n) (Value.fits_succ.mp hv)
    (fun _ _ _ _ => rfl) h

/-- A value without parts is converted without further conversions. -/
theorem ofSchema_of_parts_eq_nil {v : Value} (hv : v.parts = []) :
    source.ofSchema f v = source.ofSchema g v := by
  unfold ofSchema
  cases hs : v.entries? with
  | none => rfl
  | some schema =>
    have hn : schema = [] := List.eq_nil_iff_forall_not_mem.mpr fun e hin => by
      have := Value.mem_parts_of_entries? hs hin
      simp [hv] at this
    subst hn
    rfl

/-- A bound that is longer than all walks into a value has no influence. -/
theorem convertWithin_eq {v : Value} {k l : Nat} (hv : v.fits n = true) (hk : n < k)
    (hl : n < l) : source.convertWithin k v = source.convertWithin l v := by
  obtain ⟨k, rfl⟩ : ∃ i, k = i + 1 := ⟨k - 1, by omega⟩
  obtain ⟨l, rfl⟩ : ∃ i, l = i + 1 := ⟨l - 1, by omega⟩
  induction n generalizing v k l with
  | zero => exact ofSchema_of_parts_eq_nil source (by simpa [Value.fits] using hv)
  | succ n ih =>
    refine ofSchema_congr_of_fits source hv fun w hw => ?_
    obtain ⟨k, rfl⟩ : ∃ i, k = i + 1 := ⟨k - 1, by omega⟩
    obtain ⟨l, rfl⟩ : ∃ i, l = i + 1 := ⟨l - 1, by omega⟩
    exact ih hw k (by omega) l (by omega)

/-- A schema that is not inside itself is converted by its form and the conversions of the
schemas inside. -/
theorem convert_eq {v : Value} (hv : v.isFinite = true) :
    source.convert v = source.ofSchema source.convert v := by
  unfold Value.isFinite at hv
  rw [convert, convertWithin]
  cases hd : v.depth with
  | zero =>
    rw [hd] at hv
    exact ofSchema_of_parts_eq_nil source (by simpa [Value.fits] using hv)
  | succ d =>
    rw [hd] at hv
    refine ofSchema_congr_of_fits source hv fun w hw => ?_
    rcases Nat.le_total d w.depth with h | h
    · exact convertWithin_eq source hw (by omega) (by omega)
    · exact convertWithin_eq source (Value.fits_depth hw) (by omega) (by omega)

end Source

end ZodSchemas
