import Mathlib.Data.List.Forall2
import ZodSchemas.Proofs.Conversion.Ending
import ZodSchemas.Proofs.Schema.Shape

/-!
# Schemas that look alike

Two schemas look alike when the keywords that are read hold the same in both,
where schemas that stand under them need only look alike again. What stands
under other keywords, and in which order the keywords come, makes no difference.
A schema may be inside itself, so two values are alike when some relation that
is kept by one look at them holds for them.

The conversion of a schema is one look at it and the conversions of the schemas
inside. So if one way of converting schemas follows another one on related
schemas, it does so on schemas that look alike.
-/

namespace ZodSchemas

namespace Traced

variable {ω α β : Type}

/-- The second computation is the same as the first, unless the first never ends. -/
def Reaches (x y : Traced ω Fault α) : Prop := x.outcome ≠ .error .endless → y = x

/-- A computation is the same as itself. -/
@[refl] theorem Reaches.refl (x : Traced ω Fault α) : x.Reaches x := fun _ => rfl

/-- A computation that never ends may be any. -/
theorem reaches_of_endless {x : Traced ω Fault α} (h : x.outcome = .error .endless)
    (y : Traced ω Fault α) : x.Reaches y := fun hn => absurd h hn

/-- A computation that is the same as the second is the same as the first. -/
theorem Reaches.trans {x y z : Traced ω Fault α} (h : x.Reaches y) (hz : y.Reaches z) :
    x.Reaches z := by
  intro hx
  obtain rfl := h hx
  exact hz hx

/-- What follows a value that is reached goes on to what is reached from the value. -/
theorem Reaches.bind {x y : Traced ω Fault α} {f g : α → Traced ω Fault β} (h : x.Reaches y)
    (hf : ∀ a, (f a).Reaches (g a)) : (x >>= f).Reaches (y >>= g) := by
  intro hx
  have hfirst : x.outcome ≠ .error .endless := fun he => hx (bind_eq_error.mpr (.inl he))
  obtain rfl := h hfirst
  obtain ⟨events, outcome⟩ := y
  cases outcome with
  | error fault => rfl
  | ok a =>
    have ha : (f a).outcome ≠ .error .endless := fun he =>
      hx (bind_eq_error.mpr (.inr ⟨a, rfl, he⟩))
    rw [bind_ok, bind_ok, hf a ha]

end Traced

/-- The keywords that hold no schemas. -/
def plainKeywords : List Text :=
  ["type", "required", "enum", "nullable", "$ref", "minLength", "maxLength", "format"]

/-- The keywords of schemas that are read. -/
def readKeywords : List Text := plainKeywords ++ nestingKeywords

namespace Value

/-- Values that are no mappings are the same, and the entries of mappings are related. -/
inductive AgreeIn (p : Entries Value → Entries Value → Prop) : Value → Value → Prop where
  /-- A value that is no mapping. -/
  | same {v : Value} (none : v.entries? = none) : AgreeIn p v v
  /-- Two mappings. -/
  | entries {v w : Value} {s t : Entries Value} (first : v.entries? = some s)
      (second : w.entries? = some t) (related : p s t) : AgreeIn p v w

/-- Values without items are the same, and the items of others are related. -/
inductive AgreeOn (r : Value → Value → Prop) : Value → Value → Prop where
  /-- A value without items. -/
  | same {v : Value} (none : v.items? = none) : AgreeOn r v v
  /-- Two values with items. -/
  | items {v w : Value} {xs ys : List Value} (first : v.items? = some xs)
      (second : w.items? = some ys) (related : List.Forall₂ r xs ys) : AgreeOn r v w

end Value

section Likeness

variable (r : Value → Value → Prop)

/-- Properties with the same names whose schemas are related. -/
def AgreeByName (s t : Entries Value) : Prop :=
  List.Forall₂ (fun e f => e.1 = f.1 ∧ r e.2 f.2) s t

/-- The keywords that are read hold the same, as far as it is no schema, and related schemas. -/
structure LookAlike (s t : Entries Value) : Prop where
  /-- Keywords without schemas hold the same. -/
  plain : ∀ keyword ∈ plainKeywords, Entries.find? keyword s = Entries.find? keyword t
  /-- Members are related one by one. -/
  members : ∀ keyword ∈ memberKeywords,
    Option.Rel (Value.AgreeOn r) (Entries.find? keyword s) (Entries.find? keyword t)
  /-- The properties have the same names, and their schemas are related. -/
  properties : Option.Rel (Value.AgreeIn (AgreeByName r)) (Entries.find? "properties" s)
    (Entries.find? "properties" t)
  /-- The schemas of elements are related. -/
  items : Option.Rel r (Entries.find? "items" s) (Entries.find? "items" t)

/-- A relation that every look at related values keeps. -/
def IsLikeness : Prop := ∀ v w, r v w → Value.AgreeIn (LookAlike r) v w

end Likeness

/-- No look at two values tells them apart, and neither does one at the schemas inside. -/
def Value.AreAlike (v w : Value) : Prop := ∃ r, IsLikeness r ∧ r v w

section Equal

variable {P : Value → Prop}

/-- What holds of a value holds of its parts; it holds of everything that has no parts at all. -/
structure Value.IsPartwise (P : Value → Prop) : Prop where
  /-- It holds of the parts of a value. -/
  part : ∀ {v w : Value}, P v → w ∈ v.parts → P w
  /-- It holds of what has no parts. -/
  atom : ∀ key, P (.atom key)

/-- Both values are the same one, of which something holds. -/
def SameWith (P : Value → Prop) (v w : Value) : Prop := v = w ∧ P v

/-- Items of which something holds are the same. -/
theorem forall₂_sameWith {items : List Value} (h : ∀ w ∈ items, P w) :
    List.Forall₂ (SameWith P) items items := by
  induction items with
  | nil => exact .nil
  | cons v rest ih =>
    exact .cons ⟨rfl, h v (by simp)⟩ (ih fun w hw => h w (List.mem_cons_of_mem _ hw))

/-- Entries of whose values something holds agree by name. -/
theorem agreeByName_sameWith {entries : Entries Value} (h : ∀ e ∈ entries, P e.2) :
    AgreeByName (SameWith P) entries entries := by
  induction entries with
  | nil => exact .nil
  | cons e rest ih =>
    exact .cons ⟨rfl, rfl, h e (by simp)⟩ (ih fun e he => h e (List.mem_cons_of_mem _ he))

/-- A schema looks like itself. -/
theorem lookAlike_sameWith (hp : Value.IsPartwise P) {schema : Entries Value}
    (hs : ∀ e ∈ schema, P e.2) : LookAlike (SameWith P) schema schema := by
  have found : ∀ {keyword : Key} {v : Value}, Entries.find? keyword schema = some v → P v := by
    intro keyword v hf
    obtain ⟨k, -, hm⟩ := Entries.mem_of_find? hf
    exact hs (k, v) hm
  refine ⟨fun _ _ => rfl, fun keyword _ => ?_, ?_, ?_⟩
  · cases hv : Entries.find? keyword schema with
    | none => exact .none
    | some v =>
      refine .some ?_
      cases hi : v.items? with
      | none => exact .same hi
      | some items =>
        refine .items hi hi (forall₂_sameWith fun w hw => ?_)
        rcases Value.mem_parts_of_items? hi hw with hm | ⟨key, rfl⟩
        · exact hp.part (found hv) hm
        · exact hp.atom key
  · cases hv : Entries.find? "properties" schema with
    | none => exact .none
    | some v =>
      refine .some ?_
      cases he : v.entries? with
      | none => exact .same he
      | some entries =>
        exact .entries he he (agreeByName_sameWith fun e hm =>
          hp.part (found hv) (Value.mem_parts_of_entries? he hm))
  · cases hv : Entries.find? "items" schema with
    | none => exact .none
    | some v => exact .some ⟨rfl, found hv⟩

/-- A value looks like itself. -/
theorem agreeIn_sameWith (hp : Value.IsPartwise P) {v : Value} (hv : ∀ w ∈ v.parts, P w) :
    Value.AgreeIn (LookAlike (SameWith P)) v v := by
  cases he : v.entries? with
  | none => exact .same he
  | some schema =>
    exact .entries he he (lookAlike_sameWith hp fun e hm =>
      hv e.2 (Value.mem_parts_of_entries? he hm))

/-- Every look at the same value shows the same. -/
theorem isLikeness_sameWith (hp : Value.IsPartwise P) : IsLikeness (SameWith P) := by
  rintro v _ ⟨rfl, hv⟩
  exact agreeIn_sameWith hp fun w hw => hp.part hv hw

end Equal

section Alike

variable {r q : Value → Value → Prop} {s t u : Entries Value}

/-- Values that are related one way and another are related the other way. -/
theorem optionRel_mono {p q : Value → Value → Prop} (h : ∀ {v w : Value}, p v w → q v w)
    {a b : Option Value} (hab : Option.Rel p a b) : Option.Rel q a b := by
  cases hab with
  | none => exact .none
  | some hvw => exact .some (h hvw)

/-- Related schemas inside may be related in a wider sense. -/
theorem LookAlike.mono (h : LookAlike r s t) (hq : ∀ {v w : Value}, r v w → q v w) :
    LookAlike q s t where
  plain := h.plain
  members keyword hk := by
    refine optionRel_mono (fun hvw => ?_) (h.members keyword hk)
    cases hvw with
    | same hn => exact .same hn
    | items hv hw hr => exact .items hv hw (hr.imp fun _ _ => hq)
  properties := by
    refine optionRel_mono (fun hvw => ?_) h.properties
    cases hvw with
    | same hn => exact .same hn
    | entries hv hw hr => exact .entries hv hw (hr.imp fun _ _ he => ⟨he.1, hq he.2⟩)
  items := optionRel_mono hq h.items

/-- A value is like itself. -/
@[refl] theorem Value.AreAlike.refl (v : Value) : v.AreAlike v :=
  ⟨SameWith fun _ => True, isLikeness_sameWith ⟨fun _ _ => trivial, fun _ => trivial⟩, rfl, trivial⟩

/-- A look at values that are alike shows values that are alike. -/
theorem isLikeness_areAlike : IsLikeness Value.AreAlike := by
  rintro v w ⟨r, hr, hvw⟩
  cases hr v w hvw with
  | same hn => exact .same hn
  | entries hv hw hst => exact .entries hv hw (hst.mono fun hvw => ⟨r, hr, hvw⟩)

/-- Mappings that look alike, with values inside that are alike, are alike. -/
theorem areAlike_of_lookAlike (h : LookAlike Value.AreAlike s t) :
    (Value.map s).AreAlike (.map t) := by
  refine ⟨fun v w => v.AreAlike w ∨ Value.AgreeIn (LookAlike Value.AreAlike) v w, ?_,
    .inr (.entries rfl rfl h)⟩
  intro v w hvw
  have hlook : Value.AgreeIn (LookAlike Value.AreAlike) v w := hvw.elim (isLikeness_areAlike v w) id
  cases hlook with
  | same hn => exact .same hn
  | entries hv hw hst => exact .entries hv hw (hst.mono .inl)

/-- A mapping looks like itself. -/
@[refl] theorem LookAlike.refl (s : Entries Value) : LookAlike Value.AreAlike s s :=
  (lookAlike_sameWith (P := fun _ => True) ⟨fun _ _ => trivial, fun _ => trivial⟩
    fun _ _ => trivial).mono fun h => h.1 ▸ .refl _

/-- A mapping that looks like another one also does when it is changed and all keywords that are
read hold what they held. -/
theorem LookAlike.congr (h : LookAlike r s t)
    (hu : ∀ keyword ∈ readKeywords, Entries.find? keyword u = Entries.find? keyword t) :
    LookAlike r s u where
  plain keyword hk := by
    rw [hu keyword (by simp [readKeywords, hk])]
    exact h.plain keyword hk
  members keyword hk := by
    rw [hu keyword (by simp [readKeywords, nestingKeywords, hk])]
    exact h.members keyword hk
  properties := by
    rw [hu "properties" (by simp [readKeywords, nestingKeywords])]
    exact h.properties
  items := by
    rw [hu "items" (by simp [readKeywords, nestingKeywords])]
    exact h.items

/-- A keyword that is not read may be inserted anywhere. -/
theorem LookAlike.insert {front back : Entries Value} (h : LookAlike r s (front ++ back))
    {key : Key} (hk : ∀ keyword ∈ readKeywords, key.same (.text keyword) = false) (v : Value) :
    LookAlike r s (front ++ (key, v) :: back) := by
  refine h.congr fun keyword hr => ?_
  simp [Entries.find?_append, Entries.find?, hk keyword hr]

/-- The keywords may come in any order. -/
theorem LookAlike.reorder (h : LookAlike r s t) (hd : KeysDiffer (Entries.keys t))
    (hp : t.Perm u) : LookAlike r s u :=
  h.congr fun keyword _ => (Entries.find?_perm hd hp keyword).symm

/-- Where one value is replaced a key finds the same, unless it is the key of the value. -/
theorem Entries.find?_replace {α : Type} (key k : Key) (v w : α) (front back : Entries α) :
    find? key (front ++ (k, v) :: back) = find? key (front ++ (k, w) :: back) ∨
      k.same key = true ∧ find? key (front ++ (k, v) :: back) = some v ∧
        find? key (front ++ (k, w) :: back) = some w := by
  rw [find?_append, find?_append, find?, find?]
  cases find? key front with
  | some a => exact .inl rfl
  | none =>
    split
    · next hk => exact .inr ⟨hk, rfl, rfl⟩
    · exact .inl rfl

/-- What stands under a keyword that holds schemas may be replaced by what is like it. -/
theorem LookAlike.replace {keyword : Text} (hk : keyword ∉ plainKeywords) {v w : Value}
    (hm : keyword ∈ memberKeywords → Value.AgreeOn Value.AreAlike v w)
    (hp : keyword = "properties" → Value.AgreeIn (AgreeByName Value.AreAlike) v w)
    (hi : keyword = "items" → v.AreAlike w) (front back : Entries Value) :
    LookAlike Value.AreAlike (front ++ (.text keyword, v) :: back)
      (front ++ (.text keyword, w) :: back) := by
  have found := fun other : Text =>
    Entries.find?_replace (.text other) (.text keyword) v w front back
  have hsame := LookAlike.refl (front ++ (.text keyword, w) :: back)
  refine ⟨fun other ho => ?_, fun other ho => ?_, ?_, ?_⟩
  · rcases found other with h | ⟨h, -, -⟩
    · exact h
    · obtain rfl : keyword = other := by simpa using h
      exact absurd ho hk
  · rcases found other with h | ⟨h, hv, hw⟩
    · rw [h]
      exact hsame.members other ho
    · obtain rfl : keyword = other := by simpa using h
      rw [hv, hw]
      exact .some (hm ho)
  · rcases found "properties" with h | ⟨h, hv, hw⟩
    · rw [h]
      exact hsame.properties
    · rw [hv, hw]
      exact .some (hp (by simpa using h))
  · rcases found "items" with h | ⟨h, hv, hw⟩
    · rw [h]
      exact hsame.items
    · rw [hv, hw]
      exact .some (hi (by simpa using h))

end Alike

/-- Two outcomes are the same error, or values that are related. -/
inductive SameOutcome {α : Type} (p : α → α → Prop) : Except Fault α → Except Fault α → Prop where
  /-- The same error. -/
  | error (fault : Fault) : SameOutcome p (.error fault) (.error fault)
  /-- Related values. -/
  | ok {a b : α} (related : p a b) : SameOutcome p (.ok a) (.ok b)

/-- Composed computations have the same outcome when their parts do. -/
theorem SameOutcome.bind {α β : Type} {p : α → α → Prop} {q : β → β → Prop} {x y : Except Fault α}
    {f g : α → Except Fault β} (h : SameOutcome p x y)
    (hf : ∀ a b, p a b → SameOutcome q (f a) (g b)) : SameOutcome q (x >>= f) (y >>= g) := by
  cases h with
  | error fault => exact .error fault
  | ok hab => exact hf _ _ hab

/-- Conversions go on alike after the same outcome. -/
theorem SameOutcome.reaches {α β : Type} {p : α → α → Prop} {x y : Except Fault α}
    {f g : α → Conversion β} (h : SameOutcome p x y) (hf : ∀ a b, p a b → (f a).Reaches (g b)) :
    ((liftM x : Conversion α) >>= f).Reaches ((liftM y : Conversion α) >>= g) := by
  cases h with
  | error fault => rfl
  | @ok a b hab => simpa using hf a b hab

section Looks

variable {r : Value → Value → Prop} {s t : Entries Value}

/-- Schemas that look alike have the same keywords that are read. -/
theorem LookAlike.find?_eq_none_iff (h : LookAlike r s t) {keyword : Text}
    (hk : keyword ∈ readKeywords) :
    Entries.find? keyword s = none ↔ Entries.find? keyword t = none := by
  have rel : ∀ {p : Value → Value → Prop} {a b : Option Value}, Option.Rel p a b →
      (a = none ↔ b = none) := by
    intro p a b hab
    cases hab <;> simp
  simp only [readKeywords, nestingKeywords, List.mem_append, List.mem_cons] at hk
  rcases hk with hk | rfl | rfl | hk
  · rw [h.plain keyword hk]
  · exact rel h.properties
  · exact rel h.items
  · exact rel (h.members keyword hk)

/-- Mappings count as true unless they are empty. -/
theorem Value.isTruthy_of_entries? {v : Value} {entries : Entries Value}
    (h : v.entries? = some entries) : v.isTruthy = !entries.isEmpty := by
  simp only [isTruthy, shape_of_entries? h]

namespace Value.AgreeIn

variable {p : Entries Value → Entries Value → Prop} {v w : Value}

/-- Values that agree are mappings with related entries or none. -/
theorem entriesOf (h : AgreeIn p v w) : SameOutcome p v.entriesOf w.entriesOf := by
  cases h with
  | same hn =>
    rw [Value.entriesOf, hn]
    exact .error _
  | entries hv hw hp =>
    rw [Value.entriesOf, hv, Value.entriesOf, hw]
    exact .ok hp

/-- Properties that agree still do where an empty mapping stands for what counts as false. -/
theorem orEmpty {a b : Option Value} (h : Option.Rel (AgreeIn (AgreeByName r)) a b) :
    AgreeIn (AgreeByName r) (Value.orEmpty a) (Value.orEmpty b) := by
  have empty : AgreeIn (AgreeByName r) (.map []) (.map []) := .entries rfl rfl .nil
  cases h with
  | none => exact empty
  | @some v w h =>
    have htruthy : v.isTruthy = w.isTruthy := by
      cases h with
      | same hn => rfl
      | entries hv hw hr =>
        rw [isTruthy_of_entries? hv, isTruthy_of_entries? hw]
        cases hr <;> rfl
    simp only [Value.orEmpty, htruthy]
    split
    · exact h
    · exact empty

end Value.AgreeIn

/-- Values that agree have related items or none. -/
theorem Value.AgreeOn.itemsOf {v w : Value} (h : AgreeOn r v w) :
    SameOutcome (List.Forall₂ r) v.itemsOf w.itemsOf := by
  cases h with
  | same hn =>
    rw [Value.itemsOf, hn]
    exact .error _
  | items hv hw hr =>
    rw [Value.itemsOf, hv, Value.itemsOf, hw]
    exact .ok hr

/-- What stands under the same key of entries that agree is related. -/
theorem AgreeByName.find? (h : AgreeByName r s t) (key : Key) :
    Option.Rel r (Entries.find? key s) (Entries.find? key t) := by
  induction h with
  | nil => exact .none
  | @cons e f _ _ hef _ ih =>
    obtain ⟨k, a⟩ := e
    obtain ⟨_, b⟩ := f
    obtain ⟨rfl, hab⟩ := hef
    rw [Entries.find?, Entries.find?]
    split
    · exact .some hab
    · exact ih

/-- Schemas that look alike are both of type object or none is. -/
theorem LookAlike.isObject_eq (h : LookAlike r s t) : isObject s = isObject t := by
  rw [isObject, isObject, h.plain "type" (by simp [plainKeywords])]

/-- Schemas that look alike declare properties that agree. -/
theorem LookAlike.declaredProperties (h : LookAlike r s t) :
    SameOutcome (AgreeByName r) (declaredProperties s) (declaredProperties t) := by
  have hagree := Value.AgreeIn.orEmpty h.properties
  unfold ZodSchemas.declaredProperties
  generalize Value.orEmpty (Entries.find? "properties" s) = v at hagree ⊢
  generalize Value.orEmpty (Entries.find? "properties" t) = w at hagree ⊢
  dsimp only
  cases hagree with
  | same hn =>
    rw [hn]
    exact .error _
  | entries hv hw hp =>
    rw [hv, hw]
    exact .ok hp

namespace AgreeByName

variable {others more : Entries Value}

/-- Properties agree after related schemas were written under one name. -/
theorem put (h : AgreeByName r s t) {key : Key} {v w : Value} (hr : r v w) :
    AgreeByName r (Entries.put key v s) (Entries.put key w t) := by
  induction h with
  | nil => exact .cons ⟨rfl, hr⟩ .nil
  | @cons e f s t hef hst ih =>
    obtain ⟨k, a⟩ := e
    obtain ⟨_, b⟩ := f
    obtain ⟨rfl, hab⟩ := hef
    rw [Entries.put, Entries.put]
    split
    · exact .cons ⟨rfl, hr⟩ hst
    · exact .cons ⟨rfl, hab⟩ ih

/-- Properties agree after others that agree were written. -/
theorem merge (h : AgreeByName r s t) (ho : AgreeByName r others more) :
    AgreeByName r (Entries.merge s others) (Entries.merge t more) := by
  induction ho generalizing s t with
  | nil => exact h
  | @cons e f others more hef _ ih =>
    obtain ⟨k, a⟩ := e
    obtain ⟨_, b⟩ := f
    obtain ⟨rfl, hab⟩ := hef
    exact ih (h.put hab)

end AgreeByName

/-- Properties that agree and the same required names. -/
structure Merged.Agree (r : Value → Value → Prop) (m n : Merged) : Prop where
  /-- The properties agree by name. -/
  properties : AgreeByName r m.properties n.properties
  /-- The required names are the same. -/
  required : m.required = n.required

/-- Members that look alike are taken along alike. -/
theorem Merged.Agree.add {m n : Merged} (h : m.Agree r n) {v w : Value}
    (hvw : Value.AgreeIn (LookAlike r) v w) : SameOutcome (Merged.Agree r) (m.add v) (n.add w) := by
  refine hvw.entriesOf.bind fun s t hst => ?_
  rw [hst.isObject_eq]
  split
  · refine hst.declaredProperties.bind fun p q hpq => ?_
    rw [hst.plain "required" (by simp [plainKeywords])]
    cases Value.itemsIfAny (Entries.find? "required" t) with
    | error fault => exact .error fault
    | ok names => exact .ok ⟨h.properties.merge hpq, congrArg (· ++ names) h.required⟩
  · exact .ok h

/-- Related members are taken together alike. -/
theorem ofMembers_agree (hr : IsLikeness r) {xs ys : List Value} (h : List.Forall₂ r xs ys) :
    SameOutcome (Merged.Agree r) (Merged.ofMembers xs) (Merged.ofMembers ys) := by
  have fold : ∀ {m n : Merged}, m.Agree r n →
      SameOutcome (Merged.Agree r) (xs.foldlM Merged.add m) (ys.foldlM Merged.add n) := by
    induction h with
    | nil => exact fun hm => .ok hm
    | cons hvw _ ih =>
      intro m n hm
      rw [List.foldlM_cons, List.foldlM_cons]
      exact (hm.add (hr _ _ hvw)).bind fun _ _ hnext => ih hnext
  exact fold ⟨.nil, rfl⟩

end Looks

/-- Two forms are the same but for related schemas. -/
inductive SameForm (r : Value → Value → Prop) : Form → Form → Prop where
  /-- The same reference. -/
  | reference (target : Value) : SameForm r (.reference target) (.reference target)
  /-- Members that are related, taken together. -/
  | allOf {v w : Value} (members : v.AgreeOn r w) : SameForm r (.allOf v) (.allOf w)
  /-- Options that are related. -/
  | anyOf {v w : Value} (members : v.AgreeOn r w) : SameForm r (.anyOf v) (.anyOf w)
  /-- Properties that agree. -/
  | object {a b : Option Value} (required : Option Value)
      (properties : Option.Rel (Value.AgreeIn (AgreeByName r)) a b) :
      SameForm r (.object a required) (.object b required)
  /-- Elements that are related. -/
  | array {a b : Option Value} (items : Option.Rel r a b) : SameForm r (.array a) (.array b)
  /-- The same values. -/
  | choice (values : Value) : SameForm r (.choice values) (.choice values)
  /-- The same checks. -/
  | string (checks : List Check) : SameForm r (.string checks) (.string checks)
  /-- Numbers. -/
  | number : SameForm r .number .number
  /-- Truth values. -/
  | boolean : SameForm r .boolean .boolean
  /-- Anything. -/
  | anything : SameForm r .anything .anything

section Forms

variable {r : Value → Value → Prop} {s t : Entries Value}

/-- Schemas that look alike have the same checks. -/
theorem LookAlike.stringChecks_eq (h : LookAlike r s t) : stringChecks s = stringChecks t := by
  have hmin := h.plain "minLength" (by simp [plainKeywords])
  have hmax := h.plain "maxLength" (by simp [plainKeywords])
  have hformat := h.plain "format" (by simp [plainKeywords])
  simp only [stringChecks, hmin, hmax, hformat]

/-- Schemas that look alike have types that give them the same form. -/
theorem LookAlike.sameForm_ofType (h : LookAlike r s t) :
    SameForm r (.ofType s) (.ofType t) := by
  unfold Form.ofType
  rw [h.plain "type" (by simp [plainKeywords]), h.plain "required" (by simp [plainKeywords]),
    h.plain "enum" (by simp [plainKeywords]), h.stringChecks_eq]
  dsimp only
  split
  · exact .object _ h.properties
  · split
    · exact .array h.items
    · split
      · split
        · exact .choice _
        · exact .string _
      · split
        · exact .number
        · split
          · exact .boolean
          · exact .anything

/-- Schemas that look alike have the same form. -/
theorem LookAlike.sameForm (h : LookAlike r s t) : SameForm r (.of s) (.of t) := by
  unfold Form.of
  rw [h.plain "$ref" (by simp [plainKeywords])]
  split
  · exact .reference _
  · have hall := h.members "allOf" (by simp [memberKeywords])
    have hany := h.members "anyOf" (by simp [memberKeywords])
    have hone := h.members "oneOf" (by simp [memberKeywords])
    generalize Entries.find? "allOf" s = a at hall ⊢
    generalize Entries.find? "allOf" t = b at hall ⊢
    cases hall with
    | some hall => exact .allOf hall
    | none =>
      generalize Entries.find? "anyOf" s = a at hany ⊢
      generalize Entries.find? "anyOf" t = b at hany ⊢
      cases hany with
      | some hany => exact .anyOf hany
      | none =>
        generalize Entries.find? "oneOf" s = a at hone ⊢
        generalize Entries.find? "oneOf" t = b at hone ⊢
        cases hone with
        | some hone => exact .anyOf hone
        | none => exact h.sameForm_ofType

end Forms

/-- One way of converting schemas reaches another on related schemas. An empty schema for elements
is not converted at all: what looks like it must be converted to what it stands for. -/
structure Simulates (r : Value → Value → Prop) (f g : Value → Conversion Node) : Prop where
  /-- Related schemas are converted alike. -/
  reaches : ∀ {v w : Value}, r v w → (f v).Reaches (g w)
  /-- A schema like an empty one is converted to anything. -/
  right : ∀ {v w : Value}, r v w → v.isTruthy = false → w.isTruthy = true →
    (pure .unknown : Conversion Node).Reaches (g w)
  /-- The same, the other way round. -/
  left : ∀ {v w : Value}, r v w → v.isTruthy = true → w.isTruthy = false →
    (f v).Reaches (pure .unknown)

/-- Ways of converting the same schemas need only be compared on those. -/
theorem simulates_sameWith {P : Value → Prop} {f g : Value → Conversion Node}
    (h : ∀ v, P v → (f v).Reaches (g v)) : Simulates (SameWith P) f g where
  reaches := by
    rintro v _ ⟨rfl, hv⟩
    exact h v hv
  right := by
    rintro v _ ⟨rfl, -⟩ hf ht
    simp [hf] at ht
  left := by
    rintro v _ ⟨rfl, -⟩ ht hf
    simp [hf] at ht

namespace Simulates

variable {r : Value → Value → Prop} {f g : Value → Conversion Node} {s t : Entries Value}

/-- Properties that agree are converted alike. -/
theorem properties (h : Simulates r f g) (hr : IsLikeness r) (required : List Key)
    (hst : AgreeByName r s t) :
    (Source.properties f required s).Reaches (Source.properties g required t) := by
  induction hst with
  | nil => rfl
  | @cons e e' s t he _ ih =>
    obtain ⟨key, v⟩ := e
    obtain ⟨_, w⟩ := e'
    obtain ⟨rfl, hvw⟩ := he
    dsimp only at hvw
    -- Nothing looks like nothing only.
    have hnull : v = .null ↔ w = .null := by
      have none : Value.null.entries? = none := rfl
      constructor
      · rintro rfl
        cases hr _ _ hvw with
        | same _ => rfl
        | entries hv _ _ => simp [none] at hv
      · rintro rfl
        cases hr _ _ hvw with
        | same _ => rfl
        | entries _ hw _ => simp [none] at hw
    by_cases hv : v = .null
    · obtain rfl := hnull.mp hv
      obtain rfl := hv
      exact ih
    · rw [Source.properties_cons hv, Source.properties_cons (mt hnull.mpr hv)]
      exact (h.reaches hvw).bind fun node => ih.bind fun nodes => .refl _

/-- Objects with properties that agree are converted alike. -/
theorem object (h : Simulates r f g) (hr : IsLikeness r) {a b : Option Value}
    (hab : Option.Rel (Value.AgreeIn (AgreeByName r)) a b) (names : Except Fault (List Value)) :
    (Source.object f a names).Reaches (Source.object g b names) :=
  (Traced.Reaches.refl _).bind fun _ => (Value.AgreeIn.orEmpty hab).entriesOf.reaches
    fun _ _ hst => (h.properties hr _ hst).bind fun _ => .refl _

/-- Related options are converted alike. -/
theorem mapM (h : Simulates r f g) {xs ys : List Value} (hxy : List.Forall₂ r xs ys) :
    (xs.mapM f).Reaches (ys.mapM g) := by
  induction hxy with
  | nil => rfl
  | cons hvw _ ih =>
    rw [List.mapM_cons, List.mapM_cons]
    exact (h.reaches hvw).bind fun node => ih.bind fun nodes => .refl _

/-- Related elements are converted alike. -/
theorem array (h : Simulates r f g) {source other : Source}
    {a b : Option Value} (hab : Option.Rel r a b) :
    (source.ofForm f (.array a)).Reaches (other.ofForm g (.array b)) := by
  cases hab with
  | none => rfl
  | @some v w hvw =>
    have element : ∀ {x y : Conversion Node}, x.Reaches y →
        (x >>= fun node => pure (.array node) : Conversion Node).Reaches
          (y >>= fun node => pure (.array node)) := fun hxy => hxy.bind fun _ => .refl _
    simp only [Source.ofForm]
    cases hv : v.isTruthy with
    | true =>
      cases hw : w.isTruthy with
      | true => simpa using element (h.reaches hvw)
      | false => simpa using element (h.left hvw hv hw)
    | false =>
      cases hw : w.isTruthy with
      | true => simpa using element (h.right hvw hv hw)
      | false => exact .refl _

/-- Forms that are the same but for related schemas are converted alike, by sources that refer to
the same. -/
theorem ofForm (h : Simulates r f g) (hr : IsLikeness r) {source other : Source}
    (ht : ∀ target, source.reference target = other.reference target) {a b : Form}
    (hab : SameForm r a b) : (source.ofForm f a).Reaches (other.ofForm g b) := by
  cases hab with
  | reference target =>
    change (source.reference target).Reaches (other.reference target)
    rw [ht]
  | allOf members =>
    exact members.itemsOf.reaches fun _ _ hxy => (ofMembers_agree hr hxy).reaches fun m n hmn =>
      hmn.required ▸ h.object hr (.some (.entries rfl rfl hmn.properties)) _
  | anyOf members =>
    exact members.itemsOf.reaches fun _ _ hxy => (h.mapM hxy).bind fun _ => .refl _
  | object required properties => exact h.object hr properties _
  | array items => exact h.array items
  | choice values => rfl
  | string checks => rfl
  | number => rfl
  | boolean => rfl
  | anything => rfl

/-- Schemas that look alike are converted alike, by sources that refer to the same. -/
theorem ofSchema (h : Simulates r f g) (hr : IsLikeness r) {source other : Source}
    (ht : ∀ target, source.reference target = other.reference target) {v w : Value}
    (hvw : Value.AgreeIn (LookAlike r) v w) :
    (source.ofSchema f v).Reaches (other.ofSchema g w) := by
  unfold Source.ofSchema
  cases hvw with
  | same hn => rw [hn]
  | @entries _ s t hv hw hst =>
    have hnullable : Source.isNullable s = Source.isNullable t := by
      rw [Source.isNullable, Source.isNullable, hst.plain "nullable" (by simp [plainKeywords])]
    rw [hv, hw]
    dsimp only
    rw [hnullable]
    exact (h.ofForm hr ht hst.sameForm).bind fun _ => .refl _

end Simulates

end ZodSchemas
