import Mathlib.Data.List.Induction
import ZodSchemas.Proofs.Declaration.Agreement
import ZodSchemas.Proofs.Declaration.Placement
import ZodSchemas.Proofs.Records
import ZodSchemas.Proofs.Value.Overlays

/-!
# Code in a given order

An order may list any names, and list them again. Only the first of equal names
counts, since what is declared stays registered. So the declarations of an order
are those of its distinct names, each written behind the names that come first
in front of it, and a use is the bare identifier exactly when the name that it
stands for comes first in front of the name that it stands in. The first name
that is not registered when its turn comes ends everything.
-/

namespace ZodSchemas

/-- An order as a value. -/
def listed (order : List Key) : Value := .list (order.map Value.ofKey)

namespace Registry

variable {registry : Registry} {settings : Settings} {generated order front back : List Key}
  {resolved : List Ref} {name : Key} {ds : List Declaration}

/-- The entry of a name when its turn comes behind some others of an order: the one that the
registry has, or one that came to be while those were declared. -/
def entryBehind? (registry : Registry) (settings : Settings) (front : List Key) (name : Key) :
    Option Node :=
  registry.entryAfter? (registry.declarations settings front {} []).events name

/-- A declaration is the one that is written for its name behind some others. -/
def Writes (registry : Registry) (settings : Settings) (front : List Key) (d : Declaration) :
    Prop :=
  ∃ entry, registry.entryBehind? settings front d.name = some entry ∧
    (registry.declare settings ⟨front, []⟩ d.name entry).outcome = .ok d

/-- Every name of an order is registered when its turn comes, and its body renders there. -/
def CanWrite (registry : Registry) (settings : Settings) (order : List Key) : Prop :=
  ∀ front name back, distinctKeys order = front ++ name :: back →
    ∃ d, d.name = name ∧ registry.Writes settings front d

/-- A name that is registered stays so when more references are resolved. -/
theorem isSome_entryAfter?_append (h : (registry.entryAfter? resolved name).isSome = true)
    (followed : List Ref) : (registry.entryAfter? (resolved ++ followed) name).isSome = true := by
  unfold entryAfter? at h ⊢
  cases hf : Entries.find? name registry.entries with
  | some entry => rfl
  | none =>
    simp only [hf] at h
    simp [Entries.find?_append, h]

/-- The same names have the same entry. -/
theorem entryAfter?_congr {other : Key} (h : name.same other = true) (resolved : List Ref) :
    registry.entryAfter? resolved name = registry.entryAfter? resolved other := by
  rw [entryAfter?, entryAfter?, Entries.find?_congr h, Entries.find?_congr h]

/-- Where resolving a reference adds nothing, the registered names are those of the registry. -/
theorem entryBehind?_of_adds (h : ∀ ref, registry.adds ref = []) (front : List Key) (name : Key) :
    registry.entryBehind? settings front name = Entries.find? name registry.entries := by
  have hnone : (registry.declarations settings front {} []).events.flatMap registry.adds = [] :=
    List.flatMap_eq_nil_iff.mpr fun ref _ => h ref
  rw [entryBehind?, entryAfter?, hnone]
  cases Entries.find? name registry.entries <;> rfl

/-! ### Repeated names -/

/-- Of the names of an order only those count that are new, each where it comes first. -/
theorem declarations_distinctKeys (order : List Key)
    (h : ∀ k ∈ generated, (registry.entryAfter? resolved k).isSome = true) :
    registry.declarations settings order ⟨generated, []⟩ resolved =
      registry.declarations settings
        ((distinctKeys order).filter fun k => !k.isAmong generated) ⟨generated, []⟩ resolved := by
  induction order generalizing generated resolved with
  | nil => rfl
  | cons name rest ih =>
    rw [distinctKeys]
    cases hn : name.isAmong generated with
    | true =>
      obtain ⟨k, hk, hs⟩ := Key.isAmong_iff.mp hn
      obtain ⟨entry, he⟩ := Option.isSome_iff_exists.mp (entryAfter?_congr hs resolved ▸ h k hk)
      have hrest : ((distinctKeys rest).filter fun other => !name.same other).filter
          (fun k => !k.isAmong generated) =
            (distinctKeys rest).filter fun k => !k.isAmong generated := by
        rw [List.filter_filter]
        refine List.filter_congr fun other _ => ?_
        cases hsame : name.same other with
        | false => simp
        | true => simp [← Key.isAmong_congr hsame, hn]
      rw [List.filter_cons_of_neg (by simp [hn]), hrest, ← ih h, declarations_cons_again he hn]
    | false =>
      have hrest : ((distinctKeys rest).filter fun other => !name.same other).filter
          (fun k => !k.isAmong generated) =
            (distinctKeys rest).filter fun k => !k.isAmong (generated ++ [name]) := by
        rw [List.filter_filter]
        exact List.filter_congr fun other _ => by simp [Bool.not_or]
      rw [List.filter_cons_of_pos (by simp [hn]), hrest]
      cases he : registry.entryAfter? resolved name with
      | none => simp only [declarations, he]
      | some entry =>
        rw [declarations_cons he hn, declarations_cons he hn, ih]
        refine List.forall_mem_append.mpr ⟨fun k hk => isSome_entryAfter?_append (h k hk) _, ?_⟩
        refine List.forall_mem_singleton.mpr (isSome_entryAfter?_append ?_ _)
        rw [he, Option.isSome_some]

/-- The declarations of an order are those of its distinct names. -/
theorem declarations_eq (order : List Key) : registry.declarations settings order {} [] =
    registry.declarations settings (distinctKeys order) {} [] := by
  have hall : (distinctKeys order).filter (fun k => !k.isAmong []) = distinctKeys order :=
    List.filter_eq_self.mpr fun _ _ => rfl
  have h : registry.declarations settings order ⟨[], []⟩ [] = registry.declarations settings
      ((distinctKeys order).filter fun k => !k.isAmong []) ⟨[], []⟩ [] :=
    declarations_distinctKeys order (by simp)
  rwa [hall] at h

/-! ### One name behind others -/

/-- The declarations of an order go on behind those of its front. -/
theorem outcome_declarations_append (hd : KeysDiffer (generated ++ front))
    (h : (registry.declarations settings front ⟨generated, []⟩ resolved).outcome = .ok ds) :
    (registry.declarations settings (front ++ back) ⟨generated, []⟩ resolved).outcome =
      (registry.declarations settings back ⟨generated ++ front, []⟩
        (resolved ++ (registry.declarations settings front ⟨generated, []⟩
          resolved).events)).outcome.map (ds ++ ·) := by
  induction front generalizing generated resolved ds with
  | nil =>
    obtain rfl := Traced.pure_eq_ok.mp h
    simp only [declarations, Traced.pure_eq, List.append_nil, List.nil_append]
    cases (registry.declarations settings back ⟨generated, []⟩ resolved).outcome <;> rfl
  | cons name rest ih =>
    have hn : name.isAmong generated = false := hd.not_among_front (by simp)
    obtain ⟨entry, he⟩ := exists_entry_of_declarations h
    rw [List.cons_append, declarations_cons he hn]
    rw [declarations_cons he hn] at h ⊢
    obtain ⟨first, hfirst, h⟩ := Traced.bind_eq_ok.mp h
    obtain ⟨others, hothers, h⟩ := Traced.bind_eq_ok.mp h
    obtain rfl := Traced.pure_eq_ok.mp h
    have hd' : KeysDiffer ((generated ++ [name]) ++ rest) := by simpa using hd
    have hih := ih hd' hothers
    rw [Traced.events_bind hfirst, Traced.events_bind hothers, Traced.outcome_bind, hfirst]
    simp only [Except.bind, Traced.outcome_bind, hih, Traced.pure_eq, List.append_nil,
      List.append_assoc, List.cons_append, List.nil_append]
    cases (registry.declarations settings back ⟨generated ++ name :: rest, []⟩ _).outcome <;> rfl

/-- The declarations of an order are those of its front and what is declared behind it. -/
theorem outcome_declarations_behind (back : List Key) (hd : KeysDiffer front)
    (h : (registry.declarations settings front {} []).outcome = .ok ds) :
    (registry.declarations settings (front ++ back) {} []).outcome =
      (registry.declarations settings back ⟨front, []⟩
        (registry.declarations settings front {} []).events).outcome.map (ds ++ ·) :=
  outcome_declarations_append hd h

/-- A name that is not registered when its turn comes ends everything. -/
theorem declarations_eq_error (hd : KeysDiffer front)
    (h : (registry.declarations settings front {} []).outcome = .ok ds)
    (hn : registry.entryBehind? settings front name = none) {t : Text} (ht : name.plain = .ok t) :
    (registry.declarations settings (front ++ name :: back) {} []).outcome =
      .error (.notRegistered t) := by
  rw [entryBehind?] at hn
  rw [outcome_declarations_behind (name :: back) hd h, declarations]
  simp only [hn, ht]
  rfl

/-- A name behind others adds the declaration that is written for it there. -/
theorem declarations_concat (hd : KeysDiffer (front ++ [name]))
    (h : (registry.declarations settings front {} []).outcome = .ok ds) {d : Declaration}
    (hname : d.name = name) (hw : registry.Writes settings front d) :
    (registry.declarations settings (front ++ [name]) {} []).outcome = .ok (ds ++ [d]) := by
  obtain ⟨hfront, -, -⟩ := List.pairwise_append.mp hd
  have hn : name.isAmong front = false := hd.not_among_front (by simp)
  obtain ⟨entry, he, hw⟩ := hw
  rw [hname] at he hw
  rw [entryBehind?] at he
  have hlast : (registry.declarations settings [name] ⟨front, []⟩
      (registry.declarations settings front {} []).events).outcome = .ok [d] := by
    rw [declarations_cons he hn]
    exact Traced.bind_eq_ok.mpr ⟨d, hw, rfl⟩
  rw [outcome_declarations_behind [name] hfront h, hlast]
  rfl

/-- The names of an order that are each registered in time and render there are declared, each by
what is written for it behind those in front. -/
theorem exists_declarations (hd : KeysDiffer order)
    (h : ∀ front name back, order = front ++ name :: back →
      ∃ d, d.name = name ∧ registry.Writes settings front d) :
    ∃ ds, (registry.declarations settings order {} []).outcome = .ok ds ∧
      ds.map (·.name) = order ∧ ∀ front d back, ds = front ++ d :: back →
        registry.Writes settings (front.map (·.name)) d := by
  induction order using List.reverseRecOn with
  | nil => exact ⟨[], rfl, rfl, by simp⟩
  | append_singleton names name ih =>
    obtain ⟨hnames, -, -⟩ := List.pairwise_append.mp hd
    obtain ⟨ds, hds, hmap, hwrites⟩ := ih hnames fun front k back hs =>
      h front k (back ++ [name]) (by rw [hs, List.append_assoc, List.cons_append])
    obtain ⟨d, hname, hw⟩ := h names name [] rfl
    refine ⟨ds ++ [d], declarations_concat hd hds hname hw, by simp [hmap, hname], ?_⟩
    intro front e back hs
    rcases List.eq_nil_or_concat back with rfl | ⟨others, last, rfl⟩
    · obtain ⟨rfl, he⟩ := List.append_inj' hs rfl
      obtain rfl := List.singleton_inj.mp he
      rwa [hmap]
    · have hs' : ds ++ [d] = (front ++ e :: others) ++ [last] := by simpa using hs
      exact hwrites front e others (List.append_inj' hs' rfl).1

/-- What is declared behind some names is what is written for it there. -/
theorem exists_writes (hd : KeysDiffer (front ++ name :: back))
    (h : (registry.declarations settings (front ++ name :: back) {} []).outcome = .ok ds) :
    ∃ d, d.name = name ∧ registry.Writes settings front d := by
  obtain ⟨hfront, -, -⟩ := List.pairwise_append.mp hd
  have hn : name.isAmong front = false := hd.not_among_front (by simp)
  obtain ⟨first, -, -, hfirst⟩ := exists_of_declarations_append h
  rw [outcome_declarations_behind (name :: back) hfront hfirst] at h
  obtain ⟨others, ho, -⟩ := exceptMap_eq_ok.mp h
  obtain ⟨entry, he⟩ := exists_entry_of_declarations ho
  rw [declarations_cons he hn] at ho
  obtain ⟨d, hw, -⟩ := Traced.bind_eq_ok.mp ho
  obtain ⟨rfl, -, -⟩ := declare_eq_ok hw
  exact ⟨d, rfl, entry, he, hw⟩

/-- An order can be written exactly when its declarations are. -/
theorem canWrite_iff : registry.CanWrite settings order ↔
    ∃ ds, (registry.declarations settings order {} []).outcome = .ok ds := by
  rw [declarations_eq]
  constructor
  · intro h
    obtain ⟨ds, hds, -, -⟩ := exists_declarations (keysDiffer_distinctKeys order) h
    exact ⟨ds, hds⟩
  · rintro ⟨ds, hds⟩ front name back hs
    rw [hs] at hds
    exact exists_writes (hs ▸ keysDiffer_distinctKeys order) hds

/-- What is declared is registered from then on. -/
theorem isSome_of_declarations
    (h : (registry.declarations settings order ⟨generated, []⟩ resolved).outcome = .ok ds)
    (hn : name ∈ order) :
    (registry.entryAfter? (resolved ++
      (registry.declarations settings order ⟨generated, []⟩ resolved).events) name).isSome =
        true := by
  induction order generalizing generated resolved ds with
  | nil => simp at hn
  | cons first rest ih =>
    obtain ⟨entry, he⟩ := exists_entry_of_declarations h
    have hfirst : (registry.entryAfter? resolved first).isSome = true := by rw [he]; rfl
    cases hg : first.isAmong generated with
    | true =>
      rw [declarations_cons_again he hg] at h ⊢
      rcases List.mem_cons.mp hn with rfl | hn
      · exact isSome_entryAfter?_append hfirst _
      · exact ih h hn
    | false =>
      rw [declarations_cons he hg] at h ⊢
      obtain ⟨d, hd, h⟩ := Traced.bind_eq_ok.mp h
      obtain ⟨others, ho, h⟩ := Traced.bind_eq_ok.mp h
      rw [Traced.events_bind hd, Traced.events_bind ho, ← List.append_assoc, ← List.append_assoc]
      rcases List.mem_cons.mp hn with rfl | hn
      · rw [List.append_assoc, List.append_assoc]
        exact isSome_entryAfter?_append hfirst _
      · exact isSome_entryAfter?_append (ih ho hn) _

end Registry

/-! ### Places in an order -/

/-- Leaving out what is neither of two things does not change which of them comes first. -/
theorem findIdx_filter_lt {α : Type} {p q r : α → Bool} (hp : ∀ x, p x = true → r x = true)
    (hq : ∀ x, q x = true → r x = true) (xs : List α) :
    (xs.filter r).findIdx p < (xs.filter r).findIdx q ↔ xs.findIdx p < xs.findIdx q := by
  induction xs with
  | nil => rfl
  | cons x rest ih =>
    cases hr : r x with
    | true =>
      rw [List.filter_cons_of_pos hr]
      simp only [List.findIdx_cons]
      cases p x <;> cases q x <;> simp [ih]
    | false =>
      have hpx : p x = false := Bool.eq_false_iff.mpr fun h => by simp [hp x h] at hr
      have hqx : q x = false := Bool.eq_false_iff.mpr fun h => by simp [hq x h] at hr
      rw [List.filter_cons_of_neg (by simp [hr]), ih]
      simp [List.findIdx_cons, hpx, hqx]

/-- Which of two names comes first is the same among the distinct names. -/
theorem findIdx_distinctKeys_lt (order : List Key) (a b : Key) :
    (distinctKeys order).findIdx (·.same a) < (distinctKeys order).findIdx (·.same b) ↔
      order.findIdx (·.same a) < order.findIdx (·.same b) := by
  induction order with
  | nil => rfl
  | cons k rest ih =>
    rw [distinctKeys]
    simp only [List.findIdx_cons]
    cases ha : k.same a with
    | true => cases hb : k.same b <;> simp
    | false =>
      cases hb : k.same b with
      | true => simp
      | false =>
        have other : ∀ c : Key, k.same c = false → ∀ x : Key, x.same c = true →
            (!k.same x) = true := by
          intro c hc x hx
          rw [Key.same_right hx, hc]
          rfl
        simpa [findIdx_filter_lt (other a ha) (other b hb)] using ih

/-- The names in front of a name among the distinct names are those that come first before it. -/
theorem isAmong_front_iff {order front back : List Key} {name : Key}
    (h : distinctKeys order = front ++ name :: back) (other : Key) :
    other.isAmong front = true ↔
      order.findIdx (·.same other) < order.findIdx (·.same name) := by
  have hn : name.isAmong front = false :=
    KeysDiffer.not_among_front (h ▸ keysDiffer_distinctKeys order) (by simp)
  have hfront : ∀ k : Key, k.isAmong front = true ↔
      front.findIdx (·.same k) < front.length := by
    intro k
    rw [List.findIdx_lt_length, Key.isAmong_iff]
  have hname : (front ++ name :: back).findIdx (·.same name) = front.length := by
    rw [List.findIdx_append, if_neg (by simp [← hfront, hn]), List.findIdx_cons, Key.same_self]
    simp
  rw [← findIdx_distinctKeys_lt, h, hname, hfront, List.findIdx_append]
  split <;> omega

/-- How a reference is used in a declaration of an order. -/
structure IsUsedInOrder (settings : Settings) (order : List Key) (own : Key) (ref : Ref)
    (u : Use) : Prop where
  /-- The use is that of the name that is referred to. -/
  name : u.name = ref.name
  /-- It is the identifier of the name or defers to it. -/
  identifier : settings.identifier (.ofKey ref.name) = .ok u.identifier
  /-- It is the bare identifier exactly when the name is listed and comes first in front of the
  name that is declared. -/
  bare : u.text = u.identifier ↔ order.findIdx (·.same ref.name) < order.findIdx (·.same own)
  /-- Any other use is deferred. -/
  deferred : u.text ≠ u.identifier → u.text = "z.lazy(() => " ++ u.identifier ++ ")"

/-- A file holds the declarations of an order. -/
structure Registry.IsDeclaredInOrder (registry : Registry) (settings : Settings)
    (order : List Key) (file : CodeFile) : Prop where
  /-- Each listed name has one declaration, where the name comes first. -/
  names : file.declarations.map (·.name) = distinctKeys order
  /-- A declaration has the identifier of its name and is written for the entry that has the name
  at that point; each reference of the body is used, one by one. -/
  uses : ∀ front d back, file.declarations = front ++ d :: back →
    settings.identifier (.ofKey d.name) = .ok d.identifier ∧
    ∃ entry body, registry.entryBehind? settings (front.map (·.name)) d.name = some entry ∧
      (registry.bodyOf entry).outcome = .ok body ∧
      List.Forall₂ (IsUsedInOrder settings order d.name) body.refs d.term.uses

namespace Registry

variable {registry : Registry} {settings : Settings} {order front : List Key}
  {ds : List Declaration}

/-- What is written for a name among the distinct names of an order uses each reference of the
body by the places of the two names in the order. -/
theorem Writes.isUsedInOrder {back : List Key} {d : Declaration}
    (hw : registry.Writes settings front d) (h : distinctKeys order = front ++ d.name :: back) :
    settings.identifier (.ofKey d.name) = .ok d.identifier ∧
    ∃ entry body, registry.entryBehind? settings front d.name = some entry ∧
      (registry.bodyOf entry).outcome = .ok body ∧
      List.Forall₂ (IsUsedInOrder settings order d.name) body.refs d.term.uses := by
  obtain ⟨entry, he, hw⟩ := hw
  obtain ⟨-, hidentifier, body, hbody, hterm⟩ := declare_eq_ok hw
  have hn : d.name.isAmong front = false :=
    KeysDiffer.not_among_front (h ▸ keysDiffer_distinctKeys order) (by simp)
  refine ⟨hidentifier, entry, body, he, hbody,
    (Context.renders_term _ body d.name d.term hterm).imp fun ref u hr => ?_⟩
  have hdeferred : u.isDeferred = !ref.name.isAmong front := by
    rw [hr.isDeferred, Progress.isDeclared_start hn]
  refine ⟨hr.name, hr.identifier, ?_, fun hu => ?_⟩
  · rw [u.text_eq_identifier, hdeferred, Bool.not_eq_false', isAmong_front_iff h]
  · rw [Use.text, if_pos (by simpa [u.text_eq_identifier] using hu)]

/-- The declarations that are written for an order are those of a file for it. -/
theorem isDeclaredInOrder_of_declarations (module : Text)
    (h : (registry.declarations settings order {} []).outcome = .ok ds) :
    registry.IsDeclaredInOrder settings order ⟨module, ds⟩ := by
  have hcan := canWrite_iff.mpr ⟨ds, h⟩
  rw [declarations_eq] at h
  obtain ⟨others, ho, hnames, hwrites⟩ := exists_declarations (keysDiffer_distinctKeys order) hcan
  obtain rfl : others = ds := Except.ok.inj (ho.symm.trans h)
  refine ⟨hnames, fun front d back hs => ?_⟩
  have hkeys : distinctKeys order = front.map (·.name) ++ d.name :: back.map (·.name) := by
    rw [← hnames, show others = front ++ d :: back from hs, List.map_append, List.map_cons]
  exact (hwrites front d back hs).isUsedInOrder hkeys

/-- All of an order is keys. -/
theorem leadingKeys_ofKey (order : List Key) :
    leadingKeys (order.map Value.ofKey) = (order, none) := by
  induction order with
  | nil => rfl
  | cons k rest ih =>
    have hk : (Value.ofKey k).toKey? = some k := rfl
    simp only [List.map_cons, leadingKeys, hk, ih]

/-- The code of an order is that of the file for its names. -/
theorem codeOfListed_listed (registry : Registry) (settings : Settings) (order : List Key) :
    (registry.codeOfListed settings (listed order)).outcome =
      (registry.fileInOrder settings [] order).outcome.map CodeFile.text := by
  have hitems : (listed order).itemsOf = .ok (order.map Value.ofKey) := rfl
  unfold codeOfListed
  rw [Traced.outcome_bind, hitems]
  simp only [Following.asRendering, Traced.mapError, Traced.ofExcept, Except.mapError, Except.bind,
    leadingKeys_ofKey, Traced.outcome_bind]
  cases (registry.fileInOrder settings [] order).outcome <;> rfl

/-- The code of an order is written when its declarations and the module are. -/
theorem codeOfListed_eq_ok {text : Text} :
    (registry.codeOfListed settings (listed order)).outcome = .ok text ↔
      ∃ ds module, (registry.declarations settings order {} []).outcome = .ok ds ∧
        settings.module.plain = .ok module ∧ (⟨module, ds⟩ : CodeFile).text = text := by
  rw [codeOfListed_listed, exceptMap_eq_ok]
  unfold fileInOrder
  simp only [Traced.bind_eq_ok, Context.written_eq_ok, Traced.pure_eq_ok]
  constructor
  · rintro ⟨file, ⟨ds, hds, module, hm, rfl⟩, ht⟩
    exact ⟨ds, module, hds, hm, ht⟩
  · rintro ⟨ds, module, hds, hm, ht⟩
    exact ⟨_, ⟨ds, hds, module, hm, rfl⟩, ht⟩

/-- An error of the declarations of an order is that of its code. -/
theorem codeOfListed_eq_error {e : GenerationError}
    (h : (registry.declarations settings order {} []).outcome = .error e) :
    (registry.codeOfListed settings (listed order)).outcome = .error e := by
  rw [codeOfListed_listed, exceptMap_eq_error]
  unfold fileInOrder
  exact Traced.bind_eq_error.mpr (.inl h)

/-- The code of an order is that of its distinct names. -/
theorem codeOfListed_distinctKeys (registry : Registry) (settings : Settings) (order : List Key) :
    (registry.codeOfListed settings (listed order)).outcome =
      (registry.codeOfListed settings (listed (distinctKeys order))).outcome := by
  simp only [codeOfListed_listed, fileInOrder]
  rw [declarations_eq]

/-- A name that is not registered when its turn comes ends the code of an order with its error,
whatever is listed behind it. -/
theorem codeOfListed_eq_notRegistered {name : Key} {back : List Key} {t : Text}
    (hfront : registry.CanWrite settings front)
    (hn : registry.entryBehind? settings front name = none) (ht : name.plain = .ok t) :
    (registry.codeOfListed settings (listed (front ++ name :: back))).outcome =
      .error (.notRegistered t) := by
  obtain ⟨ds, hds⟩ := canWrite_iff.mp hfront
  -- What is declared is registered, so the name is not among those in front.
  have hnew : name.isAmong front = false := by
    refine Bool.eq_false_iff.mpr fun ha => ?_
    obtain ⟨k, hk, hs⟩ := Key.isAmong_iff.mp ha
    have hsome := isSome_of_declarations hds hk
    rw [List.nil_append, entryAfter?_congr hs, ← entryBehind?, hn] at hsome
    simp at hsome
  rw [entryBehind?, declarations_eq, ← entryBehind?] at hn
  rw [declarations_eq] at hds
  refine codeOfListed_eq_error ?_
  rw [declarations_eq, distinctKeys_append, distinctKeys, List.filter_cons_of_pos (by simp [hnew])]
  exact declarations_eq_error (keysDiffer_distinctKeys front) hds hn ht

/-- A name that the registry has keeps its entry while others are declared. -/
theorem entryBehind?_of_has {name : Key} (h : Entries.has name registry.entries = true) :
    registry.entryBehind? settings front name = Entries.find? name registry.entries := by
  obtain ⟨entry, he⟩ := Entries.exists_find? h
  rw [entryBehind?, entryAfter?, he]

end Registry

/-- The code of an order that lists any names, any number of times, is that of its distinct names.
It is written exactly when each of these is registered in its turn and its body renders there, and
then it is that of one file: it declares each name once, where the name comes first, and a
reference inside a declaration is the bare identifier exactly when the name that it stands for
comes first in front of the name that is declared. Behind names that are declared, one that is not
registered ends everything with its error. What is registered in the turn of a name is what the
registry has, unless declaring the others adds to it. -/
theorem code_follows_order (registry : Registry) (settings : Settings) (order : List Key) :
    (registry.codeOfListed settings (listed order)).outcome =
        (registry.codeOfListed settings (listed (distinctKeys order))).outcome ∧
      ((∃ text, (registry.codeOfListed settings (listed order)).outcome = .ok text) ↔
        (∃ module, settings.module.plain = .ok module) ∧ registry.CanWrite settings order) ∧
      (∀ text, (registry.codeOfListed settings (listed order)).outcome = .ok text →
        ∃ file : CodeFile, file.text = text ∧ settings.module.plain = .ok file.module ∧
          registry.IsDeclaredInOrder settings order file) ∧
      (∀ front name back t, order = front ++ name :: back → registry.CanWrite settings front →
        registry.entryBehind? settings front name = none → name.plain = .ok t →
        (registry.codeOfListed settings (listed order)).outcome = .error (.notRegistered t)) ∧
      ∀ front name, Entries.has name registry.entries = true ∨ (∀ ref, registry.adds ref = []) →
        registry.entryBehind? settings front name = Entries.find? name registry.entries := by
  refine ⟨Registry.codeOfListed_distinctKeys registry settings order, ?_, fun text h => ?_, ?_, ?_⟩
  · rw [Registry.canWrite_iff]
    constructor
    · rintro ⟨text, h⟩
      obtain ⟨ds, module, hds, hm, -⟩ := Registry.codeOfListed_eq_ok.mp h
      exact ⟨⟨module, hm⟩, ds, hds⟩
    · rintro ⟨⟨module, hm⟩, ds, hds⟩
      exact ⟨_, Registry.codeOfListed_eq_ok.mpr ⟨ds, module, hds, hm, rfl⟩⟩
  · obtain ⟨ds, module, hds, hm, rfl⟩ := Registry.codeOfListed_eq_ok.mp h
    exact ⟨_, rfl, hm, Registry.isDeclaredInOrder_of_declarations module hds⟩
  · rintro front name back t rfl hfront hn ht
    exact Registry.codeOfListed_eq_notRegistered hfront hn ht
  · intro front name h
    rcases h with h | h
    · exact Registry.entryBehind?_of_has h
    · exact Registry.entryBehind?_of_adds h front name

/-- A schema that refers to itself and to two others, one of which refers back. -/
def crossRegistry : Registry :=
  .ofEntries [] [("A", .object [("b", .lazy ⟨"B", 0⟩), ("a", .optional (.lazy ⟨"A", 0⟩)),
    ("c", .lazy ⟨"C", 0⟩)] []), ("B", .array (.lazy ⟨"A", 0⟩)), ("C", .string [])]

/-- The code that declares two of the three schemas, the one that refers back first. -/
def crossCode : Text :=
  ("import \x7b z \x7d from 'zod';\n\n" : Text) ++
    "export const BSchema = z.array(z.lazy(() => ASchema));\n\n" ++
    "export const ASchema = z.object(\x7b\n  b: BSchema,\n" ++
    "  a: z.lazy(() => ASchema).optional(),\n  c: z.lazy(() => CSchema)\n\x7d);"

/-- An order of two of the three schemas, one of them again behind the other, and an order that
goes on with a name that is not registered. -/
theorem code_follows_order_crossRegistry :
    (∃ file : CodeFile, crossRegistry.IsDeclaredInOrder {} ["B", "A", "B"] file ∧
      file.text = crossCode) ∧
    (crossRegistry.codeOfListed {} (listed ["B", "A", "X", "C"])).outcome =
      .error (.notRegistered "X") := by
  obtain ⟨hdistinct, -, hfile, -⟩ := code_follows_order crossRegistry {} ["B", "A", "B"]
  obtain ⟨-, hiff, -⟩ := code_follows_order crossRegistry {} ["B", "A"]
  obtain ⟨-, -, -, herror, hadds⟩ := code_follows_order crossRegistry {} ["B", "A", "X", "C"]
  have hcode : (crossRegistry.codeOfListed {} (listed ["B", "A"])).outcome = .ok crossCode :=
    except_eq_ok_of_toOption (by decide +kernel)
  have hkeys : distinctKeys ["B", "A", "B"] = (["B", "A"] : List Key) := by decide
  rw [hkeys, hcode] at hdistinct
  obtain ⟨file, htext, -, hdeclared⟩ := hfile crossCode hdistinct
  obtain ⟨-, hcan⟩ := hiff.mp ⟨crossCode, hcode⟩
  refine ⟨⟨file, hdeclared, htext⟩, herror ["B", "A"] "X" ["C"] "X" rfl hcan ?_ rfl⟩
  exact (hadds ["B", "A"] "X" (.inr fun _ => rfl)).trans rfl

end ZodSchemas
