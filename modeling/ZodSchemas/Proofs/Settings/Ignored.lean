import ZodSchemas.Proofs.Declaration.Spelling

/-!
# Keys that settings ignore

Settings are read entry by entry. An entry under a key that names neither a
setting nor anything else that settings have leaves them as they are, and two
settings that differ at most in the operation of reading stay so, whatever is
read into them. So such an entry may stand anywhere in the mapping. Beside the
three settings five keys are not ignored: two name operations, and three are
reserved.
-/

namespace ZodSchemas

/-- Two results that are the same error, or values that are related. -/
inductive EqualUpTo {ε α : Type} (r : α → α → Prop) : Except ε α → Except ε α → Prop where
  /-- The same error. -/
  | failed (e : ε) : EqualUpTo r (.error e) (.error e)
  /-- Related values. -/
  | reached {a b : α} (h : r a b) : EqualUpTo r (.ok a) (.ok b)

namespace EqualUpTo

variable {ε α β : Type} {r p : α → α → Prop} {x y : Except ε α}

/-- Values that are related are related in any way that follows. -/
theorem mono (h : EqualUpTo r x y) (hp : ∀ a b, r a b → p a b) : EqualUpTo p x y := by
  cases h with
  | failed e => exact failed e
  | reached h => exact reached (hp _ _ h)

/-- Steps that keep values related lead from related values to related results. -/
theorem bind {f g : α → Except ε α} (h : EqualUpTo r x y)
    (hf : ∀ a b, r a b → EqualUpTo r (f a) (g b)) : EqualUpTo r (x >>= f) (y >>= g) := by
  cases h with
  | failed e => exact failed e
  | reached h => exact hf _ _ h

/-- A fold whose steps keep values related keeps them related. -/
theorem foldlM {f : α → β → Except ε α}
    (hf : ∀ a b, r a b → ∀ x, EqualUpTo r (f a x) (f b x)) (xs : List β) {a b : α} (h : r a b) :
    EqualUpTo r (xs.foldlM f a) (xs.foldlM f b) := by
  induction xs generalizing a b with
  | nil => exact reached h
  | cons x rest ih =>
    rw [List.foldlM_cons, List.foldlM_cons]
    exact (hf a b h x).bind fun c d hcd => ih hcd

end EqualUpTo

namespace Settings

/-- Settings that behave alike: they are written alike, name declarations alike and give the same
code for every document, with the same notes. -/
structure BehavesAs (s t : Settings) : Prop where
  /-- They are written as the same mapping. -/
  toValue : s.toValue = t.toValue
  /-- They give the same identifiers. -/
  identifier : ∀ name, s.identifier name = t.identifier name
  /-- They give the same code. -/
  generate : ∀ document, generate document s = generate document t

/-- An entry under a key may be added to any mapping, at any place and with any value: the mapping
is read as before, or fails as before. -/
def IsIgnored (key : Text) : Prop :=
  ∀ (front back : Entries Value) (v : Value),
    EqualUpTo BehavesAs (ofValue (.map (front ++ back)))
      (ofValue (.map (front ++ (.text key, v) :: back)))

/-- The keys of the settings. -/
def settingKeys : List Text := ["prefix", "zod_module", "output"]

/-- The keys of operations that settings are used for. -/
def operationKeys : List Text := ["schema_identifier", "to_dict"]

/-- The keys that take no value, or not any, and one that replaces everything. -/
def reservedKeys : List Text := ["__class__", "__weakref__", "__dict__"]

/-- Settings that differ at most in the operation of reading settings. -/
structure Agrees (s t : Settings) : Prop where
  /-- The prefix is the same. -/
  namePrefix : s.namePrefix = t.namePrefix
  /-- The module is the same. -/
  module : s.module = t.module
  /-- The output settings are the same. -/
  output : s.output = t.output
  /-- The same other operations are replaced. -/
  replaced : ∀ operation, operation ≠ .ofEntries →
    (operation ∈ s.replaced ↔ operation ∈ t.replaced)

variable {s t : Settings} {key : Text}

/-- Settings agree with themselves. -/
theorem Agrees.refl (s : Settings) : s.Agrees s := ⟨rfl, rfl, rfl, fun _ _ => Iff.rfl⟩

/-- Settings that agree give the same identifiers. -/
theorem Agrees.identifier (h : s.Agrees t) (name : Value) :
    s.identifier name = t.identifier name := by
  have hreplaced : Operation.identifier ∈ s.replaced ↔ Operation.identifier ∈ t.replaced :=
    h.replaced .identifier (by decide)
  simp only [Settings.identifier, hreplaced, h.namePrefix]

/-- Settings that agree are written alike. -/
theorem Agrees.toValue (h : s.Agrees t) : s.toValue = t.toValue := by
  have hreplaced : Operation.toEntries ∈ s.replaced ↔ Operation.toEntries ∈ t.replaced :=
    h.replaced .toEntries (by decide)
  have houtput : s.outputSettings = t.outputSettings := by
    rw [outputSettings, outputSettings, h.output]
  simp only [Settings.toValue, hreplaced, houtput, h.namePrefix, h.module]

/-- Settings that agree behave alike. -/
theorem Agrees.behavesAs (h : s.Agrees t) : s.BehavesAs t := by
  refine ⟨h.toValue, h.identifier, fun document => ?_⟩
  have hrespells : s.Respells id t :=
    ⟨fun name => by rw [id_map, h.identifier name], h.module⟩
  exact generate_eq_of_respells hrespells document

/-- Settings go on to agree when an operation is replaced in both. -/
theorem Agrees.replaceOperation (h : s.Agrees t) (key : Text) :
    (s.replaceOperation key).Agrees (t.replaceOperation key) := by
  rw [Settings.replaceOperation, Settings.replaceOperation]
  cases operations.lookup key with
  | none => exact h
  | some operation =>
    refine ⟨h.namePrefix, h.module, h.output, fun other ho => ?_⟩
    rw [List.mem_cons, List.mem_cons, h.replaced other ho]

/-- An entry is written into settings that agree with the same error, or they go on to agree. -/
theorem Agrees.set (h : s.Agrees t) (key : Text) (v : Value) :
    EqualUpTo Agrees (s.set key v) (t.set key v) := by
  have written : ∀ x : Except SettingsError OutputSettings,
      EqualUpTo Agrees (x >>= fun output => .ok { s with output := .settings output })
        (x >>= fun output => .ok { t with output := .settings output }) := by
    intro x
    cases x with
    | error e => exact .failed e
    | ok output => exact .reached ⟨h.namePrefix, h.module, rfl, h.replaced⟩
  have other : s.Agrees t → ({ s with output := .other v } : Settings).Agrees
      { t with output := .other v } := fun h => ⟨h.namePrefix, h.module, rfl, h.replaced⟩
  rw [Settings.set, Settings.set]
  -- the prefix, the module and the output settings
  split
  · exact .reached ⟨rfl, h.module, h.output, h.replaced⟩
  split
  · exact .reached ⟨h.namePrefix, rfl, h.output, h.replaced⟩
  split
  · split
    · exact written _
    · rw [← h.output]
      split
      · exact .reached h
      · exact .reached (other h)
  -- what cannot be set, and what replaces all entries or an operation
  split
  · exact .failed _
  split
  · exact .failed _
  split
  · split
    · exact .reached (Agrees.refl _)
    · exact .failed _
  · exact .reached (h.replaceOperation key)

/-- Write one entry into settings, whose key must be a text. -/
def setEntry (s : Settings) (e : Key × Value) : Except SettingsError Settings :=
  match e.1 with
  | .text key => set s key e.2
  | key => .error (.fault (.noPropertyName (Value.ofKey key).kind))

/-- A mapping is read entry by entry. -/
theorem ofValue_map (entries : Entries Value) :
    ofValue (.map entries) = entries.foldlM setEntry {} := rfl

/-- Entries are written into settings that agree with the same error, or they go on to agree. -/
theorem Agrees.setEntry (h : s.Agrees t) (e : Key × Value) :
    EqualUpTo Agrees (s.setEntry e) (t.setEntry e) := by
  obtain ⟨key, v⟩ := e
  cases key with
  | text key => exact h.set key v
  | _ => exact .failed _

/-- A key that names no setting, no operation that settings are used for and nothing reserved
replaces the operation of reading at most. -/
theorem exists_agrees_of_set (hk : key ∉ settingKeys ++ operationKeys ++ reservedKeys)
    (s : Settings) (v : Value) : ∃ t, s.set key v = .ok t ∧ s.Agrees t := by
  simp only [settingKeys, operationKeys, reservedKeys, List.cons_append, List.nil_append,
    List.mem_cons, List.not_mem_nil, or_false, not_or] at hk
  obtain ⟨hfront, hmodule, houtput, hidentifier, hentries, hclass, hweak, hdict⟩ := hk
  have hset : s.set key v = .ok (s.replaceOperation key) := by
    rw [Settings.set, if_neg hfront, if_neg hmodule, if_neg houtput, if_neg hclass, if_neg hweak,
      if_neg hdict]
  refine ⟨_, hset, ?_⟩
  have hlookup : ∀ operation, operations.lookup key = some operation → operation = .ofEntries := by
    intro operation h
    obtain ⟨front, back, hsplit, -⟩ := List.lookup_eq_some_iff.mp h
    have hmem : (key, operation) ∈ operations := by simp [hsplit]
    have hnamed : key = "from_dict" ∧ operation = .ofEntries := by
      simpa [operations, hidentifier, hentries] using hmem
    exact hnamed.2
  rw [Settings.replaceOperation]
  cases hl : operations.lookup key with
  | none => exact Agrees.refl s
  | some operation =>
    obtain rfl := hlookup operation hl
    refine ⟨rfl, rfl, rfl, fun other ho => ?_⟩
    rw [List.mem_cons, or_iff_right ho]

/-- What names nothing that settings have is ignored. -/
theorem isIgnored_of_not_mem (hk : key ∉ settingKeys ++ operationKeys ++ reservedKeys) :
    IsIgnored key := by
  intro front back v
  have hadded : ∀ s : Settings, EqualUpTo Agrees (back.foldlM setEntry s)
      (((.text key, v) :: back).foldlM setEntry s) := by
    intro s
    obtain ⟨t, hset, hagrees⟩ := exists_agrees_of_set hk s v
    have hentry : s.setEntry (.text key, v) = .ok t := hset
    rw [List.foldlM_cons, hentry]
    exact EqualUpTo.foldlM (fun _ _ h e => h.setEntry e) back hagrees
  rw [ofValue_map, ofValue_map, List.foldlM_append, List.foldlM_append]
  have hread : EqualUpTo Agrees (front.foldlM setEntry {} >>= fun s => back.foldlM setEntry s)
      (front.foldlM setEntry {} >>= fun s => ((.text key, v) :: back).foldlM setEntry s) := by
    cases front.foldlM setEntry ({} : Settings) with
    | error e => exact .failed e
    | ok s => exact hadded s
  exact hread.mono fun _ _ h => h.behavesAs

/-- A key whose entry shows in how settings are written or in an identifier is not ignored. -/
theorem not_isIgnored_of_set {v : Value} {s : Settings}
    (hs : ofValue (.map [(.text key, v)]) = .ok s)
    (hd : s.toValue ≠ ({} : Settings).toValue ∨
      s.identifier (.text []) ≠ ({} : Settings).identifier (.text [])) : ¬IsIgnored key := by
  intro h
  have hread := h [] [] v
  rw [List.nil_append, List.nil_append, hs, show ofValue (.map []) = .ok {} from rfl] at hread
  cases hread with
  | reached hb =>
    rcases hd with hd | hd
    · exact hd hb.toValue.symm
    · exact hd (hb.identifier _).symm

/-- A key whose entry cannot be read is not ignored. -/
theorem not_isIgnored_of_error {v : Value} {e : SettingsError}
    (hs : ofValue (.map [(.text key, v)]) = .error e) : ¬IsIgnored key := by
  intro h
  have hread := h [] [] v
  rw [List.nil_append, List.nil_append, hs, show ofValue (.map []) = .ok {} from rfl] at hread
  cases hread

/-- The keys that name something that settings have are not ignored. -/
theorem not_isIgnored_of_mem (hk : key ∈ settingKeys ++ operationKeys ++ reservedKeys) :
    ¬IsIgnored key := by
  simp only [settingKeys, operationKeys, reservedKeys, List.cons_append, List.nil_append,
    List.mem_cons, List.not_mem_nil, or_false] at hk
  rcases hk with rfl | rfl | rfl | rfl | rfl | rfl | rfl | rfl
  -- the prefix shows in identifiers, the module and the output settings in what is written
  · exact not_isIgnored_of_set (v := .null) rfl (.inr (by intro h; cases h))
  · exact not_isIgnored_of_set (v := .null) rfl (.inl (by intro h; cases h))
  · exact not_isIgnored_of_set (v := .null) rfl (.inl (by intro h; cases h))
  -- an operation that is replaced cannot be used
  · exact not_isIgnored_of_set (v := .null) rfl (.inr (by intro h; cases h))
  · exact not_isIgnored_of_set (v := .null) rfl (.inl (by intro h; cases h))
  -- no value can be read under the reserved keys, or no value of that sort
  all_goals exact not_isIgnored_of_error (v := .null) rfl

end Settings

/-- A key is ignored, wherever its entry stands in a mapping and whatever its value is, exactly when
it names none of the three settings, neither of the two operations that settings are used for and
none of the three reserved keys. -/
theorem isIgnored_iff (key : Text) :
    Settings.IsIgnored key ↔
      key ∉ Settings.settingKeys ∧ key ∉ Settings.operationKeys ∧ key ∉ Settings.reservedKeys := by
  have hkeys : key ∉ Settings.settingKeys ++ Settings.operationKeys ++ Settings.reservedKeys ↔
      key ∉ Settings.settingKeys ∧ key ∉ Settings.operationKeys ∧
        key ∉ Settings.reservedKeys := by
    simp only [List.mem_append, not_or, and_assoc]
  rw [← hkeys]
  constructor
  · exact fun h hk => Settings.not_isIgnored_of_mem hk h
  · exact Settings.isIgnored_of_not_mem

/-- A mapping whose only key names none of the three settings is read, and the settings cannot be
written back, while those of the empty mapping can be. -/
theorem unknown_key_stops_writing : ∃ s v,
    Settings.ofValue (.map []) = .ok {} ∧ ({} : Settings).toValue = .ok v ∧
      Settings.ofValue (.map [("to_dict", .int 1)]) = .ok s ∧ s.toValue = .error .noOperation :=
  ⟨_, _, rfl, rfl, rfl, rfl⟩

end ZodSchemas
