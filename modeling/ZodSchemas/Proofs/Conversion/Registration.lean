import ZodSchemas.Proofs.Conversion.Accounting
import ZodSchemas.Proofs.Conversion.Mentions

/-!
# What is registered

An entry is the reference to its name from the last registration of all
definitions, and its name has a definition. Accounting for a reference adds an
entry at most, behind the others, and registering all definitions replaces the
entries but moves none. So handling a reference by looking into the registry
first comes to the same as asking the definitions.
-/

namespace ZodSchemas

namespace Entries

variable {α : Type}

/-- Writing leaves the keys in their places. -/
theorem keys_isPrefix_put (key : Key) (a : α) (entries : Entries α) :
    keys entries <+: keys (put key a entries) := by
  cases h : has key entries with
  | true => exact keys_put_of_has a h ▸ List.prefix_rfl
  | false =>
    rw [keys_put_of_not_has a h]
    exact List.prefix_append _ _

/-- Merging leaves the keys in their places. -/
theorem keys_isPrefix_merge (entries others : Entries α) :
    keys entries <+: keys (merge entries others) := by
  induction others generalizing entries with
  | nil => exact List.prefix_rfl
  | cons e rest ih => exact (keys_isPrefix_put e.1 e.2 entries).trans (ih _)

/-- The key of an entry after a write was there or was written. -/
theorem key_of_mem_put {key : Key} {a : α} {entries : Entries α} {e : Key × α}
    (h : e ∈ put key a entries) : e.1 = key ∨ e.1 ∈ keys entries := by
  cases hp : has key entries with
  | true =>
    right
    rw [← keys_put_of_has a hp]
    exact List.mem_map_of_mem h
  | false =>
    have hm : e.1 ∈ keys (put key a entries) := List.mem_map_of_mem h
    rw [keys_put_of_not_has a hp] at hm
    rcases List.mem_append.mp hm with hm | hm
    · exact .inr hm
    · exact .inl (List.mem_singleton.mp hm)

/-- The key of an entry after a merge comes from one of the two sides. -/
theorem key_of_mem_merge {entries others : Entries α} {e : Key × α}
    (h : e ∈ merge entries others) : e.1 ∈ keys entries ∨ e.1 ∈ keys others := by
  induction others generalizing entries with
  | nil => exact .inl (List.mem_map_of_mem h)
  | cons f rest ih =>
    rcases ih h with hm | hm
    · obtain ⟨g, hg, hk⟩ := List.mem_map.mp hm
      rcases key_of_mem_put hg with hf | hf
      · exact .inr (by simp [keys, ← hk, hf])
      · exact .inl (hk ▸ hf)
    · exact .inr (List.mem_cons_of_mem _ hm)

end Entries

namespace Value

/-- The names in some definitions differ. -/
def NamesDiffer (definitions : Value) : Prop :=
  ∀ entries, definitions.entries? = some entries → KeysDiffer (Entries.keys entries)

variable {definitions : Value}

/-- The defined names of definitions with different names differ. -/
theorem NamesDiffer.definedNames (h : definitions.NamesDiffer) :
    KeysDiffer (Converter.definedNames definitions) := by
  cases he : definitions.entries? with
  | none =>
    rw [Converter.definedNames, he]
    exact List.Pairwise.nil
  | some entries => exact (h entries he).sublist (Converter.definedNames_sublist he)

/-- What is among the defined names has a definition. -/
theorem NamesDiffer.defines (h : definitions.NamesDiffer) {name : Key}
    (hm : name ∈ Converter.definedNames definitions) : definitions.Defines name := by
  cases he : definitions.entries? with
  | none => simp [Converter.definedNames, he] at hm
  | some entries =>
    rw [Converter.definedNames, he] at hm
    obtain ⟨⟨other, v⟩, hmem, hv⟩ := List.mem_filterMap.mp hm
    obtain ⟨hs, rfl⟩ : v.entries?.isSome = true ∧ other = name := by simpa using hv
    obtain ⟨schema, hschema⟩ := Option.isSome_iff_exists.mp hs
    have hf := Entries.find?_of_mem (h entries he) hmem
    exact ⟨schema, definition?_eq_some.mpr ⟨entries, v, he, hf, hschema⟩⟩

/-- A text with a definition is among the defined names. -/
theorem Defines.mem_definedNames {t : Text} (h : definitions.Defines (.text t)) :
    Key.text t ∈ Converter.definedNames definitions := by
  obtain ⟨schema, hd⟩ := h
  exact Key.text_mem_of_isAmong (Converter.isAmong_definedNames hd)

end Value

namespace Converter

/-- Every entry is the reference to its name from the last registration of all definitions, and its
name is defined; no name has two entries. -/
structure IsSound (c : Converter) : Prop where
  /-- Registered names differ. -/
  differ : KeysDiffer (Entries.keys c.entries)
  /-- An entry refers to its name. -/
  entry : ∀ e ∈ c.entries, e.2 = ⟨e.1, c.round⟩
  /-- A registered name is defined. -/
  defined : ∀ e ∈ c.entries, e.1 ∈ definedNames c.definitions

variable {c : Converter}

/-- What a sound converter finds under a text is the reference to that text. -/
theorem IsSound.find? (h : c.IsSound) {t : Text} {ref : Ref}
    (hf : Entries.find? (.text t) c.entries = some ref) : ref = ⟨.text t, c.round⟩ := by
  obtain ⟨k, hk, hm⟩ := Entries.mem_of_find? hf
  obtain rfl := Key.eq_text_of_same hk
  exact h.entry _ hm

/-- A registered text has a definition. -/
theorem IsSound.defines (h : c.IsSound) (hd : c.definitions.NamesDiffer) {t : Text}
    (ht : Entries.has (.text t) c.entries = true) : c.definitions.Defines (.text t) := by
  rw [Entries.has_eq_isAmong] at ht
  obtain ⟨e, he, hk⟩ := List.mem_map.mp (Key.text_mem_of_isAmong ht)
  exact hd.defines (hk ▸ h.defined e he)

/-- A converter without entries is sound. -/
theorem isSound_of_entries_eq_nil (h : c.entries = []) : c.IsSound := by
  refine ⟨?_, ?_, ?_⟩ <;> simp [h, KeysDiffer, Entries.keys]

/-- Accounting for a reference changes no definitions. -/
@[simp] theorem source_note (c : Converter) (mention : Mention) :
    (c.note mention).source = c.source :=
  (note_spec c mention).1.source

/-- Accounting for references changes no definitions. -/
@[simp] theorem source_noteAll (c : Converter) (mentions : List Mention) :
    (c.noteAll mentions).source = c.source :=
  (noteAll_spec c mentions).1.source

/-- Accounting for references leaves the definitions. -/
@[simp] theorem definitions_noteAll (c : Converter) (mentions : List Mention) :
    (c.noteAll mentions).definitions = c.definitions :=
  congrArg Source.definitions (source_noteAll c mentions)

/-- Accounting for references registers no definition anew. -/
@[simp] theorem round_noteAll (c : Converter) (mentions : List Mention) :
    (c.noteAll mentions).round = c.round :=
  congrArg Source.round (source_noteAll c mentions)

/-- Accounting for a reference leaves the entries in their places. -/
theorem entries_isPrefix_note (c : Converter) (mention : Mention) :
    c.entries <+: (c.note mention).entries := by
  cases mention with
  | missing name => exact List.prefix_rfl
  | known name =>
    change c.entries <+: (c.register name).entries
    unfold register
    split
    · exact List.prefix_rfl
    · exact List.prefix_append _ _

/-- Accounting for references leaves the entries in their places. -/
theorem entries_isPrefix_noteAll (c : Converter) (mentions : List Mention) :
    c.entries <+: (c.noteAll mentions).entries := by
  induction mentions generalizing c with
  | nil => exact List.prefix_rfl
  | cons mention rest ih => exact (entries_isPrefix_note c mention).trans (ih _)

/-- A converter stays sound when it accounts for a reference of which the right is mentioned. -/
theorem IsSound.note (h : c.IsSound) {mention : Mention}
    (hm : mention.IsRight c.definitions) : (c.note mention).IsSound := by
  cases mention with
  | missing name => exact ⟨h.differ, h.entry, h.defined⟩
  | known name =>
    change (c.register name).IsSound
    unfold register
    split
    · exact h
    · next hn =>
      have hnot : Entries.has (.text name) c.entries = false := by simpa using hn
      refine ⟨?_, ?_, ?_⟩
      · dsimp only
        rw [Entries.keys_append]
        refine h.differ.append (List.pairwise_singleton _ _) fun k hk => ?_
        rw [← Bool.not_eq_true, Key.isAmong_iff]
        rintro ⟨other, ho, hs⟩
        obtain rfl : other = .text name := List.mem_singleton.mp ho
        rw [Entries.has_eq_isAmong, Key.isAmong_congr hs, Key.isAmong_of_mem hk] at hnot
        simp at hnot
      · exact List.forall_mem_append.mpr ⟨h.entry, by simp⟩
      · refine List.forall_mem_append.mpr ⟨h.defined, ?_⟩
        exact List.forall_mem_singleton.mpr hm.mem_definedNames

/-- A converter stays sound when it accounts for references of which the right is mentioned. -/
theorem IsSound.noteAll (h : c.IsSound) {mentions : List Mention}
    (hm : ∀ mention ∈ mentions, mention.IsRight c.definitions) : (c.noteAll mentions).IsSound := by
  induction mentions generalizing c with
  | nil => exact h
  | cons mention rest ih =>
    have hdefinitions : (c.note mention).definitions = c.definitions :=
      congrArg Source.definitions (source_note c mention)
    refine ih (h.note (hm mention (by simp))) fun other ho => ?_
    rw [hdefinitions]
    exact hm other (List.mem_cons_of_mem _ ho)

/-- What registering all definitions comes to. -/
theorem registerAll_eq_ok {later : Converter} : c.registerAll = .ok later ↔
    (∃ entries, c.definitions.entries? = some entries) ∧
      later = { c with
        round := c.round + 1
        entries := Entries.merge c.entries
          ((definedNames c.definitions).map fun name => (name, ⟨name, c.round + 1⟩)) } := by
  rw [registerAll, exceptBind_eq_ok]
  constructor
  · rintro ⟨entries, he, h⟩
    refine ⟨?_, (Except.ok.inj h).symm⟩
    unfold Value.entriesOf at he
    split at he
    · next listed hl => exact ⟨listed, hl⟩
    · simp at he
  · rintro ⟨⟨entries, he⟩, rfl⟩
    exact ⟨entries, by rw [Value.entriesOf, he], rfl⟩

/-- A converter stays sound when all definitions are registered: each entry is replaced. -/
theorem IsSound.registerAll {later : Converter} (h : c.IsSound) (hd : c.definitions.NamesDiffer)
    (hr : c.registerAll = .ok later) : later.IsSound := by
  obtain ⟨-, rfl⟩ := registerAll_eq_ok.mp hr
  have hdiffer := hd.definedNames
  set fresh : Entries Ref :=
    (definedNames c.definitions).map fun name => (name, ⟨name, c.round + 1⟩) with hfresh
  have hkeys : Entries.keys fresh = definedNames c.definitions := by
    simp [hfresh, Entries.keys, Function.comp_def]
  have hmerged : KeysDiffer (Entries.keys (Entries.merge c.entries fresh)) :=
    Entries.keysDiffer_merge h.differ
  have hdefined : ∀ e ∈ Entries.merge c.entries fresh, e.1 ∈ definedNames c.definitions := by
    intro e he
    rcases Entries.key_of_mem_merge he with hm | hm
    · obtain ⟨f, hf, hk⟩ := List.mem_map.mp hm
      exact hk ▸ h.defined f hf
    · exact hkeys ▸ hm
  refine ⟨hmerged, fun e he => ?_, hdefined⟩
  have hfind : Entries.find? e.1 (Entries.merge c.entries fresh) = some e.2 :=
    Entries.find?_of_mem hmerged he
  have hin : (e.1, (⟨e.1, c.round + 1⟩ : Ref)) ∈ fresh := List.mem_map_of_mem (hdefined e he)
  rw [Entries.find?_merge _ (hkeys ▸ hdiffer),
    Entries.find?_of_mem (hkeys ▸ hdiffer) hin] at hfind
  exact (Option.some.inj hfind).symm

/-- Registering all definitions leaves the names in their places. -/
theorem keys_isPrefix_registerAll {later : Converter} (h : c.registerAll = .ok later) :
    Entries.keys c.entries <+: Entries.keys later.entries := by
  obtain ⟨-, rfl⟩ := registerAll_eq_ok.mp h
  exact Entries.keys_isPrefix_merge _ _

/-- Handle a reference as it is met: a registered name has its entry; any other name is registered
if it has a definition, and noted as missing if not. -/
def refer (c : Converter) (target : Value) : Converter × Except Fault Node :=
  match Reference.resolve c.definitions target with
  | .error fault => (c, .error fault)
  | .ok (name, definition) =>
    match Entries.find? (.text name) c.entries with
    | some ref => (c, .ok (.lazy ref))
    | none =>
      match definition with
      | none => ({ c with missing := c.missing ++ [name] }, .ok .unknown)
      | some _ =>
        let ref : Ref := ⟨.text name, c.round⟩
        ({ c with entries := c.entries ++ [(.text name, ref)] }, .ok (.lazy ref))

/-- Looking into the registry first comes to the same as asking the definitions. -/
theorem refer_eq (h : c.IsSound) (hd : c.definitions.NamesDiffer) (target : Value) :
    c.refer target =
      (c.noteAll (c.source.reference target).events, (c.source.reference target).outcome) := by
  unfold refer Source.reference
  cases hr : Reference.resolve c.definitions target with
  | error fault => simp [source, hr, noteAll]
  | ok found =>
    obtain ⟨name, definition⟩ := found
    have hdefinition := (Source.definition?_of_resolve hr).2
    simp only [source, hr, Traced.liftM_ok, Traced.bind_ok]
    cases hf : Entries.find? (.text name) c.entries with
    | some ref =>
      have hhas : Entries.has (.text name) c.entries = true := Entries.has_of_find? hf
      obtain ⟨schema, hs⟩ := h.defines hd hhas
      obtain rfl : definition = some schema := by simpa [hdefinition] using hs
      obtain rfl := h.find? hf
      simp [noteAll, note, register, hhas, Traced.emit]
    | none =>
      have hhas : Entries.has (.text name) c.entries = false := by simp [Entries.has, hf]
      cases definition with
      | none => simp [noteAll, note, Traced.emit]
      | some schema => simp [noteAll, note, register, hhas, Traced.emit]

/-- The reference that comes back is the entry of its name, from the last registration of all
definitions. -/
theorem find?_refer (h : c.IsSound) {target : Value} {ref : Ref}
    (hr : (c.refer target).2 = .ok (.lazy ref)) :
    Entries.find? ref.name (c.refer target).1.entries = some ref ∧
      ref = ⟨ref.name, c.round⟩ := by
  unfold refer at hr ⊢
  cases hresolve : Reference.resolve c.definitions target with
  | error fault => simp [hresolve] at hr
  | ok found =>
    obtain ⟨name, definition⟩ := found
    simp only [hresolve] at hr ⊢
    cases hf : Entries.find? (.text name) c.entries with
    | some entry =>
      obtain rfl : entry = ref := by simpa [hf] using hr
      have he := h.find? hf
      refine ⟨?_, by rw [he]⟩
      rw [he] at hf ⊢
      exact hf
    | none =>
      cases definition with
      | none => simp [hf] at hr
      | some schema =>
        obtain rfl : ⟨.text name, c.round⟩ = ref := by simpa [hf] using hr
        refine ⟨?_, rfl⟩
        simp only
        rw [Entries.find?_append, hf]
        simp [Entries.find?]

end Converter

end ZodSchemas
