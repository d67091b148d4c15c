import ZodSchemas.Proofs.Conversion.Session
import ZodSchemas.Proofs.Value.Overlays

/-!
# The order of registration

Registering all definitions gives every name that is registered a new entry in
its old place, and puts the others behind in the order of the definitions. So
the names of the definitions are listed once each after any turns, and in their
own order exactly when those that references brought in earlier are the first
of them, in that order.
-/

namespace ZodSchemas

/-- The names that come of registering all of some names when others of them are registered. -/
structure ListsNames (names earlier listed : List Key) : Prop where
  /-- No name comes twice. -/
  differ : KeysDiffer listed
  /-- Exactly the names come. -/
  perm : listed.Perm names
  /-- Those that are registered stay in front, and the others follow in their order. -/
  order : listed = earlier ++ names.filter fun k => !k.isAmong earlier
  /-- The names come in their own order exactly when those that are registered are the first of
  them. -/
  inOrder : listed = names ↔ earlier <+: names

section Lists

variable {names earlier : List Key}

/-- Among different names those that are the same key as one of them are those that are one. -/
theorem KeysDiffer.isAmong_iff_mem (hn : KeysDiffer names) (hs : earlier ⊆ names) {k : Key}
    (hk : k ∈ names) : k.isAmong earlier = true ↔ k ∈ earlier := by
  constructor
  · intro h
    obtain ⟨other, ho, hsame⟩ := Key.isAmong_iff.mp h
    rwa [← hn.eq_of_same (hs ho) hk hsame]
  · exact Key.isAmong_of_mem

/-- Some of different names and behind them the others are all of the names. -/
theorem perm_append_filter (hn : KeysDiffer names) (he : KeysDiffer earlier)
    (hs : earlier ⊆ names) :
    (earlier ++ names.filter fun k => !k.isAmong earlier).Perm names := by
  have hmem : ∀ k, k ∈ earlier ↔ k ∈ names.filter fun k => k.isAmong earlier := by
    intro k
    rw [List.mem_filter]
    constructor
    · exact fun hk => ⟨hs hk, Key.isAmong_of_mem hk⟩
    · exact fun hk => (hn.isAmong_iff_mem hs hk.1).mp hk.2
  have hfront : earlier.Perm (names.filter fun k => k.isAmong earlier) :=
    (List.perm_ext_iff_of_nodup he.nodup (hn.nodup.filter _)).mpr hmem
  exact (hfront.append_right _).trans (List.filter_append_perm _ names)

/-- Some of different names and behind them the others come in the order of the names exactly when
they are the first ones. -/
theorem append_filter_eq_iff (hn : KeysDiffer names) :
    (earlier ++ names.filter fun k => !k.isAmong earlier) = names ↔ earlier <+: names := by
  constructor
  · intro h
    exact ⟨_, h⟩
  · rintro ⟨back, rfl⟩
    have hfront : (earlier.filter fun k => !k.isAmong earlier) = [] := by
      refine List.filter_eq_nil_iff.mpr fun k hk => ?_
      simp [Key.isAmong_of_mem hk]
    have hback : (back.filter fun k => !k.isAmong earlier) = back := by
      refine List.filter_eq_self.mpr fun k hk => ?_
      simp [hn.not_among_front hk]
    rw [List.filter_append, hfront, hback, List.nil_append]

end Lists

namespace Converter

variable {c later : Converter}

/-- A new registration keeps the registered names in their places and puts the others behind. -/
theorem keys_registerAll (hd : c.definitions.NamesDiffer) (h : c.registerAll = .ok later) :
    Entries.keys later.entries = Entries.keys c.entries ++
      (definedNames c.definitions).filter fun k => !k.isAmong (Entries.keys c.entries) := by
  obtain ⟨-, rfl⟩ := registerAll_eq_ok.mp h
  have hkeys : Entries.keys ((definedNames c.definitions).map fun name =>
      (name, (⟨name, c.round + 1⟩ : Ref))) = definedNames c.definitions := by
    simp [Entries.keys, Function.comp_def]
  dsimp only
  rw [Entries.keys_merge, hkeys, distinctKeys_eq_self hd.definedNames]

/-- A sound converter lists the names of its definitions when all of them are registered. -/
theorem IsSound.listsNames (h : c.IsSound) (hd : c.definitions.NamesDiffer)
    (hr : c.registerAll = .ok later) :
    ListsNames (definedNames c.definitions) (Entries.keys c.entries)
      (Entries.keys later.entries) := by
  have horder := keys_registerAll hd hr
  have hnames : KeysDiffer (definedNames c.definitions) := hd.definedNames
  have hregistered : Entries.keys c.entries ⊆ definedNames c.definitions := by
    intro k hk
    obtain ⟨e, he, rfl⟩ := List.mem_map.mp hk
    exact h.defined e he
  refine ⟨(h.registerAll hd hr).differ, ?_, horder, ?_⟩
  · rw [horder]
    exact perm_append_filter hnames h.differ hregistered
  · rw [horder]
    exact append_filter_eq_iff hnames

end Converter

section Runs

open Session

/-- Whatever turns were taken with a new converter, with errors or without: all definitions can be
registered then, the registry lists the name of each once, and it lists them in the order of the
definitions exactly when the names that were registered on the way are the first of them. -/
theorem registration_listsNames {document : Value} {c : Converter} {entries : Entries Value}
    (hc : Converter.ofDocument document = .ok c) (he : c.definitions.entries? = some entries)
    (hd : c.definitions.NamesDiffer) (turns : List Turn) :
    ∃ later, (after c turns).converter.registerAll = .ok later ∧
      ListsNames (Converter.definedNames c.definitions)
        (Entries.keys (after c turns).registry.entries) (Entries.keys later.registry.entries) := by
  obtain ⟨hsound, hdefinitions⟩ := isSound_after hc hd turns
  have hmapping : ∃ entries, (after c turns).converter.definitions.entries? = some entries :=
    ⟨entries, hdefinitions ▸ he⟩
  obtain ⟨later, hlater⟩ : ∃ later, (after c turns).converter.registerAll = .ok later :=
    ⟨_, Converter.registerAll_eq_ok.mpr ⟨hmapping, rfl⟩⟩
  have hnames : (after c turns).converter.definitions.NamesDiffer := hdefinitions ▸ hd
  have hlists := hsound.converter.listsNames hnames hlater
  rw [hdefinitions] at hlists
  refine ⟨later, hlater, ?_⟩
  rw [Converter.keys_entries_registry]
  rw [show Entries.keys (after c turns).registry.entries =
    Entries.keys (after c turns).converter.entries from
      Converter.keys_entries_registry (after c turns).converter]
  exact hlists

/-- Three schemas, of which the last refers to the first. -/
def shelvesDocument : Value :=
  .map [("components", .map [("schemas", .map [
    ("Book", .map [("type", "string")]), ("Box", .map [("type", "number")]),
    ("Shelf", .map [("type", "array"), ("items", .map [("$ref", "#/Book")])]),
    ("Note", "no schema")])])]

/-- All definitions are registered, and the shelf is resolved, which meets the book again. -/
def shelvesRun : List Turn :=
  [.registerAll, .run fun registry => registry.resolve ⟨"Shelf", 1⟩]

/-- The names stay in the order of the definitions when they were registered in it. -/
theorem registration_listsNames_shelves : ∃ c entries later,
    Converter.ofDocument shelvesDocument = .ok c ∧ c.definitions.entries? = some entries ∧
      c.definitions.NamesDiffer ∧ (after c shelvesRun).converter.registerAll = .ok later ∧
      ListsNames ["Book", "Box", "Shelf"] ["Book", "Box", "Shelf"]
        (Entries.keys later.registry.entries) := by
  have hstart : ∃ c entries, Converter.ofDocument shelvesDocument = .ok c ∧
      c.definitions.entries? = some entries ∧ c.definitions.NamesDiffer ∧
      Converter.definedNames c.definitions = ["Book", "Box", "Shelf"] ∧
      Entries.keys (after c shelvesRun).registry.entries = ["Book", "Box", "Shelf"] := by
    refine ⟨_, _, rfl, rfl, fun entries he => ?_, rfl, rfl⟩
    obtain rfl := Option.some.inj he
    unfold KeysDiffer
    decide
  obtain ⟨c, entries, hc, he, hd, hnames, hearlier⟩ := hstart
  obtain ⟨later, hlater, hlists⟩ := registration_listsNames hc he hd shelvesRun
  rw [hnames, hearlier] at hlists
  exact ⟨c, entries, later, hc, he, hd, hlater, hlists⟩

/-- A schema that refers to the second definition is converted first: its name stays in front, and
the names do not come in the order of the definitions. -/
theorem registration_keeps_earlier : ∃ c later, Converter.ofDocument shelvesDocument = .ok c ∧
    (after c [.convert (.map [("$ref", "#/Box")])]).converter.registerAll = .ok later ∧
    Converter.definedNames c.definitions = ["Book", "Box", "Shelf"] ∧
    Entries.keys later.registry.entries = ["Box", "Book", "Shelf"] :=
  ⟨_, _, rfl, rfl, rfl, rfl⟩

end Runs

end ZodSchemas
