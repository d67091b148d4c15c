import ZodSchemas.Declaration.File
import ZodSchemas.Proofs.Conversion.Registration
import ZodSchemas.Validation.Rules

/-!
# Converters in use

A converter is used turn by turn: all definitions are registered, single schemas
are converted, and references are followed for whatever is computed from the
registry. A reference that was converted keeps its node, and registrations arise
in the middle of turns, also of turns that end with an error. Through all of
this the registry is sound: an entry is the reference to its name, its body is
what the definition of the name is converted to, and a name that is met finds
its entry.
-/

namespace ZodSchemas

/-- A converter in use, with the nodes that references keep since they were converted. -/
structure Session where
  /-- The converter. -/
  converter : Converter
  /-- The references that were converted, with their nodes. -/
  kept : List (Ref × Node)

/-- One turn in the use of a converter. -/
inductive Turn : Type 1 where
  /-- All definitions are registered. -/
  | registerAll
  /-- A schema that is not registered is converted. -/
  | convert (schema : Value)
  /-- Something is computed from the registry: what it looks up, the body of a reference, whether a
  value is accepted, the dependencies, or code. -/
  | run {ε α : Type} (x : Registry → Following ε α)

/-- Whether a turn registers all definitions. -/
def Turn.isRegistration : Turn → Bool
  | .registerAll => true
  | _ => false

namespace Session

/-- What a reference stands for: the node that it keeps, or else its conversion at this point. -/
def body (s : Session) (ref : Ref) : Except Fault Node :=
  match s.kept.lookup ref with
  | some node => .ok node
  | none => (s.converter.conversionOf ref).outcome

/-- The registry at this point. -/
def registry (s : Session) : Registry := { s.converter.registry with body := s.body }

/-- Follow a reference: it is accounted for, and keeps the node that it is converted to unless it
keeps one already. -/
def follow (s : Session) (ref : Ref) : Session where
  converter := s.converter.follow ref
  kept :=
    match s.kept.lookup ref, (s.converter.conversionOf ref).outcome with
    | none, .ok node => (ref, node) :: s.kept
    | _, _ => s.kept

/-- Follow references one after another. -/
def followAll (s : Session) (refs : List Ref) : Session := refs.foldl follow s

/-- Take one turn. The entries of a new registration keep no nodes yet. -/
def take (s : Session) : Turn → Session
  | .registerAll =>
    match s.converter.registerAll with
    | .ok c => ⟨c, s.kept.filter fun e => e.1.origin ≤ s.converter.round⟩
    | .error _ => s
  | .convert schema => ⟨(s.converter.convertSchema schema).1, s.kept⟩
  | .run x => s.followAll (x s.registry).events

/-- A converter after some turns. -/
def after (c : Converter) (turns : List Turn) : Session := turns.foldl take ⟨c, []⟩

/-- The converter at some moment: between two turns, or in the middle of a conversion, when some of
the references in a schema were met. A computation that stops early is a computation as well, so
the moments inside a computation are among these. -/
def IsMoment (s : Session) (c : Converter) : Prop :=
  ∃ schema mentions, mentions <+: (s.converter.source.convert schema).events ∧
    c = s.converter.noteAll mentions

/-- An entry is the reference to its name; the name has a definition, and the body of the entry is
what the definition is converted to. -/
def IsEntry (s : Session) (name : Key) (entry : Node) : Prop :=
  ∃ ref schema, entry = .lazy ref ∧ ref.name = name ∧
    Reference.definition? s.converter.definitions name = .ok (some schema) ∧
    (s.registry.bodyOf entry).outcome = (s.converter.source.convert (.map schema)).outcome

variable {s : Session} {c : Converter}

/-- The converter of a session accounts for references as it does on its own. -/
theorem converter_followAll (s : Session) (refs : List Ref) :
    (s.followAll refs).converter = s.converter.followAll refs := by
  induction refs generalizing s with
  | nil => rfl
  | cons ref rest ih => exact ih (s.follow ref)

/-- Following a reference changes nothing that references are converted to. -/
theorem conversionOf_follow (s : Session) (ref : Ref) :
    (s.follow ref).converter.conversionOf = s.converter.conversionOf :=
  Converter.conversionOf_eq_of_source (Converter.follow_spec s.converter ref).1.source

/-- Following a reference changes nothing that references stand for. -/
theorem body_follow (s : Session) (ref : Ref) : (s.follow ref).body = s.body := by
  funext next
  unfold body
  rw [conversionOf_follow]
  unfold follow
  cases hk : s.kept.lookup ref with
  | some node => rfl
  | none =>
    cases ho : (s.converter.conversionOf ref).outcome with
    | error fault => rfl
    | ok node =>
      by_cases hn : next = ref
      · subst hn
        simp [hk, ho]
      · have hb : (next == ref) = false := by simpa using hn
        simp [List.lookup_cons, hb]

/-- What is kept for references of the last registration is what they are converted to. -/
structure IsSound (s : Session) : Prop where
  /-- The converter is sound. -/
  converter : s.converter.IsSound
  /-- What is kept for the entries is right. -/
  kept : ∀ ref node, s.kept.lookup ref = some node → ref.origin = s.converter.round →
    (s.converter.conversionOf ref).outcome = .ok node

/-- What a reference of the last registration stands for is what it is converted to, whether or not
it was converted before. -/
theorem IsSound.body_eq (h : s.IsSound) {ref : Ref} (hr : ref.origin = s.converter.round) :
    s.body ref = s.converter.registry.body ref := by
  unfold body
  split
  · next node hk => exact (h.kept ref node hk hr).symm
  · rfl

/-- An entry of a sound session is the reference to its name from the last registration. -/
theorem IsSound.ref_eq (h : s.IsSound) {name : Key} {ref : Ref}
    (he : (name, .lazy ref) ∈ s.registry.entries) : ref = ⟨name, s.converter.round⟩ := by
  obtain ⟨⟨k, other⟩, hm, hpair⟩ := List.mem_map.mp he
  obtain ⟨rfl, hlazy⟩ := Prod.mk.inj hpair
  obtain rfl := Node.lazy.inj hlazy
  exact h.converter.entry _ hm

/-- The entries of a sound session are the references to their names, and their bodies are what the
definitions of the names are converted to. -/
theorem IsSound.isEntry (h : s.IsSound) (hd : s.converter.definitions.NamesDiffer) :
    ∀ e ∈ s.registry.entries, s.IsEntry e.1 e.2 := by
  intro e he
  obtain ⟨⟨name, ref⟩, hm, rfl⟩ := List.mem_map.mp he
  obtain rfl : ref = ⟨name, s.converter.round⟩ := h.converter.entry _ hm
  obtain ⟨schema, hs⟩ := hd.defines (h.converter.defined _ hm)
  refine ⟨_, schema, rfl, rfl, hs, ?_⟩
  have hbody : s.body ⟨name, s.converter.round⟩ =
      (s.converter.conversionOf ⟨name, s.converter.round⟩).outcome := h.body_eq rfl
  have hconversion : (s.converter.conversionOf ⟨name, s.converter.round⟩).outcome =
      (s.converter.source.convert (.map schema)).outcome := by
    unfold Converter.conversionOf
    simp [hs]
  rw [Registry.bodyOf, Registry.resolve, Traced.outcome_bind]
  exact hbody.trans hconversion

/-- A converter that has registered nothing is sound. -/
theorem isSound_nil (h : c.entries = []) : IsSound ⟨c, []⟩ :=
  ⟨Converter.isSound_of_entries_eq_nil h, by simp⟩

/-- A session stays sound when a reference is followed. -/
theorem IsSound.follow (h : s.IsSound) (ref : Ref) : (s.follow ref).IsSound := by
  have hround : (s.follow ref).converter.round = s.converter.round :=
    congrArg Source.round (Converter.follow_spec s.converter ref).1.source
  refine ⟨?_, fun next node hk hr => ?_⟩
  · have hnoted : (s.converter.noteAll (s.converter.conversionOf ref).events).IsSound :=
      h.converter.noteAll (s.converter.isRight_of_mem_conversionOf ref)
    change (s.converter.follow ref).IsSound
    unfold Converter.follow
    split
    · exact h.converter
    · dsimp only
      split
      · exact ⟨hnoted.differ, hnoted.entry, hnoted.defined⟩
      · exact hnoted
  · have hbody : (s.follow ref).body next = .ok node := by simp [body, hk]
    rw [hround] at hr
    rw [body_follow, h.body_eq hr] at hbody
    rw [conversionOf_follow]
    exact hbody

/-- A session stays sound when references are followed. -/
theorem IsSound.followAll (h : s.IsSound) (refs : List Ref) : (s.followAll refs).IsSound := by
  induction refs generalizing s with
  | nil => exact h
  | cons ref rest ih => exact ih (h.follow ref)

/-- Registering all definitions changes nothing when it fails. -/
theorem take_registerAll (s : Session) :
    s.take .registerAll = s ∨ ∃ c, s.converter.registerAll = .ok c ∧
      s.take .registerAll = ⟨c, s.kept.filter fun e => e.1.origin ≤ s.converter.round⟩ := by
  unfold take
  cases hr : s.converter.registerAll with
  | error fault => exact .inl rfl
  | ok c => exact .inr ⟨c, rfl, rfl⟩

/-- The converter of a session runs a computation as it does on its own, as far as that follows
the same references. -/
theorem converter_take_run {ε α : Type} (s : Session) (x : Registry → Following ε α) :
    (s.take (.run x)).converter = s.converter.followAll (x s.registry).events :=
  converter_followAll s _

/-- A turn changes no definitions. -/
theorem definitions_take (s : Session) (turn : Turn) :
    (s.take turn).converter.definitions = s.converter.definitions := by
  cases turn with
  | registerAll =>
    rcases take_registerAll s with hs | ⟨c, hr, hs⟩
    · rw [hs]
    · rw [hs]
      obtain ⟨-, rfl⟩ := Converter.registerAll_eq_ok.mp hr
      rfl
  | convert schema => exact Converter.definitions_noteAll _ _
  | run x =>
    rw [converter_take_run]
    exact congrArg Source.definitions (Converter.followAll_spec s.converter _).1.source

/-- A session stays sound in every turn that is taken. -/
theorem IsSound.take (h : s.IsSound) (hd : s.converter.definitions.NamesDiffer) (turn : Turn) :
    (s.take turn).IsSound := by
  cases turn with
  | registerAll =>
    rcases take_registerAll s with hs | ⟨c, hr, hs⟩
    · exact hs.symm ▸ h
    · rw [hs]
      refine ⟨h.converter.registerAll hd hr, fun ref node hk ho => ?_⟩
      -- Nothing that is kept belongs to the new registration.
      obtain ⟨front, back, hkept, -⟩ := List.lookup_eq_some_iff.mp hk
      have hm : (ref, node) ∈ s.kept.filter fun e => e.1.origin ≤ s.converter.round := by
        dsimp only at hkept
        simp only [hkept, List.mem_append, List.mem_cons, true_or, or_true]
      have hold : ref.origin ≤ s.converter.round := by simpa using List.of_mem_filter hm
      obtain ⟨-, rfl⟩ := Converter.registerAll_eq_ok.mp hr
      exact absurd ho (Nat.ne_of_lt (Nat.lt_succ_of_le hold))
  | convert schema =>
    have hsource : (s.take (.convert schema)).converter.source = s.converter.source :=
      Converter.source_noteAll _ _
    refine ⟨h.converter.noteAll Source.isRight_of_mem_convert, fun ref node hk ho => ?_⟩
    rw [Converter.conversionOf_eq_of_source hsource]
    exact h.kept ref node hk (ho.trans (congrArg Source.round hsource))
  | run x => exact h.followAll _

/-- Turns behind others are taken after them. -/
theorem after_append (c : Converter) (turns more : List Turn) :
    after c (turns ++ more) = more.foldl take (after c turns) :=
  List.foldl_append

/-- A session stays sound in a run, and with the same definitions. -/
theorem isSound_foldl (h : s.IsSound) (hd : s.converter.definitions.NamesDiffer)
    (turns : List Turn) : (turns.foldl take s).IsSound ∧
      (turns.foldl take s).converter.definitions = s.converter.definitions := by
  induction turns generalizing s with
  | nil => exact ⟨h, rfl⟩
  | cons turn rest ih =>
    have hdefinitions := definitions_take s turn
    obtain ⟨hs, hrest⟩ := ih (h.take hd turn) (hdefinitions ▸ hd)
    exact ⟨hs, hrest.trans hdefinitions⟩

/-- A turn that registers no definition anew leaves the entries in their places. -/
theorem entries_isPrefix_take {turn : Turn} (hs : turn.isRegistration = false) :
    s.converter.entries <+: (s.take turn).converter.entries := by
  have follow : ∀ (c : Converter) (ref : Ref), c.entries <+: (c.follow ref).entries := by
    intro c ref
    unfold Converter.follow
    split
    · exact List.prefix_rfl
    · have hnoted := Converter.entries_isPrefix_noteAll c (c.conversionOf ref).events
      dsimp only
      split
      · exact hnoted
      · exact hnoted
  have followAll : ∀ (refs : List Ref) (c : Converter),
      c.entries <+: (c.followAll refs).entries := by
    intro refs
    induction refs with
    | nil => exact fun _ => List.prefix_rfl
    | cons ref rest ih => exact fun c => (follow c ref).trans (ih _)
  cases turn with
  | registerAll => simp [Turn.isRegistration] at hs
  | convert schema => exact Converter.entries_isPrefix_noteAll _ _
  | run x =>
    rw [converter_take_run]
    exact followAll _ _

/-- A turn leaves the names in their places. -/
theorem keys_isPrefix_take (s : Session) (turn : Turn) :
    Entries.keys s.converter.entries <+: Entries.keys (s.take turn).converter.entries := by
  cases turn with
  | registerAll =>
    rcases take_registerAll s with hs | ⟨c, hr, hs⟩
    · exact hs.symm ▸ List.prefix_rfl
    · rw [hs]
      exact Converter.keys_isPrefix_registerAll hr
  | convert schema => exact (entries_isPrefix_take rfl).map _
  | run x => exact (entries_isPrefix_take rfl).map _

/-- Turns leave the names in their places. -/
theorem keys_isPrefix_foldl (s : Session) (turns : List Turn) :
    Entries.keys s.converter.entries <+:
      Entries.keys (turns.foldl take s).converter.entries := by
  induction turns generalizing s with
  | nil => exact List.prefix_rfl
  | cons turn rest ih => exact (keys_isPrefix_take s turn).trans (ih _)

/-- Turns that register no definition anew leave the entries in their places, and the
registration. -/
theorem entries_isPrefix_foldl {turns : List Turn}
    (h : ∀ turn ∈ turns, turn.isRegistration = false) :
    s.converter.entries <+: (turns.foldl take s).converter.entries ∧
      (turns.foldl take s).converter.round = s.converter.round := by
  induction turns generalizing s with
  | nil => exact ⟨List.prefix_rfl, rfl⟩
  | cons turn rest ih =>
    obtain ⟨hs, hrest⟩ := List.forall_mem_cons.mp h
    obtain ⟨hentries, hround⟩ := @ih (s.take turn) hrest
    refine ⟨(entries_isPrefix_take hs).trans hentries, hround.trans ?_⟩
    cases turn with
    | registerAll => simp [Turn.isRegistration] at hs
    | convert schema => exact Converter.round_noteAll _ _
    | run x =>
      rw [converter_take_run]
      exact congrArg Source.round (Converter.followAll_spec s.converter _).1.source

/-- A session of a new converter is sound, with the definitions of the document. -/
theorem isSound_after {document : Value} (hc : Converter.ofDocument document = .ok c)
    (hd : c.definitions.NamesDiffer) (turns : List Turn) :
    (after c turns).IsSound ∧ (after c turns).converter.definitions = c.definitions := by
  obtain ⟨definitions, -, h⟩ := exceptBind_eq_ok.mp hc
  obtain rfl := Except.ok.inj h
  exact isSound_foldl (isSound_nil rfl) hd turns

/-- A moment of a sound session is sound, with the same registration and the same definitions. -/
theorem IsSound.moment (h : s.IsSound) (hm : s.IsMoment c) :
    c.IsSound ∧ c.source = s.converter.source := by
  obtain ⟨schema, mentions, hp, rfl⟩ := hm
  refine ⟨h.converter.noteAll fun mention hmention => ?_, Converter.source_noteAll _ _⟩
  exact Source.isRight_of_mem_convert mention (hp.subset hmention)

/-- What is said of a reference that is met at some moment: it is handled as conversions handle it,
and a reference that comes back is then the entry of its name. -/
structure IsHandled (m : Converter) (target : Value) : Prop where
  /-- Looking into the registry comes to what the conversion says. -/
  handled : m.refer target =
    (m.noteAll (m.source.reference target).events, (m.source.reference target).outcome)
  /-- What comes back is registered. -/
  registered : ∀ ref, (m.refer target).2 = .ok (.lazy ref) →
    Entries.find? ref.name (m.refer target).1.entries = some ref

end Session

open Session in
/-- Whatever turns are taken with a new converter, with errors or without: each of its entries is
the reference to its name, which has a definition, and the body is what the definition is converted
to; names stay in their places for good, and entries until all definitions are registered; and every
reference that is met, also in the middle of a conversion, is the entry of its name, and the same
one until all definitions are registered. -/
theorem registry_invariant {document : Value} {c : Converter}
    (hc : Converter.ofDocument document = .ok c) (hd : c.definitions.NamesDiffer)
    (turns more : List Turn) :
    (∀ e ∈ (after c turns).registry.entries, (after c turns).IsEntry e.1 e.2) ∧
    Entries.keys (after c turns).registry.entries <+:
      Entries.keys (after c (turns ++ more)).registry.entries ∧
    ((∀ turn ∈ more, turn.isRegistration = false) →
      (after c turns).registry.entries <+: (after c (turns ++ more)).registry.entries) ∧
    (∀ m, (after c turns).IsMoment m → ∀ target, IsHandled m target) ∧
    ((∀ turn ∈ more, turn.isRegistration = false) →
      ∀ m n, (after c turns).IsMoment m → (after c (turns ++ more)).IsMoment n →
        ∀ target other ref next, (m.refer target).2 = .ok (.lazy ref) →
          (n.refer other).2 = .ok (.lazy next) → ref.name = next.name → ref = next) := by
  obtain ⟨hs, hdefinitions⟩ := isSound_after hc hd turns
  obtain ⟨hlater, -⟩ := isSound_after hc hd (turns ++ more)
  have hnames : (after c turns).converter.definitions.NamesDiffer := hdefinitions ▸ hd
  have hkeys : ∀ s : Session, Entries.keys s.registry.entries = Entries.keys s.converter.entries :=
    fun s => by simp [Session.registry, Converter.registry, Entries.keys]
  refine ⟨hs.isEntry hnames, ?_, fun hmore => ?_, fun m hm target => ?_, fun hmore => ?_⟩
  · rw [hkeys, hkeys, after_append]
    exact keys_isPrefix_foldl _ more
  · rw [after_append]
    exact (entries_isPrefix_foldl hmore).1.map _
  · obtain ⟨hsound, hsource⟩ := hs.moment hm
    have hsame : m.definitions = (after c turns).converter.definitions :=
      congrArg Source.definitions hsource
    have hdiffer : m.definitions.NamesDiffer := hsame ▸ hnames
    exact ⟨Converter.refer_eq hsound hdiffer target,
      fun ref hr => (Converter.find?_refer hsound hr).1⟩
  · intro m n hm hn target other ref next hr hx hname
    obtain ⟨hsound, hsource⟩ := hs.moment hm
    obtain ⟨hsound', hsource'⟩ := hlater.moment hn
    have hround : n.round = m.round := by
      have hkept := (entries_isPrefix_foldl hmore (s := after c turns)).2
      rw [← after_append] at hkept
      have hrounds := (congrArg Source.round hsource').trans hkept
      exact hrounds.trans (congrArg Source.round hsource).symm
    rw [(Converter.find?_refer hsound hr).2, (Converter.find?_refer hsound' hx).2, hname, hround]

/-- A pet refers to its owner, and the owner to all pets. -/
def petsDocument : Value :=
  .map [("components", .map [("schemas", .map [
    ("Pet", .map [("type", "object"),
      ("properties", .map [("owner", .map [("$ref", "#/Owner")])])]),
    ("Owner", .map [("type", "array"), ("items", .map [("$ref", "#/Pet")])])])])]

/-- A run in which the owner is met first, in a schema that is none. Then all definitions are
registered, a value is parsed, the dependencies are computed and code is written. -/
def petsRun : List Turn :=
  [.convert (.map [("anyOf", .list [.map [("$ref", "#/Owner")], .int 1])]), .registerAll,
    .run fun registry => parse registry (.lazy ⟨"Pet", 1⟩) (some (.map [])),
    .run dependenciesOf, .run fun registry => registry.code {}]

open Session in
/-- The owner was met first and stands first, and the entries have their bodies. -/
theorem registry_invariant_pets : ∃ c, Converter.ofDocument petsDocument = .ok c ∧
    c.definitions.NamesDiffer ∧
    Entries.keys (after c petsRun).registry.entries = ["Owner", "Pet"] ∧
    ∀ e ∈ (after c petsRun).registry.entries, (after c petsRun).IsEntry e.1 e.2 := by
  have hc : ∃ c, Converter.ofDocument petsDocument = .ok c ∧ c.definitions.NamesDiffer ∧
      Entries.keys (after c petsRun).registry.entries = ["Owner", "Pet"] := by
    refine ⟨_, rfl, fun entries he => ?_, rfl⟩
    obtain rfl := Option.some.inj he
    exact List.pairwise_pair.mpr rfl
  obtain ⟨c, hc, hd, hkeys⟩ := hc
  exact ⟨c, hc, hd, hkeys, (registry_invariant hc hd petsRun []).1⟩

end ZodSchemas
