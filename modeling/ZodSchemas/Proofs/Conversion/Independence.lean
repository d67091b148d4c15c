import ZodSchemas.Conversion.Unfolding
import ZodSchemas.Proofs.Conversion.Session

/-!
# Bodies do not depend on the run

Once all definitions are registered, the registry is settled: no turn adds an
entry or replaces one. The body of an entry is then a matter of the definition
of its name and of which names are defined. What was converted before, what the
other definitions hold and in which order they come have no influence.
-/

namespace ZodSchemas

namespace Value

/-- Two values define the same texts. -/
def DefinesAlike (definitions others : Value) : Prop :=
  ∀ t : Text, definitions.Defines (.text t) ↔ others.Defines (.text t)

end Value

namespace Reference

variable {definitions others : Value} {entries listed : Entries Value}

/-- In a mapping a name has a definition or has none. -/
theorem definition?_eq_none_iff (he : definitions.entries? = some entries) {name : Key} :
    definition? definitions name = .ok none ↔ ¬definitions.Defines name := by
  have hok : definition? definitions name =
      .ok ((Entries.find? name entries).bind Value.entries?) := by
    simp [definition?, Value.field?, Value.entriesOf, he, bind, Except.bind]
  unfold Value.Defines
  rw [hok]
  cases (Entries.find? name entries).bind Value.entries? <;> simp

end Reference

namespace Source

variable {source other : Source} {entries listed : Entries Value}

/-- A reference becomes the same wherever the same texts are defined. -/
theorem reference_eq_of_definesAlike (hr : source.round = other.round)
    (he : source.definitions.entries? = some entries)
    (hl : other.definitions.entries? = some listed)
    (hd : source.definitions.DefinesAlike other.definitions) (target : Value) :
    source.reference target = other.reference target := by
  have resolve : ∀ {definitions : Value} {name : Text} {found : Option (Entries Value)},
      Reference.target target = .ok name →
      Reference.definition? definitions (.text name) = .ok found →
      Reference.resolve definitions target = .ok (name, found) :=
    fun ht hf => exceptBind_eq_ok.mpr ⟨_, ht, exceptBind_eq_ok.mpr ⟨_, hf, rfl⟩⟩
  unfold reference
  cases ht : Reference.target target with
  | error fault =>
    have hfault : ∀ definitions, Reference.resolve definitions target = .error fault :=
      fun _ => exceptBind_eq_error.mpr (.inl ht)
    rw [hfault, hfault, hr]
  | ok name =>
    by_cases hn : source.definitions.Defines (.text name)
    · obtain ⟨schema, hs⟩ := hn
      obtain ⟨found, hf⟩ := (hd name).mp ⟨schema, hs⟩
      rw [resolve ht hs, resolve ht hf, hr]
      rfl
    · have hs := (Reference.definition?_eq_none_iff he).mpr hn
      have hf := (Reference.definition?_eq_none_iff hl).mpr (mt (hd name).mpr hn)
      rw [resolve ht hs, resolve ht hf, hr]

/-- A schema is converted alike wherever the same texts are defined. -/
theorem convert_eq_of_definesAlike (hr : source.round = other.round)
    (he : source.definitions.entries? = some entries)
    (hl : other.definitions.entries? = some listed)
    (hd : source.definitions.DefinesAlike other.definitions) (v : Value) :
    source.convert v = other.convert v := by
  have hereditary : Value.IsHereditary fun _ => True :=
    ⟨fun _ _ => trivial, fun _ => trivial, trivial⟩
  have within : ∀ fuel v, source.convertWithin fuel v = other.convertWithin fuel v := by
    intro fuel
    induction fuel with
    | zero => exact fun _ => rfl
    | succ fuel ih =>
      intro v
      refine ofSchema_congr source other hereditary (fun _ _ => trivial) (fun _ target _ _ => ?_)
        fun w _ => ih w
      exact reference_eq_of_definesAlike hr he hl hd target
  exact within _ v

end Source

namespace Converter

variable {c later : Converter}

/-- Once all definitions are registered, every defined name is. -/
theorem has_of_registerAll (h : c.registerAll = .ok later) {name : Key}
    (hn : name ∈ definedNames later.definitions) : Entries.has name later.entries = true := by
  obtain ⟨-, rfl⟩ := registerAll_eq_ok.mp h
  have hfresh : Entries.has name ((definedNames c.definitions).map fun name =>
      (name, (⟨name, c.round + 1⟩ : Ref))) = true := by
    rw [Entries.has_eq_isAmong]
    refine Key.isAmong_of_mem ?_
    simpa [Entries.keys, Function.comp_def] using hn
  rw [Entries.has_merge, hfresh, Bool.or_true]

/-- Where every defined name is registered no entry comes behind. -/
theorem entries_eq_of_isPrefix
    (hc : ∀ name ∈ definedNames c.definitions, Entries.has name c.entries = true)
    (hl : later.IsSound) (hd : later.definitions = c.definitions)
    (hp : c.entries <+: later.entries) : later.entries = c.entries := by
  obtain ⟨extra, hextra⟩ := hp
  cases extra with
  | nil => simpa using hextra.symm
  | cons e rest =>
    -- The first name behind would be registered twice.
    have hmem : e ∈ later.entries := by simp [← hextra]
    have hdefined : e.1 ∈ definedNames c.definitions := hd ▸ hl.defined e hmem
    have hdiffer := hl.differ
    rw [← hextra, Entries.keys_append] at hdiffer
    have hnot := hdiffer.not_among_front (k := e.1) (by simp [Entries.keys])
    rw [← Entries.has_eq_isAmong, hc _ hdefined] at hnot
    simp at hnot

end Converter

open Session

/-- The turns before and after the only registration of all definitions. -/
structure RegistersOnce (before later : List Turn) : Prop where
  /-- There is no registration before. -/
  before : ∀ turn ∈ before, turn.isRegistration = false
  /-- There is no registration after. -/
  later : ∀ turn ∈ later, turn.isRegistration = false

/-- A run with one registration of all definitions. -/
def runOf (before later : List Turn) : List Turn := before ++ .registerAll :: later

section Settled

variable {document : Value} {c : Converter} {entries : Entries Value} {before later : List Turn}

/-- After a run with one registration the registration is the first, and the entries are those that
it left. -/
theorem RegistersOnce.settled (h : RegistersOnce before later)
    (hc : Converter.ofDocument document = .ok c) (he : c.definitions.entries? = some entries)
    (hn : c.definitions.NamesDiffer) :
    (after c (runOf before later)).converter.round = 1 ∧
      ∀ m, (after c (runOf before later)).IsMoment m →
        m.entries = (after c (runOf before [])).converter.entries := by
  have hzero : c.round = 0 := by
    obtain ⟨definitions, -, hstart⟩ := exceptBind_eq_ok.mp hc
    obtain rfl := Except.ok.inj hstart
    rfl
  obtain ⟨hfirst, hdefinitions⟩ := isSound_after hc hn before
  obtain ⟨hs, hlast⟩ := isSound_after hc hn (runOf before later)
  obtain ⟨-, hmiddle⟩ := isSound_after hc hn (runOf before [])
  -- The registration succeeds, and registers every defined name.
  obtain ⟨all, hall⟩ : ∃ all, (after c before).converter.registerAll = .ok all :=
    ⟨_, Converter.registerAll_eq_ok.mpr ⟨⟨entries, hdefinitions ▸ he⟩, rfl⟩⟩
  have htake : (after c (runOf before [])) = (after c before).take .registerAll := by
    rw [runOf, after_append, List.foldl_cons, List.foldl_nil]
  have hregistered : (after c (runOf before [])).converter = all := by
    rw [htake, take, hall]
  have hnames : ∀ name ∈ Converter.definedNames (after c (runOf before [])).converter.definitions,
      Entries.has name (after c (runOf before [])).converter.entries = true := by
    rw [hregistered]
    exact fun name hname => Converter.has_of_registerAll hall hname
  -- What comes after leaves the entries in their places and the registration.
  have hrest : after c (runOf before later) = later.foldl take (after c (runOf before [])) := by
    rw [htake, runOf, after_append, List.foldl_cons]
  obtain ⟨hentries, hround⟩ := entries_isPrefix_foldl (s := after c (runOf before [])) h.later
  rw [← hrest] at hentries hround
  refine ⟨?_, fun m hm => ?_⟩
  · have hbefore : (after c before).converter.round = c.round :=
      (entries_isPrefix_foldl (s := ⟨c, []⟩) h.before).2
    obtain ⟨-, rfl⟩ := Converter.registerAll_eq_ok.mp hall
    rw [hround, hregistered, hbefore, hzero]
  · obtain ⟨hsound, hsource⟩ := hs.moment hm
    obtain ⟨schema, mentions, -, rfl⟩ := hm
    have hmoment := Converter.entries_isPrefix_noteAll (after c (runOf before later)).converter
      mentions
    refine Converter.entries_eq_of_isPrefix hnames hsound ?_ (hentries.trans hmoment)
    rw [Converter.definitions_noteAll, hlast, hmiddle]

end Settled

/-- After all definitions were registered once, with any turns before and after, with errors or
without: the names, their order and their entries are at every moment those that the registration
left, and the body of an entry is the same in every run, for all documents with the same definition
of its name in which the same names are defined. -/
theorem settled_registry {document other : Value} {c d : Converter}
    {entries listed : Entries Value} {before later first next : List Turn}
    (hc : Converter.ofDocument document = .ok c) (hd : Converter.ofDocument other = .ok d)
    (he : c.definitions.entries? = some entries) (hl : d.definitions.entries? = some listed)
    (hn : c.definitions.NamesDiffer) (hm : d.definitions.NamesDiffer)
    (hr : RegistersOnce before later) (hs : RegistersOnce first next) :
    (∀ m, (after c (runOf before later)).IsMoment m →
      m.registry.entries = (after c (runOf before [])).registry.entries) ∧
    ∀ name entry found, (name, entry) ∈ (after c (runOf before later)).registry.entries →
      (name, found) ∈ (after d (runOf first next)).registry.entries →
      Reference.definition? c.definitions name = Reference.definition? d.definitions name →
      c.definitions.DefinesAlike d.definitions →
        entry = found ∧ ((after c (runOf before later)).registry.bodyOf entry).outcome =
          ((after d (runOf first next)).registry.bodyOf found).outcome := by
  obtain ⟨hround, hentries⟩ := hr.settled hc he hn
  obtain ⟨hround', -⟩ := hs.settled hd hl hm
  refine ⟨fun m hmoment => congrArg (List.map _) (hentries m hmoment), ?_⟩
  intro name entry found hentry hfound hname halike
  obtain ⟨hsound, hdefinitions⟩ := isSound_after hc hn (runOf before later)
  obtain ⟨hsound', hdefinitions'⟩ := isSound_after hd hm (runOf first next)
  obtain ⟨ref, schema, rfl, -, hschema, hbody⟩ := hsound.isEntry (hdefinitions ▸ hn) _ hentry
  obtain ⟨ref', schema', rfl, -, hschema', hbody'⟩ := hsound'.isEntry (hdefinitions' ▸ hm) _ hfound
  rw [hdefinitions] at hschema
  rw [hdefinitions'] at hschema'
  obtain rfl : schema = schema' := by
    rw [hname, hschema'] at hschema
    simpa using hschema.symm
  have hrefs : ref = ref' := by
    rw [hsound.ref_eq hentry, hsound'.ref_eq hfound, hround, hround']
  have hsource : (after c (runOf before later)).converter.source = ⟨c.definitions, 1⟩ := by
    rw [Converter.source, hround, hdefinitions]
  have hsource' : (after d (runOf first next)).converter.source = ⟨d.definitions, 1⟩ := by
    rw [Converter.source, hround', hdefinitions']
  have hrounds : (⟨c.definitions, 1⟩ : Source).round = (⟨d.definitions, 1⟩ : Source).round := rfl
  have hconvert := Source.convert_eq_of_definesAlike hrounds he hl halike (.map schema)
  exact ⟨congrArg Node.lazy hrefs, by rw [hbody, hbody', hsource, hsource', hconvert]⟩

/-- A document with the same pets, and with owners that are texts and come first. -/
def ownersDocument : Value :=
  .map [("components", .map [("schemas", .map [
    ("Owner", .map [("type", "string")]),
    ("Pet", .map [("type", "object"),
      ("properties", .map [("owner", .map [("$ref", "#/Owner")])])])])])]

/-- The dependencies are computed at first, when nothing is registered, and again at the end. -/
def ownersRun : List Turn := runOf [.run dependenciesOf] [.run dependenciesOf]

/-- The body of a pet is the same with owners of both kinds, and whether or not the owner was met
first and the pet was converted before. -/
theorem settled_registry_pets : ∃ c d entry, Converter.ofDocument petsDocument = .ok c ∧
    Converter.ofDocument ownersDocument = .ok d ∧ c.definitions.NamesDiffer ∧
    d.definitions.NamesDiffer ∧ c.definitions.DefinesAlike d.definitions ∧
    (("Pet", entry) : Key × Node) ∈ (after c petsRun).registry.entries ∧
    (("Pet", entry) : Key × Node) ∈ (after d ownersRun).registry.entries ∧
    ((after c petsRun).registry.bodyOf entry).outcome =
      ((after d ownersRun).registry.bodyOf entry).outcome := by
  have hexists : ∃ c d entries listed, Converter.ofDocument petsDocument = .ok c ∧
      Converter.ofDocument ownersDocument = .ok d ∧ c.definitions.entries? = some entries ∧
      d.definitions.entries? = some listed ∧ Entries.keys entries = ["Pet", "Owner"] ∧
      Entries.keys listed = ["Owner", "Pet"] ∧
      Converter.definedNames c.definitions = ["Pet", "Owner"] ∧
      Converter.definedNames d.definitions = ["Owner", "Pet"] ∧
      Reference.definition? c.definitions "Pet" = Reference.definition? d.definitions "Pet" ∧
      (("Pet", .lazy ⟨"Pet", 1⟩) : Key × Node) ∈ (after c petsRun).registry.entries ∧
      (("Pet", .lazy ⟨"Pet", 1⟩) : Key × Node) ∈ (after d ownersRun).registry.entries :=
    ⟨_, _, _, _, rfl, rfl, rfl, rfl, rfl, rfl, rfl, rfl, rfl, .tail _ (.head _), .tail _ (.head _)⟩
  obtain ⟨c, d, entries, listed, hc, hd, he, hl, hke, hkl, hnc, hnd, hpet, hin, hin'⟩ := hexists
  have hn : c.definitions.NamesDiffer := by
    intro other ho
    obtain rfl := Option.some.inj (he.symm.trans ho)
    exact hke ▸ List.pairwise_pair.mpr rfl
  have hm : d.definitions.NamesDiffer := by
    intro other ho
    obtain rfl := Option.some.inj (hl.symm.trans ho)
    exact hkl ▸ List.pairwise_pair.mpr rfl
  have halike : c.definitions.DefinesAlike d.definitions := by
    intro t
    have hlisted : ∀ {definitions : Value}, definitions.NamesDiffer →
        (definitions.Defines (.text t) ↔ .text t ∈ Converter.definedNames definitions) :=
      fun h => ⟨Value.Defines.mem_definedNames, h.defines⟩
    rw [hlisted hn, hlisted hm, hnc, hnd]
    simp [or_comm]
  have hpets : RegistersOnce
      [.convert (.map [("anyOf", .list [.map [("$ref", "#/Owner")], .int 1])])]
      [.run fun registry => parse registry (.lazy ⟨"Pet", 1⟩) (some (.map [])),
        .run dependenciesOf, .run fun registry => registry.code {}] :=
    ⟨by simp [Turn.isRegistration], by simp [Turn.isRegistration]⟩
  have howners : RegistersOnce [.run dependenciesOf] [.run dependenciesOf] :=
    ⟨by simp [Turn.isRegistration], by simp [Turn.isRegistration]⟩
  have hsettled := settled_registry hc hd he hl hn hm hpets howners
  exact ⟨c, d, _, hc, hd, hn, hm, halike, hin, hin', (hsettled.2 _ _ _ hin hin' hpet halike).2⟩

end ZodSchemas
