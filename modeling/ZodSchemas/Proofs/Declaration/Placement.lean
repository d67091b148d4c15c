import ZodSchemas.Declaration.File
import ZodSchemas.Proofs.Conversion.Known
import ZodSchemas.Proofs.Declaration.Uses
import ZodSchemas.Proofs.Dependency.Collection
import ZodSchemas.Proofs.Dependency.Growth
import ZodSchemas.Proofs.Dependency.Order

/-!
# Where declarations stand

The names of a document are declared in the order of their dependencies, each
when those in front are declared and nothing else is. So a use is the bare
identifier exactly when its declaration stands in front, and a use that is
deferred leads back to the declaration that it stands in.
-/

namespace ZodSchemas

namespace Progress

/-- A new name that is begun, ended and declared comes behind those that are declared. -/
theorem finish_stop_start {generated : List Key} {name : Key}
    (h : name.isAmong generated = false) :
    (((⟨generated, []⟩ : Progress).start name).stop name).finish name =
      ⟨generated ++ [name], []⟩ := by
  simp [start, stop, finish, insertKey, h]

/-- While a new name is declared exactly the names in front count as declared. -/
theorem isDeclared_start {generated : List Key} {name : Key}
    (h : name.isAmong generated = false) (other : Key) :
    ((⟨generated, []⟩ : Progress).start name).isDeclared other = other.isAmong generated := by
  have hs : ((⟨generated, []⟩ : Progress).start name).isDeclared other =
      (other.isAmong generated && !name.same other) := by
    simp [start, insertKey, isDeclared]
  rw [hs]
  cases ho : name.same other with
  | false => simp
  | true =>
    rw [Key.isAmong_congr ho] at h
    simp [h]

end Progress

namespace Registry

variable {registry : Registry} {settings : Settings}

/-- A name is an entry of a registry and its body is known. -/
def HasBody (registry : Registry) (name : Key) (body : Node) : Prop :=
  ∃ entry, Entries.find? name registry.entries = some entry ∧
    (registry.bodyOf entry).outcome = .ok body

/-- A declaration is written behind those of some names. -/
structure Declares (registry : Registry) (settings : Settings) (earlier : List Key)
    (d : Declaration) : Prop where
  /-- The name is not declared in front. -/
  isNew : d.name.isAmong earlier = false
  /-- It is the declaration of what has the name at some point. -/
  written : ∃ resolved entry, registry.entryAfter? resolved d.name = some entry ∧
    (registry.declare settings ⟨earlier, []⟩ d.name entry).outcome = .ok d

/-- What a declaration consists of. -/
theorem declare_eq_ok {progress : Progress} {name : Key} {entry : Node} {d : Declaration}
    (h : (registry.declare settings progress name entry).outcome = .ok d) :
    d.name = name ∧ settings.identifier (.ofKey name) = .ok d.identifier ∧
      ∃ body, (registry.bodyOf entry).outcome = .ok body ∧
        ((⟨registry, settings, progress.start name⟩ : Context).term body name).outcome =
          .ok d.term := by
  obtain ⟨body, hb, h⟩ := Traced.bind_eq_ok.mp h
  obtain ⟨term, ht, h⟩ := Traced.bind_eq_ok.mp h
  obtain ⟨identifier, hi, h⟩ := Traced.bind_eq_ok.mp h
  obtain rfl := Traced.pure_eq_ok.mp h
  exact ⟨rfl, Context.identifier_eq_ok.mp hi, body, Traced.mapError_eq_ok.mp hb, ht⟩

section Steps

variable {generated rest : List Key} {resolved : List Ref} {name : Key} {entry : Node}

/-- A new name is declared, and then the names behind it. -/
theorem declarations_cons (he : registry.entryAfter? resolved name = some entry)
    (hn : name.isAmong generated = false) :
    registry.declarations settings (name :: rest) ⟨generated, []⟩ resolved =
      (do
        let first ← registry.declare settings ⟨generated, []⟩ name entry
        let others ← registry.declarations settings rest ⟨generated ++ [name], []⟩
          (resolved ++ (registry.declare settings ⟨generated, []⟩ name entry).events)
        pure (first :: others)) := by
  rw [declarations]
  simp only [he, hn, Bool.false_eq_true, if_false, Progress.finish_stop_start hn]

/-- A name that is declared already is skipped. -/
theorem declarations_cons_again (he : registry.entryAfter? resolved name = some entry)
    (hn : name.isAmong generated = true) :
    registry.declarations settings (name :: rest) ⟨generated, []⟩ resolved =
      registry.declarations settings rest ⟨generated, []⟩ resolved := by
  rw [declarations]
  simp only [he, hn, if_true]

/-- Names are declared only when the first has an entry. -/
theorem exists_entry_of_declarations {progress : Progress} {ds : List Declaration}
    (h : (registry.declarations settings (name :: rest) progress resolved).outcome = .ok ds) :
    ∃ entry, registry.entryAfter? resolved name = some entry := by
  rw [declarations] at h
  cases he : registry.entryAfter? resolved name with
  | some entry => exact ⟨entry, rfl⟩
  | none =>
    simp only [he] at h
    obtain ⟨t, -, h⟩ := Traced.bind_eq_ok.mp h
    simp at h

end Steps

/-- The names of an order without repetitions are declared in it, each behind those in front. -/
theorem declares_declarations {order generated : List Key} {resolved : List Ref}
    {ds : List Declaration} (hd : KeysDiffer (generated ++ order))
    (h : (registry.declarations settings order ⟨generated, []⟩ resolved).outcome = .ok ds) :
    ds.map (·.name) = order ∧ ∀ front d back, ds = front ++ d :: back →
      registry.Declares settings (generated ++ front.map (·.name)) d := by
  induction order generalizing generated resolved ds with
  | nil =>
    obtain rfl : [] = ds := by simpa [declarations] using h
    exact ⟨rfl, by simp⟩
  | cons name rest ih =>
    have hn : name.isAmong generated = false := hd.not_among_front (by simp)
    obtain ⟨entry, he⟩ := exists_entry_of_declarations h
    rw [declarations_cons he hn] at h
    obtain ⟨first, hf, h⟩ := Traced.bind_eq_ok.mp h
    obtain ⟨others, ho, h⟩ := Traced.bind_eq_ok.mp h
    obtain rfl := Traced.pure_eq_ok.mp h
    obtain ⟨hname, -, -⟩ := declare_eq_ok hf
    have hd' : KeysDiffer ((generated ++ [name]) ++ rest) := by simpa using hd
    obtain ⟨hnames, hothers⟩ := ih hd' ho
    refine ⟨by simp [hname, hnames], fun front d back hsplit => ?_⟩
    cases front with
    | nil =>
      obtain ⟨rfl, rfl⟩ : first = d ∧ others = back := by simpa using hsplit
      refine ⟨by simpa [hname] using hn, resolved, entry, by rw [hname]; exact he, ?_⟩
      simpa [hname] using hf
    | cons e front =>
      obtain ⟨rfl, rfl⟩ : first = e ∧ others = front ++ d :: back := by simpa using hsplit
      simpa [hname] using hothers front d back rfl

/-- The dependencies of an entry are those of its body. -/
theorem find?_dependenciesFrom {entries : Entries Node} {map : DependencyMap}
    (h : (dependenciesFrom registry entries).outcome = .ok map) :
    Entries.keys map = Entries.keys entries ∧
      ∀ name entry, Entries.find? name entries = some entry →
        ∃ body, (registry.bodyOf entry).outcome = .ok body ∧
          Entries.find? name map = some body.dependencies := by
  induction entries generalizing map with
  | nil =>
    obtain rfl : [] = map := by simpa [dependenciesFrom] using h
    exact ⟨rfl, by simp [Entries.find?]⟩
  | cons e rest ih =>
    obtain ⟨k, node⟩ := e
    rw [dependenciesFrom] at h
    obtain ⟨body, hb, h⟩ := Traced.bind_eq_ok.mp h
    obtain ⟨others, ho, h⟩ := Traced.bind_eq_ok.mp h
    obtain rfl := Traced.pure_eq_ok.mp h
    obtain ⟨hkeys, hfind⟩ := ih ho
    refine ⟨by simpa [Entries.keys] using hkeys, fun name entry hf => ?_⟩
    rw [Entries.find?] at hf
    rw [Entries.find?]
    split at hf
    · next hs =>
      obtain rfl : node = entry := by simpa using hf
      exact ⟨body, hb, by rw [if_pos hs]⟩
    · next hs =>
      rw [if_neg hs]
      exact hfind name entry hf

/-- The dependencies of a name are those of its body. -/
theorem exists_hasBody_of_find? {map : DependencyMap}
    (hm : (dependenciesOf registry).outcome = .ok map) {name : Key} {dependencies : List Key}
    (h : Entries.find? name map = some dependencies) :
    ∃ body, registry.HasBody name body ∧ body.dependencies = dependencies := by
  obtain ⟨hkeys, hbodies⟩ := find?_dependenciesFrom hm
  have hentry : Entries.has name registry.entries = true := by
    rw [Entries.has_eq_isAmong, ← hkeys, ← Entries.has_eq_isAmong, Entries.has_of_find? h]
  obtain ⟨entry, hf⟩ := Entries.exists_find? hentry
  obtain ⟨body, hb, hdependencies⟩ := hbodies name entry hf
  exact ⟨body, ⟨entry, hf, hb⟩, Option.some.inj (hdependencies.symm.trans h)⟩

end Registry

namespace Converter

variable {document : Value} {c : Converter}

/-- Each entry of a converter defers to a reference. -/
theorem exists_lazy_of_find? {name : Key} {entry : Node}
    (h : Entries.find? name c.registry.entries = some entry) : ∃ ref, entry = .lazy ref := by
  obtain ⟨k, -, hm⟩ := Entries.mem_of_find? h
  obtain ⟨⟨n, ref⟩, -, he⟩ := List.mem_map.mp hm
  exact ⟨ref, (congrArg Prod.snd he).symm⟩

/-- The names that are registered are those that a document defines, each once. -/
theorem keys_registry (h : convertDocument document = .ok c) :
    KeysDiffer (Entries.keys c.registry.entries) ∧
      ∀ name, name.isAmong (definedNames c.definitions) =
        Entries.has name c.registry.entries := by
  refine ⟨?_, fun name => ?_⟩
  · rw [keys_entries_registry, entries_of_convertDocument h]
    exact Entries.keysDiffer_ofPairs _
  · rw [Entries.has_eq_isAmong, keys_entries_registry, ← Entries.has_eq_isAmong,
      entries_of_convertDocument h, Entries.ofPairs, Entries.has_merge,
      Entries.has_eq_isAmong _ (List.map _ _)]
    simp [Entries.keys, Entries.has, Entries.find?, Function.comp_def]

end Converter

/-- How a declaration is used inside another one, which has a name and stands behind some
declarations of a file. -/
structure IsPlaced (map : DependencyMap) (all earlier : List Declaration) (name : Key) (u : Use) :
    Prop where
  /-- What is used is declared in the file. -/
  declared : ∃ d ∈ all, d.name = u.name ∧ d.identifier = u.identifier
  /-- The use is the bare identifier exactly when its declaration stands in front. -/
  bare : u.text = u.identifier ↔ ∃ d ∈ earlier, d.name = u.name
  /-- Any other use is deferred. -/
  deferred : u.text ≠ u.identifier → u.text = "z.lazy(() => " ++ u.identifier ++ ")"
  /-- Only a use that leads back is deferred. -/
  cyclic : u.text ≠ u.identifier → Reaches map u.name name

/-- The code of a use tells whether it is deferred. -/
theorem Use.text_eq_identifier (u : Use) : u.text = u.identifier ↔ u.isDeferred = false := by
  rw [Use.text]
  cases u.isDeferred with
  | false => simp
  | true =>
    simp only [if_true, Bool.true_eq_false, iff_false]
    intro h
    have hl := congrArg List.length h
    rw [List.length_append, List.length_append] at hl
    have hp : List.length ("z.lazy(() => " : Text) = 13 := rfl
    omega

namespace Registry

variable {settings : Settings} {document : Value} {c : Converter} {map : DependencyMap}
  {ds : List Declaration}

/-- The names of the order that declarations are written in: they are the entries, each once. -/
theorem isOrderOf_dependencies (hc : convertDocument document = .ok c)
    (hm : (dependenciesOf c.registry).outcome = .ok map) :
    IsOrderOf (sequence map) map ∧
      ∀ name, Entries.has name map = Entries.has name c.registry.entries := by
  have hk : Entries.keys map = Entries.keys c.registry.entries := (find?_dependenciesFrom hm).1
  have hd : KeysDiffer (Entries.keys map) := hk ▸ (Converter.keys_registry hc).1
  have ho := isOrderOf_sequence map
  rw [Entries.ofPairs_eq_self hd] at ho
  exact ⟨ho, fun name => by rw [Entries.has_eq_isAmong, hk, ← Entries.has_eq_isAmong]⟩

/-- What a body refers to is a text, and one of the names. -/
theorem exists_text_of_mem_refs (hc : convertDocument document = .ok c)
    (hm : (dependenciesOf c.registry).outcome = .ok map) {name : Key} {body : Node}
    (hb : c.registry.HasBody name body) {ref : Ref} (hr : ref ∈ body.refs) :
    ∃ t, ref.name = .text t ∧ Entries.has (.text t) map = true := by
  obtain ⟨entry, hf, hb⟩ := hb
  obtain ⟨own, rfl⟩ := Converter.exists_lazy_of_find? hf
  obtain ⟨-, t, schema, ht, hd⟩ := Converter.knowsAll_body (resolve_eq_ok.mp hb) ref hr
  refine ⟨t, ht, ?_⟩
  rw [(isOrderOf_dependencies hc hm).2, ← (Converter.keys_registry hc).2]
  exact Converter.isAmong_definedNames hd

/-- The order of the dependencies holds the names of the entries and nothing else. -/
theorem mem_sequence_iff (hc : convertDocument document = .ok c)
    (hm : (dependenciesOf c.registry).outcome = .ok map) {name : Key} :
    name ∈ sequence map ↔ name ∈ Entries.keys c.registry.entries := by
  obtain ⟨horder, hentries⟩ := isOrderOf_dependencies hc hm
  have hkeys : Entries.keys map = Entries.keys c.registry.entries := (find?_dependenciesFrom hm).1
  have hd : KeysDiffer (Entries.keys map) := hkeys ▸ (Converter.keys_registry hc).1
  have inside : ∀ name ∈ sequence map, name ∈ Entries.keys c.registry.entries := by
    intro name h
    have hv := sequence_visits map
    rw [Entries.ofPairs_eq_self hd] at hv
    rw [← hkeys]
    rcases hv.mem_of_mem_block h with hk | ⟨e, he, hk⟩
    · exact hk
    · obtain ⟨body, hb, hdependencies⟩ :=
        exists_hasBody_of_find? hm (Entries.find?_of_mem hd he)
      rw [← hdependencies] at hk
      obtain ⟨ref, hr, rfl⟩ := Node.exists_ref_of_mem_dependencies hk
      obtain ⟨t, ht, hentry⟩ := exists_text_of_mem_refs hc hm hb hr
      rw [ht]
      exact Key.text_mem_of_isAmong (Entries.has_eq_isAmong _ map ▸ hentry)
  refine ⟨inside name, fun h => ?_⟩
  have hamong : name.isAmong (sequence map) = true := by
    rw [horder.complete, hentries, Entries.has_eq_isAmong]
    exact Key.isAmong_of_mem h
  obtain ⟨k, hk, hs⟩ := Key.isAmong_iff.mp hamong
  rwa [← (Converter.keys_registry hc).1.eq_of_same (inside k hk) h hs]

/-- A name of the order has the entry that was registered under it. -/
theorem exists_entry_of_mem_sequence (hc : convertDocument document = .ok c)
    (hm : (dependenciesOf c.registry).outcome = .ok map) {name : Key} (hn : name ∈ sequence map) :
    ∃ ref, (name, ref) ∈ c.entries ∧
      Entries.find? name c.registry.entries = some (.lazy ref) := by
  obtain ⟨entry, he, rfl⟩ := List.mem_map.mp ((mem_sequence_iff hc hm).mp hn)
  have hf := Entries.find?_of_mem (Converter.keys_registry hc).1 he
  obtain ⟨⟨k, ref⟩, hin, rfl⟩ := List.mem_map.mp he
  exact ⟨ref, hin, hf⟩

/-- A name that the body of an entry refers to leads back to the entry when it does not stand in
front of it in the order. -/
theorem reaches_of_not_front (hc : convertDocument document = .ok c)
    (hm : (dependenciesOf c.registry).outcome = .ok map) {front back : List Key} {name : Key}
    (ho : sequence map = front ++ name :: back) {body : Node}
    (hbody : c.registry.HasBody name body) {ref : Ref} (href : ref ∈ body.refs) {t : Text}
    (ht : ref.name = .text t) (hentry : Entries.has (.text t) map = true)
    (hn : (Key.text t).isAmong front = false) : Reaches map (.text t) name := by
  obtain ⟨horder, -⟩ := isOrderOf_dependencies hc hm
  obtain ⟨entry, hf, hb⟩ := hbody
  obtain ⟨found, hfound, hdependencies⟩ := (find?_dependenciesFrom hm).2 name entry hf
  obtain rfl : found = body := by simpa [hfound] using hb
  have hlisted : .text t ∈ found.dependencies := by
    refine Key.text_mem_of_isAmong ?_
    rw [← ht]
    exact Node.isAmong_dependencies href
  refine (horder.ordered name _ (.text t) hdependencies hlisted hentry).resolve_left fun hb => ?_
  -- What stands before the name in the order stands in front of it.
  rw [ho] at hb
  have hfront := hb.isAmong_front (ho ▸ horder.differ)
  simp [hn] at hfront

/-- What is declared behind some names is the body of an entry, each reference of which is used. -/
theorem Declares.exists_body {earlier : List Key} {d : Declaration}
    (h : c.registry.Declares settings earlier d)
    (hn : Entries.has d.name c.registry.entries = true) :
    settings.identifier (.ofKey d.name) = .ok d.identifier ∧
      ∃ body, c.registry.HasBody d.name body ∧ c.source.KnowsAll body ∧
        List.Forall₂ (fun ref u => u.name = ref.name ∧
          settings.identifier (.ofKey ref.name) = .ok u.identifier ∧
          u.isDeferred = !ref.name.isAmong earlier) body.refs d.term.uses := by
  obtain ⟨resolved, entry, he, hw⟩ := h.written
  obtain ⟨found, hf⟩ := Entries.exists_find? hn
  obtain rfl : found = entry := by simpa [entryAfter?, hf] using he
  obtain ⟨-, hi, body, hb, ht⟩ := declare_eq_ok hw
  obtain ⟨ref, rfl⟩ := Converter.exists_lazy_of_find? hf
  have hk : c.registry.body ref = .ok body := by
    obtain ⟨-, -, hb⟩ := Traced.bind_eq_ok.mp hb
    exact hb
  refine ⟨hi, body, ⟨_, hf, hb⟩, Converter.knowsAll_body hk, ?_⟩
  refine (Context.renders_term _ body d.name d.term ht).imp fun ref u hr => ?_
  exact ⟨hr.name, hr.identifier, by rw [hr.isDeferred, Progress.isDeclared_start h.isNew]⟩

/-- Declarations are those of the entries of a converter, in the order of their dependencies. -/
structure AreWritten (settings : Settings) (c : Converter) (map : DependencyMap)
    (ds : List Declaration) : Prop where
  /-- The names are ordered. -/
  order : IsOrderOf (sequence map) map
  /-- They are those of the entries. -/
  entries : ∀ name, Entries.has name map = Entries.has name c.registry.entries
  /-- Each has one declaration. -/
  names : ds.map (·.name) = sequence map
  /-- Each declaration is written behind those in front. -/
  declares : ∀ front d back, ds = front ++ d :: back →
    c.registry.Declares settings (front.map (·.name)) d

/-- The declarations that are written for a document are those of its entries. -/
theorem areWritten_of_declarations {resolved : List Ref} (hc : convertDocument document = .ok c)
    (hm : (dependenciesOf c.registry).outcome = .ok map)
    (hds : (c.registry.declarations settings (sequence map) {} resolved).outcome = .ok ds) :
    AreWritten settings c map ds := by
  obtain ⟨horder, hentries⟩ := isOrderOf_dependencies hc hm
  have hdiffer : KeysDiffer ([] ++ sequence map) := horder.differ
  obtain ⟨hnames, hdeclares⟩ := declares_declarations hdiffer hds
  exact ⟨horder, hentries, hnames, hdeclares⟩

namespace AreWritten

/-- What is declared is an entry. -/
theorem has_entry (h : AreWritten settings c map ds) {d : Declaration} (hd : d ∈ ds) :
    Entries.has d.name c.registry.entries = true := by
  rw [← h.entries, ← h.order.complete, ← h.names]
  exact Key.isAmong_of_mem (List.mem_map_of_mem hd)

/-- What is declared has the identifier of its name. -/
theorem identifier (h : AreWritten settings c map ds) {d : Declaration} (hd : d ∈ ds) :
    settings.identifier (.ofKey d.name) = .ok d.identifier := by
  obtain ⟨front, back, hsplit⟩ := List.append_of_mem hd
  exact ((h.declares front d back hsplit).exists_body (h.has_entry hd)).1

/-- An entry whose name is a text is declared. -/
theorem exists_declaration (h : AreWritten settings c map ds) {t : Text}
    (ht : Entries.has (.text t) map = true) : ∃ d ∈ ds, d.name = .text t := by
  rw [← h.order.complete, ← h.names] at ht
  exact List.mem_map.mp (Key.text_mem_of_isAmong ht)

end AreWritten

/-- The uses of a declaration among those of a document are placed. -/
theorem isPlaced_of_declarations {resolved : List Ref} (hc : convertDocument document = .ok c)
    (hm : (dependenciesOf c.registry).outcome = .ok map)
    (hds : (c.registry.declarations settings (sequence map) {} resolved).outcome = .ok ds)
    {front back : List Declaration} {d : Declaration} (hsplit : ds = front ++ d :: back) :
    ∃ body, c.registry.HasBody d.name body ∧
      List.Forall₂ (fun ref u => u.name = ref.name) body.refs d.term.uses ∧
      ∀ u ∈ d.term.uses, IsPlaced map ds front d.name u := by
  have hw := areWritten_of_declarations hc hm hds
  obtain ⟨-, body, hbody, hknown, huses⟩ :=
    (hw.declares front d back hsplit).exists_body (hw.has_entry (by simp [hsplit]))
  refine ⟨body, hbody, huses.imp fun ref u hr => hr.1, fun u hu => ?_⟩
  obtain ⟨ref, href, hname, hidentifier, hdeferred⟩ := exists_left_of_mem huses hu
  obtain ⟨-, t, schema, ht, hdefined⟩ := hknown ref href
  rw [ht] at hname hidentifier hdeferred
  have hentry : Entries.has (.text t) map = true := by
    rw [hw.entries, ← (Converter.keys_registry hc).2]
    exact Converter.isAmong_definedNames hdefined
  obtain ⟨target, htarget, htname⟩ := hw.exists_declaration hentry
  have hearlier : u.isDeferred = false ↔ ∃ e ∈ front, e.name = u.name := by
    rw [hdeferred, Bool.not_eq_false', hname]
    constructor
    · exact fun ha => List.mem_map.mp (Key.text_mem_of_isAmong ha)
    · exact fun he => Key.isAmong_of_mem (List.mem_map.mpr he)
  refine ⟨⟨target, htarget, htname.trans hname.symm, ?_⟩, u.text_eq_identifier.trans hearlier,
    fun h => ?_, fun h => ?_⟩
  · have hi := hw.identifier htarget
    rw [htname, hidentifier, Except.ok.injEq] at hi
    exact hi.symm
  · rw [Use.text, if_pos (by simpa [Use.text_eq_identifier] using h)]
  · rw [hname]
    have horder : sequence map = front.map (·.name) ++ d.name :: back.map (·.name) := by
      rw [← hw.names, hsplit, List.map_append, List.map_cons]
    refine reaches_of_not_front hc hm horder hbody href ht hentry ?_
    rw [Ne, Use.text_eq_identifier, hdeferred] at h
    simpa using h

end Registry

end ZodSchemas
