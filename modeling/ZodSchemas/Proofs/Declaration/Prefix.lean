import ZodSchemas.Proofs.Declaration.Pieces
import ZodSchemas.Proofs.Declaration.Placement

/-!
# The prefix only renames

Without a prefix every declaration and every use has the identifier of its name,
and behind a prefix the same file is written in another spelling. So where all
names are single lines, one row of pieces gives the code behind every prefix that
is a single line, and where there is no code there is none behind any prefix.
-/

namespace ZodSchemas

open Lines

namespace Registry

/-- The names that the nodes of a registry refer to are single lines. -/
structure NamesInLine (registry : Registry) : Prop where
  /-- In an entry. -/
  entries : ∀ e ∈ registry.entries, ∀ ref ∈ e.2.refs, lineFeed ∉ ref.name.written
  /-- In what a reference stands for. -/
  bodies : ∀ ref body, registry.body ref = .ok body → ∀ r ∈ body.refs, lineFeed ∉ r.name.written
  /-- In an entry that comes to be when a reference is resolved. -/
  adds : ∀ ref, ∀ e ∈ registry.adds ref, ∀ r ∈ e.2.refs, lineFeed ∉ r.name.written

variable {registry : Registry} {settings : Settings}

/-- The node behind an entry refers to single lines. -/
theorem NamesInLine.bodyOf (h : registry.NamesInLine) {entry body : Node}
    (he : ∀ ref ∈ entry.refs, lineFeed ∉ ref.name.written)
    (hb : (registry.bodyOf entry).outcome = .ok body) :
    ∀ ref ∈ body.refs, lineFeed ∉ ref.name.written := by
  cases entry with
  | lazy ref =>
    exact h.bodies ref body (resolve_eq_ok.mp hb)
  | _ =>
    obtain rfl := Traced.pure_eq_ok.mp hb
    exact he

/-- What stands under a name, at whatever point, refers to single lines. -/
theorem NamesInLine.entryAfter? (h : registry.NamesInLine) {resolved : List Ref} {name : Key}
    {entry : Node} (he : registry.entryAfter? resolved name = some entry) :
    ∀ ref ∈ entry.refs, lineFeed ∉ ref.name.written := by
  unfold Registry.entryAfter? at he
  split at he
  · next node hf =>
    obtain rfl := Option.some.inj he
    obtain ⟨k, -, hm⟩ := Entries.mem_of_find? hf
    exact h.entries _ hm
  · obtain ⟨k, -, hm⟩ := Entries.mem_of_find? he
    obtain ⟨ref, -, hadded⟩ := List.mem_flatMap.mp hm
    exact h.adds ref _ hadded

/-- Without a prefix a declaration has the identifier of its name, and so do its uses. -/
theorem NamesInLine.declare (h : registry.NamesInLine) {progress : Progress} {name : Key}
    {entry : Node} (he : ∀ ref ∈ entry.refs, lineFeed ∉ ref.name.written) {d : Declaration}
    (hd : (registry.declare (settings.withPrefix (.text [])) progress name entry).outcome = .ok d) :
    d.IsOwn := by
  obtain ⟨rfl, hidentifier, body, hb, ht⟩ := declare_eq_ok hd
  refine ⟨Settings.eq_ownIdentifier hidentifier, fun u hu => ?_⟩
  obtain ⟨ref, hr, hu⟩ := exists_left_of_mem (Context.renders_term _ body d.name d.term ht) hu
  have hidentifier := Settings.eq_ownIdentifier hu.identifier
  rw [← hu.name] at hidentifier
  exact ⟨hidentifier, hu.name ▸ h.bodyOf he hb ref hr⟩

/-- Without a prefix declarations have the identifiers of their names, and so do their uses. -/
theorem NamesInLine.declarations (h : registry.NamesInLine) {order : List Key}
    {progress : Progress} {resolved : List Ref} {ds : List Declaration}
    (hd : (registry.declarations (settings.withPrefix (.text [])) order progress resolved).outcome =
      .ok ds) : ∀ d ∈ ds, d.IsOwn := by
  induction order generalizing progress resolved ds with
  | nil =>
    obtain rfl := Traced.pure_eq_ok.mp hd
    simp
  | cons name rest ih =>
    rw [Registry.declarations] at hd
    split at hd
    · obtain ⟨t, -, hd⟩ := Traced.bind_eq_ok.mp hd
      simp at hd
    · next entry he =>
      split at hd
      · exact ih hd
      · obtain ⟨first, hf, hd⟩ := Traced.bind_eq_ok.mp hd
        obtain ⟨others, ho, hd⟩ := Traced.bind_eq_ok.mp hd
        obtain rfl := Traced.pure_eq_ok.mp hd
        exact List.forall_mem_cons.mpr ⟨h.declare (h.entryAfter? he) hf, ih ho⟩

/-- Without a prefix the declarations of a file have the identifiers of their names. -/
theorem NamesInLine.fileInOrder (h : registry.NamesInLine) {resolved : List Ref}
    {order : List Key} {file : CodeFile}
    (hf : (registry.fileInOrder (settings.withPrefix (.text [])) resolved order).outcome =
      .ok file) : ∀ d ∈ file.declarations, d.IsOwn := by
  obtain ⟨ds, hd, hf⟩ := Traced.bind_eq_ok.mp hf
  obtain ⟨module, -, hf⟩ := Traced.bind_eq_ok.mp hf
  obtain rfl := Traced.pure_eq_ok.mp hf
  exact h.declarations hd

end Registry

end ZodSchemas
