import ZodSchemas.Converter
import ZodSchemas.Proofs.Value.Keys

/-!
# Accounting for references that were followed

A converter accounts for the references that are followed, one by one. That
changes neither what references stand for nor what is registered already, it
only adds names behind and notes; and what was accounted for once is not
accounted for again. So the notes after some references are the first of those
after more references.
-/

namespace ZodSchemas

/-- The names among some references that have no definition. -/
def missingNames (mentions : List Mention) : List Text :=
  mentions.filterMap fun
    | .missing name => some name
    | .known _ => none

namespace Converter

variable {c other : Converter} {ref : Ref}

/-- How a converter that has accounted for something relates to one that has not. -/
structure Precedes (c later : Converter) : Prop where
  /-- References stand for the same. -/
  source : later.source = c.source
  /-- What is registered stays so. -/
  registered : ∀ name ref, Entries.find? name c.entries = some ref →
    Entries.find? name later.entries = some ref
  /-- What was converted stays so. -/
  converted : c.converted ⊆ later.converted
  /-- The notes go on. -/
  missing : c.missing <+: later.missing

/-- Nothing happened. -/
theorem Precedes.refl (c : Converter) : c.Precedes c :=
  ⟨rfl, fun _ _ h => h, fun _ h => h, List.prefix_rfl⟩

/-- One thing happened after another. -/
theorem Precedes.trans {later last : Converter} (h : c.Precedes later) (ho : later.Precedes last) :
    c.Precedes last :=
  ⟨ho.source.trans h.source, fun name ref hf => ho.registered name ref (h.registered name ref hf),
    fun _ hm => ho.converted (h.converted hm), h.missing.trans ho.missing⟩

/-- A reference that a conversion met is accounted for: its name is noted if it is missing. -/
theorem note_spec (c : Converter) (mention : Mention) :
    c.Precedes (c.note mention) ∧ (c.note mention).converted = c.converted ∧
      (c.note mention).missing = c.missing ++ missingNames [mention] := by
  cases mention with
  | missing name =>
    have hf : c.Precedes { c with missing := c.missing ++ [name] } :=
      ⟨rfl, fun _ _ h => h, fun _ h => h, List.prefix_append _ _⟩
    exact ⟨hf, rfl, rfl⟩
  | known name =>
    change c.Precedes (c.register name) ∧ (c.register name).converted = c.converted ∧
      (c.register name).missing = c.missing ++ []
    rw [register, List.append_nil]
    split
    · exact ⟨.refl c, rfl, rfl⟩
    · refine ⟨⟨rfl, fun k ref h => ?_, fun _ h => h, List.prefix_rfl⟩, rfl, rfl⟩
      rw [Entries.find?_append, h, Option.some_or]

/-- The references of a conversion are accounted for: the missing names are noted. -/
theorem noteAll_spec (c : Converter) (mentions : List Mention) :
    c.Precedes (c.noteAll mentions) ∧ (c.noteAll mentions).converted = c.converted ∧
      (c.noteAll mentions).missing = c.missing ++ missingNames mentions := by
  induction mentions generalizing c with
  | nil => exact ⟨.refl c, rfl, (List.append_nil _).symm⟩
  | cons mention rest ih =>
    obtain ⟨hf, hc, hm⟩ := note_spec c mention
    obtain ⟨hfs, hcs, hms⟩ := ih (c.note mention)
    refine ⟨hf.trans hfs, hcs.trans hc, hms.trans ?_⟩
    rw [hm, List.append_assoc]
    exact congrArg (c.missing ++ ·) (List.filterMap_append (l := [mention])).symm

/-- References stand for the same in the same registration of the same definitions. -/
theorem conversionOf_eq_of_source (h : c.source = other.source) :
    c.conversionOf = other.conversionOf := by
  funext ref
  have hd : c.definitions = other.definitions := congrArg Source.definitions h
  rw [conversionOf, conversionOf, hd, h]

/-- A reference that was followed is accounted for: it is converted unless that fails, and the
missing names are noted unless it was converted before. -/
theorem follow_spec (c : Converter) (ref : Ref) :
    c.Precedes (c.follow ref) ∧
      ((∃ node, (c.conversionOf ref).outcome = .ok node) → ref ∈ (c.follow ref).converted) := by
  unfold follow
  split
  · next hm => exact ⟨.refl c, fun _ => hm⟩
  · obtain ⟨hf, hc, -⟩ := noteAll_spec c (c.conversionOf ref).events
    dsimp only
    cases ho : (c.conversionOf ref).outcome with
    | ok node =>
      refine ⟨⟨hf.source, hf.registered, fun _ hm => ?_, hf.missing⟩, fun _ => by simp⟩
      exact List.mem_cons_of_mem _ (hf.converted hm)
    | error e => exact ⟨hf, by simp⟩

/-- References that were followed are accounted for. -/
theorem followAll_spec (c : Converter) (refs : List Ref) :
    c.Precedes (c.followAll refs) ∧
      ((∀ ref ∈ refs, ∃ node, (c.conversionOf ref).outcome = .ok node) →
        refs ⊆ (c.followAll refs).converted) := by
  induction refs generalizing c with
  | nil => exact ⟨.refl c, fun _ => by simp⟩
  | cons ref rest ih =>
    obtain ⟨hfirst, hm⟩ := follow_spec c ref
    obtain ⟨hrest, hms⟩ := ih (c.follow ref)
    refine ⟨hfirst.trans hrest, fun h => List.cons_subset.mpr ⟨?_, hms fun r hr => ?_⟩⟩
    · exact hrest.converted (hm (h ref (by simp)))
    · rw [conversionOf_eq_of_source hfirst.source]
      exact h r (List.mem_cons_of_mem _ hr)

/-- References are accounted for one after another. -/
theorem followAll_append (c : Converter) (refs more : List Ref) :
    c.followAll (refs ++ more) = (c.followAll refs).followAll more :=
  List.foldl_append

/-- References that are converted are not accounted for again. -/
theorem followAll_eq_self {refs : List Ref} (h : refs ⊆ c.converted) : c.followAll refs = c := by
  induction refs with
  | nil => rfl
  | cons ref rest ih =>
    obtain ⟨hm, hr⟩ := List.cons_subset.mp h
    have hf : c.follow ref = c := if_pos hm
    rw [followAll, List.foldl_cons, hf]
    exact ih hr

/-- Two converters have the same notes and converted the same. -/
structure SameNotes (c other : Converter) : Prop where
  /-- The same is converted. -/
  converted : c.converted = other.converted
  /-- The same names are noted. -/
  missing : c.missing = other.missing

/-- References that stand for the same are accounted for with the same notes. -/
theorem SameNotes.followAll {refs : List Ref} (h : c.SameNotes other)
    (hr : ∀ ref ∈ refs, c.conversionOf ref = other.conversionOf ref) :
    (c.followAll refs).SameNotes (other.followAll refs) := by
  induction refs generalizing c other with
  | nil => exact h
  | cons ref rest ih =>
    refine ih ?_ fun next hn => ?_
    · unfold follow
      rw [hr ref (by simp), h.converted]
      split
      · exact h
      · obtain ⟨-, hc, hm⟩ := noteAll_spec c (other.conversionOf ref).events
        obtain ⟨-, hoc, hom⟩ := noteAll_spec other (other.conversionOf ref).events
        have hconverted := hc.trans (h.converted.trans hoc.symm)
        have hmissing := hm.trans ((congrArg (· ++ _) h.missing).trans hom.symm)
        dsimp only
        split
        · exact ⟨congrArg (ref :: ·) hconverted, hmissing⟩
        · exact ⟨hconverted, hmissing⟩
    · rw [conversionOf_eq_of_source (follow_spec c ref).1.source,
        conversionOf_eq_of_source (follow_spec other ref).1.source]
      exact hr next (List.mem_cons_of_mem _ hn)

end Converter

end ZodSchemas
