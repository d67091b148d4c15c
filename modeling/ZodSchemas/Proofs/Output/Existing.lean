import ZodSchemas.Command.Report
import ZodSchemas.Proofs.Output.InOneStep

/-!
# Output files that exist

Settings replace an output file only if the mapping that they are read from
holds output settings whose mode is the text `force` or no text at all. With
other settings, and without the option for it, neither the generator nor the
command changes anything where an output file exists, whether it succeeds or
not.
-/

namespace ZodSchemas

open FileTree

/-- Whether a mode replaces files: a text that says so does, and whatever is no text. -/
def Value.isReplacing : Value → Bool
  | .text name => name = ("force" : Text)
  | _ => true

/-- Whether a value of output settings has a mode that replaces files. -/
def Value.replaces (output : Value) : Bool :=
  match output.entries? with
  | some entries => ((Entries.find? "mode" entries).map isReplacing).getD false
  | none => false

/-- Whether a mapping for settings has output settings that replace files. -/
def Value.asksToReplace (v : Value) : Bool :=
  match v.entries? with
  | some entries => entries.any fun e => e.1 = .text "output" && e.2.replaces
  | none => false

/-- What each step of a fold keeps holds in the end. -/
theorem exceptFoldlM_induction {ε α β : Type} {P : β → Prop} {f : β → α → Except ε β}
    {xs : List α} {b c : β} (h : xs.foldlM f b = .ok c) (hb : P b)
    (hf : ∀ b x c, x ∈ xs → P b → f b x = .ok c → P c) : P c := by
  induction xs generalizing b with
  | nil =>
    cases h
    exact hb
  | cons x rest ih =>
    obtain ⟨d, hd, h⟩ := exceptBind_eq_ok.mp h
    exact ih h (hf b x d List.mem_cons_self hb hd) fun b y c hy =>
      hf b y c (List.mem_cons_of_mem _ hy)

namespace Settings

/-- The output settings keep files that exist. -/
def KeepsExisting (s : Settings) : Prop :=
  ∀ output, s.output = .settings output → output.mode = .errorIfExists

variable {s s' : Settings} {key : Text} {v : Value}

/-- Only the text of the mode, or a value that is no text, makes output settings replace files. -/
theorem mode_of_outputOf {entries : Entries Value} {output : OutputSettings}
    (h : outputOf entries = .ok output) : output.mode = .errorIfExists ∨
      ∃ mode, Entries.find? "mode" entries = some mode ∧ mode.isReplacing = true := by
  rw [outputOf] at h
  split at h
  · cases h
    exact .inl rfl
  · next name hfind =>
    split at h
    · next mode hname =>
      cases h
      rw [OutputMode.ofName?] at hname
      split at hname
      · cases hname
        exact .inl rfl
      · split at hname
        · next hforce => exact .inr ⟨_, hfind, decide_eq_true hforce⟩
        · cases hname
    · cases h
  · next other hne hfind =>
    refine .inr ⟨other, hfind, ?_⟩
    rw [Value.isReplacing.eq_def]
    split
    · next name => exact absurd rfl (hne name)
    · rfl

/-- Output settings whose value does not replace files keep them. -/
theorem mode_of_replaces {entries : Entries Value} {output : OutputSettings}
    (h : outputOf entries = .ok output) (he : v.entries? = some entries)
    (hv : v.replaces = false) : output.mode = .errorIfExists := by
  refine (mode_of_outputOf h).resolve_right ?_
  rintro ⟨mode, hfind, hmode⟩
  simp [Value.replaces, he, hfind, hmode] at hv

theorem output_replaceOperation (s : Settings) (key : Text) :
    (s.replaceOperation key).output = s.output := by
  rw [replaceOperation]
  split <;> rfl

/-- Settings that consist of entries have no output settings. -/
theorem keepsExisting_ofAll (entries : Entries Value) : (ofAll entries).KeepsExisting := by
  rw [ofAll]
  refine List.foldlRecOn entries _ ?_ fun s hs e _ => ?_
  · intro output h
    simp only at h
    split at h <;> cases h
  · split
    · rw [KeepsExisting, output_replaceOperation]
      exact hs
    · exact hs

/-- An entry leaves the settings as they are with respect to files, unless it is the one for output
and replaces them. -/
theorem KeepsExisting.set (hs : s.KeepsExisting) (h : s.set key v = .ok s')
    (hv : key = ("output" : Text) → v.replaces = false) : s'.KeepsExisting := by
  rw [Settings.set] at h
  -- the prefix and the module
  split at h
  · cases h
    exact hs
  split at h
  · cases h
    exact hs
  -- the output settings
  split at h
  · next hkey =>
    split at h
    · next entries hentries =>
      obtain ⟨output, houtput, h⟩ := exceptBind_eq_ok.mp h
      cases h
      intro o ho
      cases ho
      exact mode_of_replaces houtput hentries (hv hkey)
    · split at h
      · cases h
        exact hs
      · cases h
        intro o ho
        cases ho
  -- what cannot be set, and what replaces all entries or an operation
  split at h
  · cases h
  split at h
  · cases h
  split at h
  · split at h
    · cases h
      exact keepsExisting_ofAll _
    · cases h
  · cases h
    rw [KeepsExisting, output_replaceOperation]
    exact hs

/-- Settings that are read keep files that exist, unless the mapping asks to replace them. -/
theorem keepsExisting_ofValue (h : ofValue v = .ok s) (hv : v.asksToReplace = false) :
    s.KeepsExisting := by
  rw [ofValue] at h
  split at h
  · next entries hentries =>
    refine exceptFoldlM_induction h (fun output ho => by cases ho; rfl) fun s e s' he hs hset => ?_
    split at hset
    · next key hkey =>
      rw [Value.asksToReplace, hentries, List.any_eq_false] at hv
      refine hs.set hset fun hname => ?_
      simpa [hkey, hname] using hv e he
    · cases hset
  · cases h

end Settings

variable {tree : FileTree} {place : Location} {path : FilePath} {node : FileNode}
  {settings : Settings}

/-- Where the output file exists nothing is written, in one step or directly. -/
theorem effectOf_writeOutput {output : OutputSettings} (client : Client) (module code : Text)
    (h : tree.locate path = .ok (place, some node)) (hmode : output.mode = .errorIfExists) :
    effectOf ((host client).writeOutput module output path code) tree =
      (.error (.outputExists path), tree) := by
  have hrefuse : effectOf ((host client).refuseExisting path) tree =
      (.error (.outputExists path), tree) := effectOf_refuseExisting makeTemporary client h
  rw [Host.writeOutput, hmode]
  cases output.atomic.isTruthy
  · simp only [effectOf_bind, hrefuse]
  · simp only [Host.writeNew, effectOf_bind, hrefuse]

/-- Generating into a file that exists changes nothing, if the settings keep it. -/
theorem generateToFile_existing (client : Client) (document : Value) (hs : settings.KeepsExisting)
    (h : tree.locate path = .ok (place, some node)) :
    (StateT.run ((host client).generateToFile document settings path) tree).2 = tree := by
  rw [Host.generateToFile]
  rcases generate document settings with ⟨_ | code, notes⟩
  · rfl
  · simp only
    split
    · rfl
    · rfl
    · next output module houtput hmodule =>
      have hmode : output.mode = .errorIfExists := by
        rw [Settings.outputSettings] at houtput
        split at houtput
        · next o ho =>
          cases houtput
          exact hs _ ho
        · cases houtput
      have hwrite := effectOf_writeOutput client module code h hmode
      change (effectOf ((host client).writeOutput module output path code) tree).2 = tree
      rw [hwrite]

end ZodSchemas
