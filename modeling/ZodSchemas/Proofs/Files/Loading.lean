import ZodSchemas.Proofs.Endings
import ZodSchemas.Proofs.Files.Texts
import ZodSchemas.Proofs.Json.Refusals
import ZodSchemas.Proofs.Yaml.Contents
import ZodSchemas.Web.Reply

/-!
# How loading ends

Loading a document ends in a mapping or in an error of its own, which has a
wording, if requests that fail have one. It ends otherwise for a few reasons
only, which are known from the source: a malformed address, a path that no file
can have, a file that is not in UTF-8, an integer in JSON with too many digits,
and a text in YAML that the reader breaks down on. Loading changes no files.
-/

namespace ZodSchemas

open FileTree

/-- The text that a source brings: that of a file, or that of a reply. -/
inductive Brings (tree : FileTree) (client : Client) (source : Text) (timeout : Value) :
    Text → Prop where
  /-- The octets of a file, with line feeds at the ends of lines. -/
  | file {place : Location} {bytes : List UInt8} {t : Text} (ha : Address.isAddress source = false)
    (hl : tree.locate (.ofText source) = .ok (place, some (.file bytes)))
    (hd : Utf8.decode bytes = .ok t) : Brings tree client source timeout (Lines.normalize t)
  /-- What the request for an address is answered with. -/
  | reply {t : Text} (ha : Address.isAddress source = true)
    (hr : client ⟨source, timeout, true⟩ = .ok t) : Brings tree client source timeout t

/-- Why loading ends in an error that is not its own. -/
inductive LoadingLapse (tree : FileTree) (client : Client) (yaml : YamlReader) (source : Text)
    (timeout : Value) : LoadError → Prop where
  /-- The host of an address is malformed. -/
  | address (ha : Address.isAddress source = true) (hp : Address.path? source = none) :
    LoadingLapse tree client yaml source timeout .malformedAddress
  /-- No file can have the path: it holds a surrogate or the null control. -/
  | path {format : Format} {fault : FileFault} (hf : Loading.format source = .ok format)
    (ha : Address.isAddress source = false) (hp : (FilePath.ofText source).fault? = some fault) :
    LoadingLapse tree client yaml source timeout (.noText fault)
  /-- The octets of the file are no text. -/
  | octets {format : Format} {place : Location} {bytes : List UInt8} {e : Utf8.DecodeError}
    (hf : Loading.format source = .ok format) (ha : Address.isAddress source = false)
    (hl : tree.locate (.ofText source) = .ok (place, some (.file bytes)))
    (hd : Utf8.decode bytes = .error e) :
    LoadingLapse tree client yaml source timeout (.noText (.undecodable e))
  /-- An integer of a JSON text has too many digits. -/
  | integer {t : Text} {digits : Nat} (hf : Loading.format source = .ok .json)
    (hb : Brings tree client source timeout t) (hi : Numeral.HasLongRun digits t)
    (hr : Json.read t = .error (.tooManyDigits digits)) :
    LoadingLapse tree client yaml source timeout (.document (.json (.tooManyDigits digits)))
  /-- The reader breaks down on a YAML text, which is worse than to find it malformed. -/
  | yaml {t : Text} {e : Yaml.ReadError} (hf : Loading.format source = .ok .yaml)
    (hb : Brings tree client source timeout t) (hr : yaml t = .error e) (hne : e ≠ .malformed) :
    LoadingLapse tree client yaml source timeout (.document (.yaml e))

/-- How loading may fail: with an error of its own, or for one of the other reasons. -/
def FailsAs (tree : FileTree) (client : Client) (yaml : YamlReader) (source : Text)
    (timeout : Value) (e : LoadError) : Prop :=
  e.message?.isSome = true ∨ e.message? = none ∧ LoadingLapse tree client yaml source timeout e

variable {tree : FileTree} {client : Client} {yaml : YamlReader} {source t : Text} {timeout : Value}
  {e : LoadError} {format : Format}

namespace Loading

/-- A source without a format is refused, or its address is malformed. -/
theorem failsAs_of_format (h : Loading.format source = .error e) :
    FailsAs tree client yaml source timeout e := by
  rw [Loading.format] at h
  split at h
  · next hsuffix =>
    cases h
    rw [suffix?] at hsuffix
    split at hsuffix
    · next ha =>
      exact .inr ⟨rfl, .address ha (Option.map_eq_none_iff.mp hsuffix)⟩
    · cases hsuffix
  · split at h
    · cases h
    · cases h
      exact .inl rfl

/-- A path is refused, unless no file can have it. -/
theorem locate_eq_error {path : FilePath} {fault : FileFault}
    (h : tree.locate path = .error fault) :
    (∃ problem, fault = .refused problem path) ∨ path.fault? = some fault := by
  rw [locate] at h
  split at h
  · next hfault =>
    cases h
    exact .inr hfault
  · split at h
    · cases h
      exact .inl ⟨_, rfl⟩
    · rcases hf : tree.follow (if path.root.isEmpty then tree.workingDirectory else []) path.parts
        with problem | r
      · simp only [hf, Except.mapError] at h
        cases h
        exact .inl ⟨problem, rfl⟩
      · simp only [hf, Except.mapError] at h
        cases h

/-- What no file can have as its path is no refusal of the host. -/
theorem ofFault_of_fault? {path : FilePath} {fault : FileFault} (h : path.fault? = some fault) :
    ofFault source fault = .noText fault := by
  rw [FilePath.fault?] at h
  split at h
  · cases h
    rfl
  · split at h <;> cases h
    rfl

/-- A source brings its text, or fails to. -/
theorem endsIn_sourceText (hf : Loading.format source = .ok format)
    (hfails : Address.isAddress source = true → client.FailsInWords ⟨source, timeout, true⟩) :
    EndsIn (FailsAs tree client yaml source timeout) (Brings tree client source timeout)
      (tree.sourceText client source timeout) := by
  rw [sourceText]
  split
  · next ha =>
    rcases hr : client ⟨source, timeout, true⟩ with e | t
    · obtain ⟨reason, rfl⟩ := hfails ha e hr
      exact .inl rfl
    · exact .reply ha hr
  · next ha =>
    have ha : Address.isAddress source = false := by simpa using ha
    rw [textAt]
    rcases hl : tree.locate (.ofText source) with fault | ⟨place, _ | ⟨bytes | _⟩⟩
    · rcases locate_eq_error hl with ⟨problem, rfl⟩ | hfault
      · exact .inl rfl
      · change FailsAs tree client yaml source timeout (ofFault source fault)
        rw [ofFault_of_fault? hfault]
        have hnone : (LoadError.noText fault).message? = none := rfl
        exact .inr ⟨hnone, .path hf ha hfault⟩
    · exact .inl rfl
    · simp only
      rcases hd : Utf8.decode bytes with e | t
      · exact .inr ⟨rfl, .octets hf ha hl hd⟩
      · exact .file ha hl hd
    · exact .inl rfl

/-- A text that a source brings stands for a value, or fails to. -/
theorem failsAs_of_document {error : DocumentError} (hf : Loading.format source = .ok format)
    (hb : Brings tree client source timeout t)
    (h : Document.readUsing yaml format t = .error error) :
    FailsAs tree client yaml source timeout (.document error) := by
  cases format with
  | json =>
    rcases hread : Json.read t with e | v <;> rw [Document.readUsing, hread] at h <;> cases h
    rcases Json.of_read_eq_error hread with ⟨problem, line, column, offset, rfl⟩ |
      ⟨digits, rfl, hlong⟩
    · exact .inl rfl
    · exact .inr ⟨rfl, .integer hf hb hlong hread⟩
  | yaml =>
    rcases hread : yaml t with e | v <;> rw [Document.readUsing, hread] at h <;> cases h
    by_cases hne : e = .malformed
    · subst hne
      exact .inl rfl
    · have hnone : (LoadError.document (.yaml e)).message? = none := by
        cases e <;> first | exact absurd rfl hne | rfl
      exact .inr ⟨hnone, .yaml hf hb hread hne⟩

/-- A text that a source brings is read as a mapping, or fails to be one. -/
theorem endsIn_read (hf : Loading.format source = .ok format)
    (hb : Brings tree client source timeout t) :
    EndsIn (FailsAs tree client yaml source timeout) (fun _ => True)
      (Loading.read yaml source format t) := by
  have hdocument : EndsIn (FailsAs tree client yaml source timeout) (fun _ => True)
      ((Document.readUsing yaml format t).mapError .document) := by
    rcases h : Document.readUsing yaml format t with error | v
    · exact failsAs_of_document hf hb h
    · trivial
  refine EndsIn.bind hdocument fun document _ => ?_
  unfold Loading.entries
  split
  · trivial
  · exact .inl rfl

/-- What a source brings is its text. -/
theorem sourceText_of_brings (h : Brings tree client source timeout t) :
    tree.sourceText client source timeout = .ok t := by
  cases h with
  | file ha hl hd =>
    rw [sourceText, ha, textAt, hl]
    simp [hd, Except.mapError]
  | reply ha hr =>
    rw [sourceText, ha, if_pos rfl, hr]
    rfl

/-- For each of the other reasons loading ends in the error that belongs to it. -/
theorem loaded_of_lapse (h : LoadingLapse tree client yaml source timeout e) :
    tree.loaded client yaml source timeout = .error e := by
  cases h with
  | address ha hp =>
    have hformat : Loading.format source = .error .malformedAddress := by
      rw [Loading.format, suffix?, if_pos ha, hp]
      rfl
    rw [loaded, hformat]
    rfl
  | @path _ fault hf ha hp =>
    have ht : tree.textAt (.ofText source) = .error fault := by rw [textAt, locate, hp]
    rw [loaded, hf, sourceText, ha, ht, ← ofFault_of_fault? hp]
    rfl
  | @octets _ _ _ e hf ha hl hd =>
    have ht : tree.textAt (.ofText source) = .error (.undecodable e) := by
      rw [textAt, hl]
      simp only [hd]
    rw [loaded, hf, sourceText, ha, ht]
    rfl
  | integer hf hb hi hr =>
    rw [loaded, hf, sourceText_of_brings hb]
    change ((Document.readUsing yaml .json _).mapError _).bind _ = _
    rw [Document.readUsing, hr]
    rfl
  | yaml hf hb hr hne =>
    rw [loaded, hf, sourceText_of_brings hb]
    change ((Document.readUsing yaml .yaml _).mapError _).bind _ = _
    rw [Document.readUsing, hr]
    rfl

/-- Where requests fail in words, what loading comes to is a mapping or a failure. -/
theorem endsIn_loaded
    (hfails : Address.isAddress source = true → client.FailsInWords ⟨source, timeout, true⟩) :
    EndsIn (FailsAs tree client yaml source timeout) (fun _ => True)
      (tree.loaded client yaml source timeout) := by
  have hformat : EndsIn (FailsAs tree client yaml source timeout)
      (fun form => Loading.format source = .ok form) (Loading.format source) := by
    rcases hf : Loading.format source with e | form
    · exact failsAs_of_format hf
    · rfl
  refine EndsIn.bind hformat fun form hf => ?_
  exact EndsIn.bind (endsIn_sourceText hf hfails) fun t hb => endsIn_read hf hb

end Loading

/-- If a request for the source fails in words only, loading ends in a mapping or in an error of its
own, apart from a few reasons, each of which does end it otherwise. It changes no files. -/
theorem loading_ends (tree : FileTree) {client : Client} (yaml : YamlReader) {source : Text}
    {timeout : Value}
    (hfails : Address.isAddress source = true → client.FailsInWords ⟨source, timeout, true⟩) :
    let run := StateT.run ((host client).load yaml source timeout) tree
    run.2 = tree ∧
      ((∃ entries, run.1.outcome = .ok entries) ∨ ∃ e, run.1.outcome = .error e ∧
        (e.message?.isSome = true ∨
          e.message? = none ∧ LoadingLapse tree client yaml source timeout e)) ∧
      ∀ e, LoadingLapse tree client yaml source timeout e → run.1.outcome = .error e := by
  intro run
  obtain ⟨hkept, houtcome⟩ := run_load client tree yaml source timeout
  have hends : EndsIn (FailsAs tree client yaml source timeout) (fun _ => True)
      (tree.loaded client yaml source timeout) := Loading.endsIn_loaded hfails
  refine ⟨hkept, ?_, fun e he => houtcome.trans (Loading.loaded_of_lapse he)⟩
  rw [← houtcome] at hends
  rcases hout : run.1.outcome with e | entries
  · rw [hout] at hends
    exact .inr ⟨e, rfl, hends⟩
  · exact .inl ⟨entries, rfl⟩

/-- The standard reader breaks down on a text for a reason that stands in the text or in its graph:
an escape beyond all code points, a number with too many digits, a text that is none of the sort it
is tagged as, or a mapping tagged as a scalar. -/
theorem LoadingLapse.reason_of_read {error : Yaml.ReadError}
    (h : LoadingLapse tree client Yaml.read source timeout (.document (.yaml error))) :
    ∃ t, Brings tree client source timeout t ∧ (Yaml.IsTextFault t error ∨
      ∃ g root, Yaml.Graph.ofText t = .ok (some (g, root)) ∧ g.Lapses error) := by
  cases h with
  | yaml _ hb hr _ => exact ⟨_, hb, Yaml.of_read_eq_error hr⟩

/-- An empty mapping that is fetched. -/
theorem loading_ends_fetched :
    let tree : FileTree := ⟨[], []⟩
    let source : Text := "http://h/a.yaml"
    let client : Client := (Reply.response 200 "\x7b\x7d" []).answer
    let run := StateT.run ((host client).load Yaml.read source Loading.standardTimeout) tree
    Address.isAddress source = true ∧
      client.FailsInWords ⟨source, Loading.standardTimeout, true⟩ ∧ run.2 = tree ∧
      ((∃ entries, run.1.outcome = .ok entries) ∨ ∃ e, run.1.outcome = .error e ∧
        (e.message?.isSome = true ∨ e.message? = none ∧
          LoadingLapse tree client Yaml.read source Loading.standardTimeout e)) ∧
      ∀ e, LoadingLapse tree client Yaml.read source Loading.standardTimeout e →
        run.1.outcome = .error e := by
  intro tree source client
  have ha : Address.isAddress source = true := by decide +kernel
  have hanswer : client ⟨source, Loading.standardTimeout, true⟩ = .ok "\x7b\x7d" := by
    decide +kernel
  have hfails : client.FailsInWords ⟨source, Loading.standardTimeout, true⟩ := by
    intro e he
    cases hanswer.symm.trans he
  refine ⟨ha, hfails, ?_⟩
  exact loading_ends tree Yaml.read fun _ => hfails

/-- A file with a single octet that starts no code point: loading ends neither in a mapping nor in
an error of its own. -/
theorem loading_fails_octets :
    let source : Text := "a.json"
    let client : Client := .offline
    let tree : FileTree := ⟨[(["a.json"], .file [0xFF])], []⟩
    let run := StateT.run ((host client).load Yaml.read source Loading.standardTimeout) tree
    Address.isAddress source = false ∧
      ∃ e, run.1.outcome = .error e ∧ e.message? = none := by
  intro source client tree
  have ha : Address.isAddress source = false := by decide +kernel
  have hf : Loading.format source = .ok .json := by
    have hsuffix : Loading.suffix? source = some ".json" := by decide +kernel
    rw [Loading.format, hsuffix]
    rfl
  have hl : tree.locate (.ofText source) = .ok (["a.json"], some (.file [0xFF])) := by
    decide +kernel
  have hd : Utf8.decode [0xFF] = .error ⟨.invalidStart, 0xFF, 0, 1⟩ := by decide +kernel
  have hlapse : LoadingLapse tree client Yaml.read source Loading.standardTimeout
      (.noText (.undecodable ⟨.invalidStart, 0xFF, 0, 1⟩)) := .octets hf ha hl hd
  refine ⟨ha, .noText (.undecodable ⟨.invalidStart, 0xFF, 0, 1⟩), ?_, rfl⟩
  rw [(run_load client tree Yaml.read source Loading.standardTimeout).2]
  exact Loading.loaded_of_lapse hlapse

end ZodSchemas
