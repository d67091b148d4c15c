import ZodSchemas.Proofs.Files.Texts
import ZodSchemas.Proofs.Output.Existing
import ZodSchemas.Web.Reply

/-!
# Runs of the command where the output file exists

Up to writing the code, a run of the command only looks things up. The paths in
what it is asked to do are those that the options spell, and the settings that
it goes on with are those of the settings file, so that an output file that
exists is kept as the generator keeps it. This holds however words and documents
in YAML are read and whatever client answers the requests.
-/

namespace ZodSchemas

open FileTree

variable {α β : Type} {tree : FileTree} {line : CommandLine} {P : α → Prop} {Q : β → Prop}

/-- Steps of a run leave the tree as it is, and the values that they give have some property. -/
def Leaves (tree : FileTree) (x : Running (StateM FileTree) α) (P : α → Prop) : Prop :=
  ∀ journal, ∃ outcome journal',
    StateT.run (StateT.run (ExceptT.run x) journal) tree = ((outcome, journal'), tree) ∧
      ∀ a, outcome = .ok a → P a

namespace Leaves

theorem pure {a : α} (h : P a) : Leaves tree (Pure.pure a) P :=
  fun journal => ⟨.ok a, journal, rfl, fun b hb => by cases hb; exact h⟩

theorem throw (e : CommandError) : Leaves tree (MonadExcept.throw e) P :=
  fun journal => ⟨.error e, journal, rfl, fun b hb => by cases hb⟩

theorem bind {x : Running (StateM FileTree) α} {f : α → Running (StateM FileTree) β}
    (hx : Leaves tree x P) (hf : ∀ a, P a → Leaves tree (f a) Q) : Leaves tree (x >>= f) Q := by
  intro journal
  obtain ⟨outcome, journal', hrun, ho⟩ := hx journal
  have hbind : StateT.run (StateT.run (ExceptT.run (x >>= f)) journal) tree =
      (match StateT.run (StateT.run (ExceptT.run x) journal) tree with
      | ((r, j), t) => StateT.run (StateT.run (ExceptT.bindCont f r) j) t) := rfl
  rw [hbind, hrun]
  cases outcome with
  | error e => exact ⟨.error e, journal', rfl, fun b hb => by cases hb⟩
  | ok a => exact hf a (ho a rfl) journal'

theorem map {x : Running (StateM FileTree) α} (f : α → β) (hx : Leaves tree x P)
    (h : ∀ a, P a → Q (f a)) : Leaves tree (f <$> x) Q := by
  rw [map_eq_pure_bind]
  exact bind hx fun a ha => pure (h a ha)

/-- A step of the host that leaves the tree as it is. -/
theorem perform {x : StateM FileTree α} (hx : (StateT.run x tree).2 = tree)
    (h : P (StateT.run x tree).1) : Leaves tree (Running.perform x) P := by
  intro journal
  refine ⟨.ok (StateT.run x tree).1, journal, ?_, fun a ha => by cases ha; exact h⟩
  change ((Except.ok (StateT.run x tree).1, journal), (StateT.run x tree).2) = _
  rw [hx]

theorem require {ε : Type} (f : ε → CommandError) {x : Except ε α} (h : ∀ a, x = .ok a → P a) :
    Leaves tree (Running.require f x) P := by
  cases x with
  | error e => exact throw (f e)
  | ok a => exact pure (h a rfl)

/-- A note changes the journal alone. -/
theorem note (f : Journal → Journal) :
    Leaves tree (modify f : Running (StateM FileTree) Unit) fun _ => True :=
  fun journal => ⟨.ok (), f journal, rfl, fun _ _ => trivial⟩

/-- What each step of a fold keeps holds in the end. -/
theorem foldlM {f : β → α → Running (StateM FileTree) β} {xs : List α} {b : β} (hb : Q b)
    (hf : ∀ b x, x ∈ xs → Q b → Leaves tree (f b x) Q) : Leaves tree (xs.foldlM f b) Q := by
  induction xs generalizing b with
  | nil => exact pure hb
  | cons x rest ih =>
    rw [List.foldlM_cons]
    exact bind (hf b x List.mem_cons_self hb) fun c hc =>
      ih hc fun d y hy => hf d y (List.mem_cons_of_mem _ hy)

end Leaves

/-- The absolute path that the value of an option spells. -/
def FileTree.pathOf (tree : FileTree) (value : Text) : FilePath :=
  (FilePath.ofText value).absolute ⟨"/", tree.workingDirectory⟩

/-- The value in the settings file that a command line names. -/
def FileTree.settingsValue? (tree : FileTree) (line : CommandLine) : Option Value := do
  let value ← line.value? .config
  let t ← (tree.textAt (tree.pathOf value)).toOption
  (Json.read t).toOption

/-- What an invocation says is what the options of a command line say. -/
structure Invocation.Follows (tree : FileTree) (line : CommandLine) (asked : Invocation) :
    Prop where
  /-- The output file is that of its option. -/
  output (path : FilePath) : asked.output = some path →
    ∃ value, line.value? .output = some value ∧ path = tree.pathOf value
  /-- The settings file is that of its option. -/
  config (path : FilePath) : asked.config = some path →
    ∃ value, line.value? .config = some value ∧ path = tree.pathOf value
  /-- Replacing is asked for by its option. -/
  force : asked.isForced = true → line.has .force = true

/-- Each settled option has the value that counts. -/
theorem CommandLine.value?_of_mem_settled {given : Given} (h : given ∈ line.settled) :
    line.value? given.1 = some given.2 := by
  obtain ⟨s, -, hs⟩ := List.mem_filterMap.mp h
  obtain ⟨value, hvalue, rfl⟩ := Option.map_eq_some_iff.mp hs
  exact hvalue

variable (client : Client)

/-- Looking up the value of an option gives its path. -/
theorem leaves_lookUp (tree : FileTree) (value : Text) :
    Leaves tree ((host client).lookUp value) fun r => r.1 = tree.pathOf value := by
  rw [Host.lookUp]
  dsimp only
  split
  · exact Leaves.throw _
  · refine Leaves.bind (Leaves.perform (P := (· = ⟨"/", tree.workingDirectory⟩)) rfl rfl) ?_
    rintro directory rfl
    refine Leaves.bind (Leaves.perform (P := fun _ => True) ?_ trivial) fun k _ => Leaves.pure rfl
    exact (keeps_kind _ tree).symm

/-- An option says its part of what the command line asks for. -/
theorem leaves_invoke {asked : Invocation} {given : Given} (hg : given ∈ line.settled)
    (h : asked.Follows tree line) :
    Leaves tree ((host client).invoke asked given) (Invocation.Follows tree line) := by
  have hvalue := CommandLine.value?_of_mem_settled hg
  obtain ⟨s, value⟩ := given
  cases s with
  | output =>
    refine Leaves.bind (leaves_lookUp client tree value) fun r hr => ?_
    obtain ⟨path, kind⟩ := r
    obtain rfl : path = tree.pathOf value := hr
    split
    · exact Leaves.throw _
    · next path' _ heq =>
      cases heq
      exact Leaves.pure ⟨fun _ hp => ⟨value, hvalue, by cases hp; rfl⟩, h.config, h.force⟩
  | config =>
    refine Leaves.bind (leaves_lookUp client tree value) fun r hr => ?_
    obtain ⟨path, kind⟩ := r
    obtain rfl : path = tree.pathOf value := hr
    split
    · exact Leaves.throw _
    · next path' _ heq =>
      cases heq
      exact Leaves.pure ⟨h.output, fun _ hp => ⟨value, hvalue, by cases hp; rfl⟩, h.force⟩
  | namePrefix => exact Leaves.pure ⟨h.output, h.config, h.force⟩
  | force =>
    exact Leaves.pure ⟨h.output, h.config, fun _ => by rw [CommandLine.has, hvalue]; rfl⟩
  | help => exact Leaves.pure h

/-- An invocation says what its command line says. -/
theorem leaves_invocation (tree : FileTree) (line : CommandLine) :
    Leaves tree ((host client).invocation line) (Invocation.Follows tree line) := by
  have hstart : Invocation.Follows tree line { source := [] } :=
    ⟨fun _ h => (by cases h), fun _ h => (by cases h), fun h => (by cases h)⟩
  refine Leaves.bind (Leaves.foldlM hstart fun asked given hg h => leaves_invoke client hg h) ?_
  intro asked h
  refine Leaves.bind (Leaves.require (P := fun _ => True) _ fun _ _ => trivial) fun source _ => ?_
  exact Leaves.pure ⟨h.output, h.config, h.force⟩

variable {asked : Invocation}

/-- The settings file of an invocation keeps files that exist, unless it asks to replace them. -/
theorem leaves_readSettings (h : asked.Follows tree line)
    (hconfig : ∀ v, tree.settingsValue? line = some v → v.asksToReplace = false) {path : FilePath}
    (hpath : asked.config = some path) :
    Leaves tree ((host client).readSettings path) Settings.KeepsExisting := by
  obtain ⟨value, hvalue, rfl⟩ := h.config path hpath
  have hread := effectOf_readText client tree (tree.pathOf value)
  refine Leaves.bind (Leaves.perform (P := (· = tree.textAt (tree.pathOf value)))
    (congrArg Prod.snd hread) (congrArg Prod.fst hread)) fun r hr => ?_
  refine Leaves.bind (Leaves.require (P := fun t => tree.textAt (tree.pathOf value) = .ok t) _
    fun _ ht => hr.symm.trans ht) fun t ht => ?_
  refine Leaves.bind (Leaves.require (P := fun v => tree.settingsValue? line = some v) _ ?_) ?_
  · intro v hv
    simp [settingsValue?, hvalue, ht, hv, Except.toOption]
  · exact fun v hv => Leaves.require _ fun s hs =>
      Settings.keepsExisting_ofValue hs (hconfig v hv)

/-- The settings of an invocation keep files that exist, unless replacing is asked for by the
option or by the settings file. -/
theorem leaves_settingsFor (h : asked.Follows tree line) (hforce : line.has .force = false)
    (hconfig : ∀ v, tree.settingsValue? line = some v → v.asksToReplace = false) :
    Leaves tree ((host client).settingsFor asked) Settings.KeepsExisting := by
  have hnone : Settings.KeepsExisting {} := fun output ho => by cases ho; rfl
  have hnot : asked.isForced = false := by
    by_contra hf
    rw [h.force (by simpa using hf)] at hforce
    cases hforce
  rw [Host.settingsFor]
  simp only [hnot]
  -- the prefix of the command line leaves the output settings as they are
  split
  · next path hpath =>
    refine Leaves.bind (leaves_readSettings client h hconfig hpath) fun s hs => Leaves.pure ?_
    split <;> exact hs
  · refine Leaves.bind (Leaves.pure hnone) fun s hs => Leaves.pure ?_
    split <;> exact hs

/-- Loading a document changes nothing. -/
theorem leaves_documentFor (tree : FileTree) (yaml : YamlReader) (asked : Invocation) :
    Leaves tree ((host client).documentFor yaml asked) fun _ => True := by
  have hload := (run_load client tree yaml asked.source Loading.standardTimeout).1
  refine Leaves.bind (Leaves.perform (P := fun _ => True) hload trivial) fun loaded _ => ?_
  refine Leaves.bind (Leaves.note _) fun _ _ => ?_
  exact Leaves.map _ (Leaves.require (P := fun _ => True) _ fun _ _ => trivial) fun _ _ => trivial

/-- Printing the code changes nothing. -/
theorem leaves_printCode (tree : FileTree) (document : Value) (settings : Settings) :
    Leaves tree (Host.printCode document settings) fun _ => True := by
  refine Leaves.bind (Leaves.note _) fun _ _ => ?_
  refine Leaves.bind (Leaves.require (P := fun _ => True) _ fun _ _ => trivial) fun code _ => ?_
  split
  · exact Leaves.pure trivial
  · exact Leaves.throw _

/-- Writing the code to a file that exists changes nothing, if the settings keep it. -/
theorem leaves_saveCode {settings : Settings} {path : FilePath} {place : Location}
    {node : FileNode} (document : Value) (hs : settings.KeepsExisting)
    (hl : tree.locate path = .ok (place, some node)) :
    Leaves tree ((host client).saveCode document settings path) fun _ => True := by
  refine Leaves.bind (Leaves.perform (P := fun _ => True)
    (generateToFile_existing client document hs hl) trivial) fun r _ => ?_
  obtain ⟨outcome, warnings⟩ := r
  refine Leaves.bind (Leaves.note _) fun _ _ => ?_
  exact Leaves.bind (Leaves.require (P := fun _ => True) _ fun _ _ => trivial) fun _ _ =>
    Leaves.pure trivial

/-- A run of the command changes nothing where its output file exists, unless it is asked to
replace it. -/
theorem run_existing (readers : Readers) {words : List Text}
    (h : ∀ line, readers.line words = .ok line → line.has .force = false ∧
      (∀ v, tree.settingsValue? line = some v → v.asksToReplace = false) ∧
      ∀ value, line.value? .output = some value →
        ∃ place node, tree.locate (tree.pathOf value) = .ok (place, some node)) :
    (StateT.run ((host client).run readers words) tree).2 = tree := by
  have hsteps : Leaves tree ((host client).steps readers words) fun _ => True := by
    refine Leaves.bind (Leaves.require (P := fun line => readers.line words = .ok line) _
      fun _ hline => hline) fun line hline => ?_
    obtain ⟨hforce, hconfig, houtput⟩ := h line hline
    split
    · exact Leaves.pure trivial
    refine Leaves.bind (leaves_invocation client tree line) fun asked hasked => ?_
    refine Leaves.bind (leaves_settingsFor client hasked hforce hconfig) fun settings hs => ?_
    refine Leaves.bind (leaves_documentFor client tree readers.yaml asked) fun document _ => ?_
    split
    · exact leaves_printCode tree document settings
    · next path hpath =>
      obtain ⟨value, hvalue, rfl⟩ := hasked.output path hpath
      obtain ⟨place, node, hl⟩ := houtput value hvalue
      exact leaves_saveCode client document hs hl
  obtain ⟨outcome, journal, hrun, -⟩ := hsteps {}
  let steps := (host client).steps readers words
  change (match StateT.run (StateT.run (ExceptT.run steps) {}) tree with
    | ((outcome, journal), t) => (Report.mk outcome journal, t)).2 = tree
  rw [hrun]

/-- Unless the mapping for the settings asks to replace it, or the command line does, an output file
that exists keeps the generator and the command from changing anything. -/
theorem existing_output_kept (client : Client) (readers : Readers) (tree : FileTree) :
    (∀ v settings, Settings.ofValue v = .ok settings → v.asksToReplace = false →
      ∀ document path place node, tree.locate path = .ok (place, some node) →
        (StateT.run ((host client).generateToFile document settings path) tree).2 = tree) ∧
    ∀ words, (∀ line, readers.line words = .ok line → line.has .force = false ∧
        (∀ v, tree.settingsValue? line = some v → v.asksToReplace = false) ∧
        ∀ value, line.value? .output = some value →
          ∃ place node, tree.locate (tree.pathOf value) = .ok (place, some node)) →
      (StateT.run ((host client).run readers words) tree).2 = tree := by
  refine ⟨fun v settings h hv document path place node hl => ?_,
    fun words => run_existing client readers⟩
  exact generateToFile_existing client document (Settings.keepsExisting_ofValue h hv) hl

/-- A file kept by the mode that is the default, and by a command with an empty settings file. -/
theorem existing_output_kept_old :
    let client : Client := .offline
    let tree : FileTree := ⟨[(["out.ts"], .file [0x6F, 0x6C, 0x64]),
      (["settings.json"], .file [0x7B, 0x7D]), (["spec.json"], .file [0x7B, 0x7D])], []⟩
    let v : Value := .map [("output", .map [("mode", "error"), ("atomic_write", .bool false)])]
    let words : List Text := ["-o", "out.ts", "-c", "settings.json", "spec.json"]
    (∃ settings, Settings.ofValue v = .ok settings ∧
      (StateT.run ((host client).generateToFile (.map []) settings ⟨[], ["out.ts"]⟩) tree).2 =
        tree) ∧
      (StateT.run ((host client).run .standard words) tree).2 = tree := by
  intro client tree v words
  refine ⟨⟨_, rfl, ?_⟩, ?_⟩
  · exact (existing_output_kept client .standard tree).1 v _ rfl (by decide +kernel) _ _
      [Text.ofString "out.ts"] (.file [0x6F, 0x6C, 0x64]) (by decide +kernel)
  · refine (existing_output_kept client .standard tree).2 words fun line hline => ?_
    have hread : CommandLine.read words =
        .ok ⟨[(.output, "out.ts"), (.config, "settings.json")], ["spec.json"]⟩ := by decide +kernel
    obtain rfl := Except.ok.inj (hline.symm.trans hread)
    refine ⟨by decide +kernel, fun v hv => ?_, fun value hvalue => ?_⟩
    · have hempty : (tree.settingsValue? ⟨[(.output, "out.ts"), (.config, "settings.json")],
          ["spec.json"]⟩).map Value.asksToReplace = some false := by decide +kernel
      rw [hv] at hempty
      exact Option.some.inj hempty
    · have hname : value = "out.ts" := Option.some.inj (hvalue.symm.trans (by decide +kernel))
      exact ⟨["out.ts"], .file [0x6F, 0x6C, 0x64], by rw [hname]; decide +kernel⟩

/-- A mode that is no text replaces the file. -/
theorem existing_output_replaced :
    let client : Client := .offline
    let tree : FileTree := ⟨[(["out.ts"], .file [0x6F, 0x6C, 0x64])], []⟩
    ∃ settings, Settings.ofValue (.map [("output", .map [("mode", .null)])]) = .ok settings ∧
      (StateT.run ((host client).generateToFile (.map []) settings ⟨[], ["out.ts"]⟩)
        tree).2.get? ["out.ts"] =
          some (.file ((Utf8.encode? "import \x7b z \x7d from 'zod';\n\n").getD [])) :=
  ⟨_, rfl, by decide +kernel⟩

end ZodSchemas
