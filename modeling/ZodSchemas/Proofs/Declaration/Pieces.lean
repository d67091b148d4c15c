import ZodSchemas.Proofs.Declaration.Spelling
import ZodSchemas.Proofs.Declaration.Placement
import ZodSchemas.Proofs.Text.Paragraph

/-!
# Code by its pieces

Code is a row of pieces: texts that stand as they are, and the names of schemas.
The row does not depend on the prefix, and written out it is the code behind
every prefix: a name becomes its identifier, which carries the prefix once.
Indentation looks for line feeds, so a name and a prefix without any go through
it as they are.
-/

namespace ZodSchemas

open Lines

/-- A part of code. -/
inductive Piece where
  /-- A text that stands as it is. -/
  | fixed (t : Text)
  /-- The name of a schema. -/
  | name (t : Text)
deriving DecidableEq

namespace Piece

/-- The text of a piece behind some prefix. -/
def under (front : Text) : Piece → Text
  | .fixed t => t
  | .name t => front ++ t ++ "Schema"

/-- The name that a piece is. -/
def name? : Piece → Option Text
  | .fixed _ => none
  | .name t => some t

/-- The text of pieces behind some prefix. -/
def textUnder (front : Text) (pieces : List Piece) : Text := pieces.flatMap (under front)

/-- The names among pieces, in order. -/
def names (pieces : List Piece) : List Text := pieces.filterMap name?

variable (front : Text)

@[simp] theorem textUnder_nil : textUnder front [] = [] := rfl

@[simp] theorem textUnder_fixed (t : Text) (rest : List Piece) :
    textUnder front (.fixed t :: rest) = t ++ textUnder front rest := rfl

@[simp] theorem textUnder_name (t : Text) (rest : List Piece) :
    textUnder front (.name t :: rest) = front ++ t ++ "Schema" ++ textUnder front rest := rfl

@[simp] theorem textUnder_append (pieces others : List Piece) :
    textUnder front (pieces ++ others) = textUnder front pieces ++ textUnder front others :=
  List.flatMap_append

/-- Pieces between neighbours are the texts between neighbours. -/
theorem textUnder_intercalate (between : List Piece) (parts : List (List Piece)) :
    textUnder front (List.intercalate between parts) =
      List.intercalate (textUnder front between) (parts.map (textUnder front)) := by
  induction parts with
  | nil => rfl
  | cons part rest ih =>
    cases rest with
    | nil => simp
    | cons next rest =>
      rw [List.intercalate_cons_cons, textUnder_append, textUnder_append, ih]
      simp only [List.map_cons, List.intercalate_cons_cons]

@[simp] theorem names_nil : names [] = [] := rfl

@[simp] theorem names_fixed (t : Text) (rest : List Piece) :
    names (.fixed t :: rest) = names rest := rfl

@[simp] theorem names_name (t : Text) (rest : List Piece) :
    names (.name t :: rest) = t :: names rest := rfl

@[simp] theorem names_append (pieces others : List Piece) :
    names (pieces ++ others) = names pieces ++ names others :=
  List.filterMap_append

/-- A fixed piece between neighbours adds no names. -/
theorem names_intercalate (between : Text) (parts : List (List Piece)) :
    names (List.intercalate [.fixed between] parts) = parts.flatMap names := by
  induction parts with
  | nil => rfl
  | cons part rest ih =>
    cases rest with
    | nil => simp
    | cons next rest =>
      rw [List.intercalate_cons_cons, names_append, names_append, names_fixed, names_nil, ih,
        List.append_nil]
      rfl

/-- The text with blanks behind each line feed. -/
def below (level : Int) (t : Text) : Text :=
  t.flatMap fun c => if c = lineFeed then lineFeed :: blanks level else [c]

/-- Indented pieces: blanks in front, and behind each line feed of a fixed text. -/
def indent (level : Int) (pieces : List Piece) : List Piece :=
  .fixed (blanks level) :: pieces.map fun
    | .fixed t => .fixed (below level t)
    | .name t => .name t

/-- Indentation keeps the names. -/
@[simp] theorem names_indent (level : Int) (pieces : List Piece) :
    names (indent level pieces) = names pieces := by
  rw [indent, names_fixed]
  induction pieces with
  | nil => rfl
  | cons piece rest ih =>
    rw [List.map_cons]
    cases piece with
    | fixed t => exact ih
    | name t => exact congrArg (t :: ·) ih

/-- Nothing is put behind the lines of a single line. -/
theorem below_of_not_mem {level : Int} {t : Text} (h : lineFeed ∉ t) : below level t = t := by
  induction t with
  | nil => rfl
  | cons c rest ih =>
    obtain ⟨hc, hrest⟩ : lineFeed ≠ c ∧ lineFeed ∉ rest := by simpa using h
    rw [below, List.flatMap_cons, if_neg (Ne.symm hc)]
    exact congrArg (c :: ·) (ih hrest)

/-- Where prefix and names are single lines, pieces are indented as their text is. -/
theorem textUnder_indent {front : Text} (level : Int) {pieces : List Piece}
    (hf : lineFeed ∉ front) (hn : ∀ t ∈ names pieces, lineFeed ∉ t) :
    textUnder front (indent level pieces) = Lines.indent level (textUnder front pieces) := by
  have hbelow : textUnder front (pieces.map fun
      | .fixed t => .fixed (below level t)
      | .name t => .name t) = below level (textUnder front pieces) := by
    induction pieces with
    | nil => rfl
    | cons piece rest ih =>
      have hsplit : ∀ a b, below level (a ++ b) = below level a ++ below level b :=
        fun a b => List.flatMap_append
      rw [List.map_cons]
      cases piece with
      | fixed t => rw [textUnder_fixed, textUnder_fixed, hsplit, ih hn]
      | name t =>
        have hline : lineFeed ∉ front ++ t ++ ("Schema" : Text) := by
          rw [List.mem_append, List.mem_append]
          rintro ((h | h) | h)
          · exact hf h
          · exact hn t (by simp) h
          · exact absurd h (by decide)
        have hrest := ih fun t ht => hn t (List.mem_cons_of_mem _ ht)
        rw [textUnder_name, textUnder_name, hsplit, below_of_not_mem hline, hrest]
  rw [indent, textUnder_fixed, hbelow, Lines.indent_eq]
  rfl

end Piece

/-- The text of a name; a name without one counts as empty. -/
def Key.written (name : Key) : Text := name.plain.toOption.getD []

/-- The identifier that a name has without a prefix. -/
def Key.ownIdentifier (name : Key) : Text := name.written ++ "Schema"

/-- Without a prefix settings give each name its own identifier. -/
theorem Settings.eq_ownIdentifier {settings : Settings} {name : Key} {identifier : Text}
    (h : (settings.withPrefix (.text [])).identifier (.ofKey name) = .ok identifier) :
    identifier = name.ownIdentifier := by
  unfold Settings.identifier at h
  split at h
  · cases h
  · obtain ⟨front, hfront, h⟩ := exceptBind_eq_ok.mp h
    obtain ⟨own, hown, h⟩ := exceptBind_eq_ok.mp h
    obtain rfl := Except.ok.inj hfront
    obtain rfl := Except.ok.inj h
    have hplain : name.plain = .ok own := hown
    rw [Key.ownIdentifier, Key.written, hplain]
    rfl

/-- A use has the identifier of its name without a prefix, and the name is a single line. -/
structure Use.IsOwn (u : Use) : Prop where
  /-- The identifier is that of the name. -/
  identifier : u.identifier = u.name.ownIdentifier
  /-- The name is a single line. -/
  line : lineFeed ∉ u.name.written

/-- The pieces of a use. -/
def Use.pieces (u : Use) : List Piece :=
  if u.isDeferred then [.fixed "z.lazy(() => ", .name u.name.written, .fixed ")"]
  else [.name u.name.written]

namespace Term

/-- The pieces of options, in brackets. -/
def bracketedPieces (options : List (List Piece)) : List Piece :=
  .fixed "[" :: List.intercalate [.fixed ", "] options ++ [.fixed "]"]

/-- The pieces of an object with some properties, each on lines of its own. -/
def objectPieces (properties : List (List Piece)) : List Piece :=
  if properties.isEmpty then [.fixed "z.object(\x7b\x7d)"]
  else .fixed "z.object(\x7b\n" :: Piece.indent 1 (List.intercalate [.fixed ",\n"] properties) ++
    [.fixed "\n\x7d)"]

mutual

/-- The pieces of a term. -/
def pieces : Term → List Piece
  | .call t => [.fixed t]
  | .use u => u.pieces
  | .object properties => objectPieces (propertyPieces properties)
  | .array element => .fixed "z.array(" :: element.pieces ++ [.fixed ")"]
  | .union options => .fixed "z.union(" :: bracketedPieces (optionPieces options) ++ [.fixed ")"]
  | .discriminated key options =>
    .fixed "z.discriminatedUnion(" :: .fixed key :: .fixed ", " ::
      bracketedPieces (optionPieces options) ++ [.fixed ")"]
  | .nullable inner => inner.pieces ++ [.fixed ".nullable()"]
  | .optional inner => inner.pieces ++ [.fixed ".optional()"]

/-- The pieces of properties: of each its name, a colon and the term. -/
def propertyPieces : List (Text × Term) → List (List Piece)
  | [] => []
  | (name, value) :: rest => (.fixed name :: .fixed ": " :: value.pieces) :: propertyPieces rest

/-- The pieces of options. -/
def optionPieces : List Term → List (List Piece)
  | [] => []
  | option :: rest => option.pieces :: optionPieces rest

end

/-- Pieces in brackets are their texts in brackets. -/
theorem textUnder_bracketedPieces (front : Text) (options : List (List Piece)) :
    Piece.textUnder front (bracketedPieces options) =
      bracketed (options.map (Piece.textUnder front)) := by
  simp [bracketedPieces, bracketed, Piece.textUnder_intercalate]

/-- The pieces of an object are the text of the object. -/
theorem textUnder_objectPieces {front : Text} {properties : List (List Piece)}
    (hf : lineFeed ∉ front) (hn : ∀ t ∈ properties.flatMap Piece.names, lineFeed ∉ t) :
    Piece.textUnder front (objectPieces properties) =
      objectText (properties.map (Piece.textUnder front)) := by
  rw [objectPieces, objectText, List.isEmpty_map]
  split
  · rfl
  · have hnames : ∀ t ∈ Piece.names (List.intercalate [.fixed ",\n"] properties),
        lineFeed ∉ t := by
      rw [Piece.names_intercalate]
      exact hn
    simp [Piece.textUnder_indent 1 hf hnames, Piece.textUnder_intercalate]

mutual

/-- The names among the pieces of a term are those of its uses. -/
theorem names_pieces : ∀ t : Term, Piece.names t.pieces = t.uses.map (·.name.written)
  | .call t => rfl
  | .use u => by
    rw [pieces, Use.pieces]
    split <;> rfl
  | .object properties => by
    rw [pieces, objectPieces, uses, ← names_propertyPieces properties]
    split
    · next h => rw [List.isEmpty_iff.mp h]; rfl
    · simp [Piece.names_intercalate]
  | .array element => by simp [pieces, uses, names_pieces element]
  | .union options => by
    simp [pieces, bracketedPieces, uses, Piece.names_intercalate, names_optionPieces options]
  | .discriminated key options => by
    simp [pieces, bracketedPieces, uses, Piece.names_intercalate, names_optionPieces options]
  | .nullable inner => by simp [pieces, uses, names_pieces inner]
  | .optional inner => by simp [pieces, uses, names_pieces inner]

/-- The names among the pieces of properties are those of their uses. -/
theorem names_propertyPieces : ∀ properties : List (Text × Term),
    (propertyPieces properties).flatMap Piece.names =
      (propertyUses properties).map (·.name.written)
  | [] => rfl
  | (name, value) :: rest => by
    simp [propertyPieces, propertyUses, names_pieces value, names_propertyPieces rest]

/-- The names among the pieces of options are those of their uses. -/
theorem names_optionPieces : ∀ options : List Term,
    (optionPieces options).flatMap Piece.names = (optionUses options).map (·.name.written)
  | [] => rfl
  | option :: rest => by
    simp [optionPieces, optionUses, names_pieces option, names_optionPieces rest]

end

mutual

/-- Behind a prefix in one line the text of a term is that of its pieces. -/
theorem text_respelled {front : Text} (hf : lineFeed ∉ front) : ∀ t : Term,
    (∀ u ∈ t.uses, u.IsOwn) →
      (t.respelled (front ++ ·)).text = Piece.textUnder front t.pieces
  | .call t, _ => by simp [respelled, text, pieces]
  | .use u, h => by
    have hidentifier := (h u (List.mem_singleton_self u)).identifier
    rw [respelled, text, pieces, Use.text, Use.pieces, Use.respelled]
    dsimp only
    rw [hidentifier]
    split
    · simp [Key.ownIdentifier]
    · simp [Key.ownIdentifier]
  | .object properties, h => by
    have hnames : ∀ t ∈ (propertyPieces properties).flatMap Piece.names, lineFeed ∉ t := by
      rw [names_propertyPieces]
      exact List.forall_mem_map.mpr fun u hu => (h u hu).line
    rw [respelled, text, pieces, propertyTexts_respelled hf properties h,
      textUnder_objectPieces hf hnames]
  | .array element, h => by
    simp [respelled, text, pieces, text_respelled hf element h]
  | .union options, h => by
    simp [respelled, text, pieces, textUnder_bracketedPieces, optionTexts_respelled hf options h]
  | .discriminated key options, h => by
    simp [respelled, text, pieces, textUnder_bracketedPieces, optionTexts_respelled hf options h]
  | .nullable inner, h => by simp [respelled, text, pieces, text_respelled hf inner h]
  | .optional inner, h => by simp [respelled, text, pieces, text_respelled hf inner h]

/-- Behind a prefix in one line the texts of properties are those of their pieces. -/
theorem propertyTexts_respelled {front : Text} (hf : lineFeed ∉ front) :
    ∀ properties : List (Text × Term), (∀ u ∈ propertyUses properties, u.IsOwn) →
      propertyTexts (respelledProperties (front ++ ·) properties) =
        (propertyPieces properties).map (Piece.textUnder front)
  | [], _ => rfl
  | (name, value) :: rest, h => by
    have hvalue := text_respelled hf value fun u hu => h u (List.mem_append_left _ hu)
    have hrest := propertyTexts_respelled hf rest fun u hu => h u (List.mem_append_right _ hu)
    simp [respelledProperties, propertyTexts, propertyPieces, hvalue, hrest]

/-- Behind a prefix in one line the texts of options are those of their pieces. -/
theorem optionTexts_respelled {front : Text} (hf : lineFeed ∉ front) :
    ∀ options : List Term, (∀ u ∈ optionUses options, u.IsOwn) →
      optionTexts (respelledOptions (front ++ ·) options) =
        (optionPieces options).map (Piece.textUnder front)
  | [], _ => rfl
  | option :: rest, h => by
    have hoption := text_respelled hf option fun u hu => h u (List.mem_append_left _ hu)
    have hrest := optionTexts_respelled hf rest fun u hu => h u (List.mem_append_right _ hu)
    simp [respelledOptions, optionTexts, optionPieces, hoption, hrest]

end

end Term

/-- The pieces of a declaration. -/
def Declaration.pieces (d : Declaration) : List Piece :=
  .fixed "export const " :: .name d.name.written :: .fixed " = " :: d.term.pieces ++ [.fixed ";"]

/-- The pieces of a file. -/
def CodeFile.pieces (file : CodeFile) : List Piece :=
  .fixed (importLine file.module) :: .fixed emptyLine ::
    List.intercalate [.fixed emptyLine] (file.declarations.map Declaration.pieces)

/-- A declaration has the identifier of its name without a prefix, and so do its uses. -/
structure Declaration.IsOwn (d : Declaration) : Prop where
  /-- The identifier is that of the name. -/
  identifier : d.identifier = d.name.ownIdentifier
  /-- The identifiers that are used are those of their names, which are single lines. -/
  uses : ∀ u ∈ d.term.uses, u.IsOwn

/-- Behind a prefix in one line the text of a declaration is that of its pieces. -/
theorem Declaration.text_respelled {front : Text} (hf : lineFeed ∉ front) {d : Declaration}
    (h : d.IsOwn) : (d.respelled (front ++ ·)).text = Piece.textUnder front d.pieces := by
  simp [respelled, text, pieces, h.identifier, Key.ownIdentifier,
    Term.text_respelled hf d.term h.uses]

namespace CodeFile

/-- The names of a file: of each declaration its own, then those that it uses. -/
def names (file : CodeFile) : List Text :=
  file.declarations.flatMap fun d => d.name.written :: d.term.uses.map (·.name.written)

/-- The names among the pieces of a file are those that it declares and uses. -/
theorem names_pieces (file : CodeFile) : Piece.names file.pieces = file.names := by
  have hdeclaration : ∀ d : Declaration,
      Piece.names d.pieces = d.name.written :: d.term.uses.map (·.name.written) := by
    intro d
    simp [Declaration.pieces, Term.names_pieces]
  simp [pieces, names, Piece.names_intercalate, List.flatMap_map, hdeclaration]

/-- Behind a prefix in one line the text of a file is that of its pieces. -/
theorem text_respelled {front : Text} (hf : lineFeed ∉ front) {file : CodeFile}
    (h : ∀ d ∈ file.declarations, d.IsOwn) :
    (file.respelled (front ++ ·)).text = Piece.textUnder front file.pieces := by
  have hdeclarations :
      (file.declarations.map (Declaration.respelled (front ++ ·))).map Declaration.text =
        (file.declarations.map Declaration.pieces).map (Piece.textUnder front) := by
    rw [List.map_map, List.map_map]
    exact List.map_congr_left fun d hd => Declaration.text_respelled hf (h d hd)
  simp only [respelled, text, pieces, hdeclarations, Piece.textUnder_fixed,
    Piece.textUnder_intercalate, Piece.textUnder_nil, List.append_nil, List.append_assoc]

end CodeFile

end ZodSchemas
