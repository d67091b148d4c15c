import ZodSchemas.Proofs.Declaration.Outline

/-!
# Expressions read back

An expression is a call or an identifier with further calls behind it. A call
tells by its name what its arguments are; options and properties end at the
marks between them once each is read to its end, and the lines of an object
lose their indentation before they are read. The key that tells options apart
is skipped, since the options themselves have it. One lemma for each kind of
expression says what the reader makes of it when its parts are read.
-/

namespace ZodSchemas

namespace Reader

/-- The functions that make validators. -/
inductive Callee where
  | deferred | object | array | union | discriminated | string | number | boolean | enum | literal
  | never | unknown

namespace Callee

/-- The code of a call up to its arguments, if it has any. -/
def text : Callee → Text
  | .deferred => "lazy(() => "
  | .object => "object(\x7b"
  | .array => "array("
  | .union => "union(["
  | .discriminated => "discriminatedUnion("
  | .string => "string()"
  | .number => "number()"
  | .boolean => "boolean()"
  | .enum => "enum("
  | .literal => "literal("
  | .never => "never()"
  | .unknown => "unknown()"

/-- The call that comes first, and the text behind it. -/
def read (t : Text) : Option (Callee × Text) :=
  [deferred, object, array, union, discriminated, string, number, boolean, enum, literal, never,
    unknown].findSome? fun c => (after c.text t).map (c, ·)

/-- A written call is read back. -/
theorem read_text (c : Callee) (rest : Text) : read (c.text ++ rest) = some (c, rest) := by
  cases c <;> rfl

end Callee

/-- The text behind the key that tells options apart. -/
def skipTag (t : Text) : Text :=
  if t.head? = some ('\"' : CodePoint) then
    match Json.readText t with
    | .ok (_, rest) => rest
    | .error _ => t
  else t.dropWhile fun c => c ≠ (',' : CodePoint)

/-- Written keys that are no texts have neither commas nor quotes in them. -/
theorem ne_of_mem_writeKey {key : Key} {t : Text} (h : Json.writeKey key = .ok t)
    (hk : ∀ s, key ≠ .text s) : ∀ c ∈ t, c ≠ (',' : CodePoint) ∧ c ≠ ('\"' : CodePoint) := by
  have numeric : ∀ c : CodePoint, c.IsNumeric → c ≠ (',' : CodePoint) ∧ c ≠ ('\"' : CodePoint) := by
    rintro c hc
    refine ⟨?_, ?_⟩ <;>
    · rintro rfl
      exact absurd hc (by decide)
  cases key with
  | null =>
    obtain rfl := Except.ok.inj h
    decide
  | bool b =>
    obtain rfl := Except.ok.inj h
    cases b <;> decide
  | int n =>
    obtain ⟨-, rfl⟩ := Json.writeInteger_eq_ok.mp h
    exact fun c hc => numeric c (Numeral.isNumeric_integer n c hc)
  | float x =>
    obtain rfl := Except.ok.inj h
    exact Shortest.forall_mem_write numeric (by decide) (by decide) x
  | text s => exact absurd rfl (hk s)
  | _ => simp [Json.writeKey] at h

/-- A written key is skipped, whatever it is. -/
theorem skipTag_writeKey {key : Key} {t : Text} (h : Json.writeKey key = .ok t) (rest : Text) :
    skipTag (t ++ (", " ++ rest)) = ", " ++ rest := by
  by_cases hk : ∃ s, key = .text s
  · obtain ⟨s, rfl⟩ := hk
    obtain rfl := Except.ok.inj h
    have hquote : (Json.writeText s ++ (", " ++ rest)).head? = some ('\"' : CodePoint) := by
      rw [Json.writeText_append]
      rfl
    rw [skipTag, if_pos hquote, Json.readText_writeText_append]
  · have hne := ne_of_mem_writeKey h fun s hs => hk ⟨s, hs⟩
    have hquote : (t ++ (", " ++ rest)).head? ≠ some ('\"' : CodePoint) := by
      cases t with
      | nil => 
        change some (',' : CodePoint) ≠ _
        decide
      | cons c t =>
        intro hc
        exact (hne c (by simp)).2 (Option.some.inj hc)
    rw [skipTag, if_neg hquote]
    refine Text.dropWhile_front (fun c hc => by simpa using (hne c hc).1) fun c hc => ?_
    obtain rfl := Option.some.inj hc
    decide

mutual

/-- An expression, where identifiers have a prefix of a width; `fuel` bounds the number of parts
that are entered. -/
def readTerm (width : Nat) : Nat → Text → Option (Node × Text)
  | 0, _ => none
  | fuel + 1, t =>
    match after "z." t with
    | none => do
      let (name, rest) ← readName width t
      some (readSuffixes (.lazy ⟨.text name, 0⟩) rest)
    | some rest => do
      let (callee, rest) ← Callee.read rest
      let (node, rest) ← readArguments width fuel callee rest
      some (readSuffixes node rest)

/-- The arguments of a call, up to its end. -/
def readArguments (width : Nat) : Nat → Callee → Text → Option (Node × Text)
  | 0, _, _ => none
  | _ + 1, .deferred, t => do
    let (name, rest) ← readName width t
    (after ")" rest).map (.lazy ⟨.text name, 0⟩, ·)
  | fuel + 1, .object, t =>
    match after "\x7d)" t with
    | some rest => some (.object [] [], rest)
    | none => do
      let (lines, rest) ← readBlock t
      let properties ← readProperties width fuel (lines.drop 1)
      (after ")" rest).map (.object properties [], ·)
  | fuel + 1, .array, t => do
    let (element, rest) ← readTerm width fuel t
    (after ")" rest).map (.array element, ·)
  | fuel + 1, .union, t => do
    let (options, rest) ← readOptions width fuel t
    (after ")" rest).map (.union options, ·)
  | fuel + 1, .discriminated, t => do
    let rest ← after ", [" (skipTag t)
    let (options, rest) ← readOptions width fuel rest
    (after ")" rest).map (.union options, ·)
  | _ + 1, .enum, t => do
    let (v, rest) ← readArgument t
    match v with
    | .list values => some (.enum values, rest)
    | _ => none
  | _ + 1, .literal, t => do
    let (v, rest) ← readArgument t
    some (.literal v, rest)
  | _ + 1, .string, t => some (.string [], t)
  | _ + 1, .number, t => some (.number, t)
  | _ + 1, .boolean, t => some (.boolean, t)
  | _ + 1, .never, t => some (.never, t)
  | _ + 1, .unknown, t => some (.unknown, t)

/-- Options up to the closing bracket. -/
def readOptions (width : Nat) : Nat → Text → Option (List Node × Text)
  | 0, _ => none
  | fuel + 1, t =>
    match readTerm width fuel t with
    | none => (after "]" t).map ([], ·)
    | some (option, rest) =>
      match after ", " rest with
      | none => (after "]" rest).map ([option], ·)
      | some more => do
        let (others, rest) ← readOptions width fuel more
        some (option :: others, rest)

/-- Properties up to the end. -/
def readProperties (width : Nat) : Nat → Text → Option (List (Key × Node))
  | 0, _ => none
  | fuel + 1, t => do
    let (key, rest) ← readKey t
    let (node, rest) ← readTerm width fuel rest
    match after ",\n" rest with
    | none => if rest.isEmpty then some [(.text key, node)] else none
    | some more => do
      let others ← readProperties width fuel more
      some ((.text key, node) :: others)

end

variable {width fuel : Nat} {node : Node} {t more rest : Text}

/-- A call is read and then the calls behind it. -/
theorem readTerm_call (callee : Callee) (arguments : Text)
    (hf : ("z." ++ (callee.text ++ arguments)).length < fuel)
    (h : ∀ f, arguments.length < f →
      readArguments width (f + 1) callee (arguments ++ rest) = some (node, more)) :
    readTerm width fuel ("z." ++ (callee.text ++ arguments) ++ rest) =
      some (readSuffixes node more) := by
  have hz : ("z." : Text).length = 2 := rfl
  simp only [List.length_append, hz] at hf
  obtain ⟨f, rfl⟩ : ∃ f, fuel = f + 2 := ⟨fuel - 2, by omega⟩
  rw [List.append_assoc, List.append_assoc, readTerm, after_append]
  simp only [Callee.read_text, h f (by omega), Option.bind_eq_bind, Option.bind_some]

/-- No options are read up to the closing bracket. -/
theorem readOptions_nil : readOptions width (fuel + 1) ("]" ++ rest) = some ([], rest) := by
  cases fuel <;> rfl

/-- The last option is read up to the closing bracket. -/
theorem readOptions_last (h : readTerm width fuel t = some (node, "]" ++ rest)) :
    readOptions width (fuel + 1) t = some ([node], rest) := by
  have hnone : after ", " ("]" ++ rest) = none := rfl
  rw [readOptions, h]
  simp only [hnone, after_append, Option.map_some]

/-- Any other option is read up to a comma, and then the options behind it. -/
theorem readOptions_next {others : List Node}
    (h : readTerm width fuel t = some (node, ", " ++ more))
    (ho : readOptions width fuel more = some (others, rest)) :
    readOptions width (fuel + 1) t = some (node :: others, rest) := by
  rw [readOptions, h]
  simp only [after_append, ho, Option.bind_eq_bind, Option.bind_some]

/-- The last property is read up to the end. -/
theorem readProperties_last {key : Text} (hk : key.IsJoined)
    (h : readTerm width fuel t = some (node, [])) :
    readProperties width (fuel + 1) (PropertyName.writeText key ++ (": " ++ t)) =
      some [(.text key, node)] := by
  have hnone : after ",\n" [] = none := rfl
  rw [readProperties, readKey_writeText hk]
  simp only [h, hnone, Option.bind_eq_bind, Option.bind_some, List.isEmpty_nil, if_true]

/-- Any other property is read up to the end of its line, and then the properties behind it. -/
theorem readProperties_next {key : Text} {others : List (Key × Node)} (hk : key.IsJoined)
    (h : readTerm width fuel t = some (node, ",\n" ++ more))
    (ho : readProperties width fuel more = some others) :
    readProperties width (fuel + 1) (PropertyName.writeText key ++ (": " ++ t)) =
      some ((.text key, node) :: others) := by
  rw [readProperties, readKey_writeText hk]
  simp only [h, after_append, ho, Option.bind_eq_bind, Option.bind_some]

/-- An object with properties is a call with their lines between braces. -/
theorem objectText_eq {texts : List Text} (h : texts ≠ []) :
    Term.objectText texts = "z." ++ (Callee.object.text ++
      ("\n" ++ Lines.indent 1 (List.intercalate ",\n" texts) ++ "\n\x7d)")) := by
  rw [Term.objectText, if_neg (by simpa using h)]
  simp only [List.append_assoc]
  rfl

end Reader

end ZodSchemas
