import ZodSchemas.Value.Entries
import ZodSchemas.Text.Lines

/-!
# Terms

The code of a validator is a tree. Its leaves are calls without parts and uses
of declarations; a use is the identifier of a declaration that stands above, or
defers to one that does not. Text comes of a term in one place only, so what is
said about the uses of a term is said about the code that is written.
-/

namespace ZodSchemas

/-- The use of a declaration. -/
structure Use where
  /-- The name that is declared. -/
  name : Key
  /-- The identifier of its declaration. -/
  identifier : Text
  /-- Whether the identifier is evaluated later than the declaration that it is used in. -/
  isDeferred : Bool

/-- The code of a validator. -/
inductive Term where
  /-- A call without parts. -/
  | call (text : Text)
  /-- The use of a declaration. -/
  | use (use : Use)
  /-- An object with the written names of its properties. -/
  | object (properties : List (Text × Term))
  /-- An array of one element. -/
  | array (element : Term)
  /-- A union of options. -/
  | union (options : List Term)
  /-- A union of options that the property of a written key tells apart. -/
  | discriminated (key : Text) (options : List Term)
  /-- The inner term, or null. -/
  | nullable (inner : Term)
  /-- The inner term, or nothing at all. -/
  | optional (inner : Term)

/-- The code of a use. -/
def Use.text (u : Use) : Text :=
  if u.isDeferred then ("z.lazy(() => " : Text) ++ u.identifier ++ ")" else u.identifier

namespace Term

/-- The code of options, in brackets. -/
def bracketed (options : List Text) : Text :=
  ("[" : Text) ++ List.intercalate ", " options ++ "]"

/-- The code of an object with some written properties, each on lines of its own. -/
def objectText (properties : List Text) : Text :=
  if properties.isEmpty then "z.object(\x7b\x7d)"
  else ("z.object(\x7b\n" : Text) ++ Lines.indent 1 (List.intercalate ",\n" properties) ++
    "\n\x7d)"

mutual

/-- The text of a term. -/
def text : Term → Text
  | .call t => t
  | .use u => u.text
  | .object properties => objectText (propertyTexts properties)
  | .array element => ("z.array(" : Text) ++ element.text ++ ")"
  | .union options => ("z.union(" : Text) ++ bracketed (optionTexts options) ++ ")"
  | .discriminated key options =>
    ("z.discriminatedUnion(" : Text) ++ key ++ ", " ++ bracketed (optionTexts options) ++ ")"
  | .nullable inner => inner.text ++ ".nullable()"
  | .optional inner => inner.text ++ ".optional()"

/-- The texts of properties: each a name, a colon and a term. -/
def propertyTexts : List (Text × Term) → List Text
  | [] => []
  | (name, value) :: rest => (name ++ ": " ++ value.text) :: propertyTexts rest

/-- The texts of options. -/
def optionTexts : List Term → List Text
  | [] => []
  | option :: rest => option.text :: optionTexts rest

end

mutual

/-- The uses of declarations in a term, from left to right. -/
def uses : Term → List Use
  | .call _ => []
  | .use u => [u]
  | .object properties => propertyUses properties
  | .array element => element.uses
  | .union options => optionUses options
  | .discriminated _ options => optionUses options
  | .nullable inner => inner.uses
  | .optional inner => inner.uses

/-- The uses in properties. -/
def propertyUses : List (Text × Term) → List Use
  | [] => []
  | (_, value) :: rest => value.uses ++ propertyUses rest

/-- The uses in options. -/
def optionUses : List Term → List Use
  | [] => []
  | option :: rest => option.uses ++ optionUses rest

end

end Term

end ZodSchemas
