import ZodSchemas.Yaml.Timestamp

/-!
# Tags

A tag says what sort of value a node stands for. A node without a tag is a
mapping, a sequence or, for a plain scalar, what the shape of its text says.
Shapes are compared in a fixed order, and the first that fits decides; a text
that has none of them is just a text. A line feed at the end of a text does not
count for its shape.
-/

namespace ZodSchemas.Yaml

/-- What sort of value a node stands for. -/
inductive Tag where
  /-- Nothing. -/
  | null
  /-- A truth value. -/
  | bool
  /-- An integer. -/
  | int
  /-- A double-precision number. -/
  | float
  /-- Octets. -/
  | binary
  /-- A date or a moment. -/
  | timestamp
  /-- Pairs of a key and a value in order. -/
  | omap
  /-- Pairs of a key and a value. -/
  | pairs
  /-- A set. -/
  | set
  /-- A text. -/
  | str
  /-- A list. -/
  | seq
  /-- A mapping. -/
  | map
  /-- Entries that are taken from other mappings. -/
  | merge
  /-- The value that a mapping stands for where a scalar is needed. -/
  | default
  /-- Any other. -/
  | other
deriving DecidableEq

namespace Tag

/-- What the tags of the standard sorts start with. -/
def standardStart : Text := "tag:yaml.org,2002:"

/-- The names of the standard sorts. -/
def standardNames : List (Text × Tag) :=
  [("null", .null), ("bool", .bool), ("int", .int), ("float", .float), ("binary", .binary),
   ("timestamp", .timestamp), ("omap", .omap), ("pairs", .pairs), ("set", .set), ("str", .str),
   ("seq", .seq), ("map", .map), ("merge", .merge), ("value", .default)]

/-- The sort that a whole tag names. -/
def ofName (name : Text) : Tag :=
  match standardStart.isPrefixOf? name with
  | some rest => (standardNames.lookup rest).getD .other
  | none => .other

/-- The words for truth. -/
def trueWords : List Text := ["yes", "true", "on"]

/-- The words for falsehood. -/
def falseWords : List Text := ["no", "false", "off"]

/-- The first letter in upper case. -/
def capital (t : Text) : Text :=
  match t with
  | c :: rest => (CodePoint.ofNat? (c.value - 0x20)).getD c :: rest
  | [] => []

/-- A text in upper case. -/
def upper (t : Text) : Text := t.map fun c => (CodePoint.ofNat? (c.value - 0x20)).getD c

/-- A word in lower case, with a capital or in upper case. -/
def isSpelling (word t : Text) : Bool := t = word || t = capital word || t = upper word

/-- A word for truth or falsehood. -/
def isTruthWord (t : Text) : Bool := (trueWords ++ falseWords).any fun word => isSpelling word t

/-- A digit or an underscore. -/
def isGrouped (c : CodePoint) : Bool := c.isDigit || c = ('_' : CodePoint)

/-- A digit and then digits or underscores. -/
def isGroupedNumber (t : Text) : Bool :=
  match t with
  | c :: rest => c.isDigit && rest.all isGrouped
  | [] => false

/-- One digit, or two of which the first is less than six. -/
def isSixtieth (t : Text) : Bool :=
  match t with
  | [c] => c.isDigit
  | [c, d] => c.isDigit && c.value < 0x36 && d.isDigit
  | _ => false

/-- A number from 1 on, and then at least one sixtieth behind a colon. -/
def isSixties (isHead : Text → Bool) (t : Text) : Bool :=
  match t.splitOn (':' : CodePoint) with
  | first :: part :: parts => isHead first && (part :: parts).all isSixtieth
  | _ => false

/-- Digits or underscores, at least one, that satisfy a test. -/
def isRun (isMember : CodePoint → Bool) (t : Text) : Bool :=
  !t.isEmpty && t.all fun c => isMember c || c = ('_' : CodePoint)

/-- A digit less than some number. -/
def isDigitBelow (n : Nat) (c : CodePoint) : Bool := c.isDigit && c.value < 0x30 + n

/-- A number that does not start with a zero. -/
def isNatural (t : Text) : Bool := isGroupedNumber t && t.head? != some ('0' : CodePoint)

/-- The shape of an integer: binary, octal, decimal, hexadecimal or in sixties. -/
def isInteger (t : Text) : Bool :=
  let unsigned := (Reading.splitSign t).2
  isNatural unsigned || isSixties isNatural unsigned ||
    match unsigned with
    | first :: rest =>
      first = ('0' : CodePoint) &&
        (rest.isEmpty || isRun (isDigitBelow 8) rest ||
          match rest with
          | mark :: digits =>
            (mark = ('b' : CodePoint) && isRun (isDigitBelow 2) digits) ||
              (mark = ('x' : CodePoint) && isRun (fun c => c.hexDigit?.isSome) digits)
          | [] => false)
    | [] => false

/-- Nothing, or an exponent with a sign. -/
def isExponent (t : Text) : Bool :=
  match t with
  | [] => true
  | letter :: sign :: digits =>
    (letter = ('e' : CodePoint) || letter = ('E' : CodePoint)) &&
      (sign = ('+' : CodePoint) || sign = ('-' : CodePoint)) &&
      !digits.isEmpty && digits.all CodePoint.isDigit
  | _ => false

/-- The shape of a double-precision number: a decimal with a point, sixties with a point, or a word
for infinity or no number. -/
def isFloat (t : Text) : Bool :=
  let unsigned := (Reading.splitSign t).2
  let point : CodePoint := '.'
  let whole := unsigned.takeWhile (· != point)
  let behind := (unsigned.dropWhile (· != point)).drop 1
  let fraction := behind.takeWhile isGrouped
  let exponent := behind.dropWhile isGrouped
  point ∈ unsigned &&
    ((isGroupedNumber whole && isExponent exponent) ||
      (isSixties isGroupedNumber whole && exponent.isEmpty) ||
      (point ∈ t.head? && isGroupedNumber fraction && isExponent exponent) ||
      (whole.isEmpty && isSpelling "inf" behind) ||
      t ∈ ([".nan", ".NaN", ".NAN"] : List Text))

/-- A word for nothing. -/
def isNullWord (t : Text) : Bool := t.isEmpty || t = ("~" : Text) || isSpelling "null" t

/-- What a text means that is not tagged. -/
def ofShape (t : Text) : Tag :=
  if isTruthWord t then .bool
  else if isFloat t then .float
  else if isInteger t then .int
  else if t = ("<<" : Text) then .merge
  else if isNullWord t then .null
  else if WrittenDate.isPlainDate t then .timestamp
  else if t = ("=" : Text) then .default
  else if t ∈ (["!", "&", "*"] : List Text) then .other
  else .str

/-- What a plain scalar means that is not tagged. -/
def ofPlain (t : Text) : Tag :=
  let newline : Text := "\n"
  if t = newline then .str
  else if t.getLast? = newline.head? then ofShape t.dropLast
  else ofShape t

end Tag

end ZodSchemas.Yaml
