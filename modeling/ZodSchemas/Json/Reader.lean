import ZodSchemas.Value.Basic
import ZodSchemas.Decimal.Numeral

/-!
# Read JSON

A document is one value with blanks around it. Beside the standard the reader
takes `NaN`, `Infinity` and `-Infinity`; a name that comes again replaces the
value of the first. A number with a fraction or an exponent is a
double-precision number, any other an integer of at most 4300 digits. Two
escapes that are the halves of one code point are joined, other surrogates stay
alone. A refusal names the line, the column and the offset at which it stopped.
-/

namespace ZodSchemas.Json

/-- What is wrong with a text that is no JSON. -/
inductive Problem where
  | byteOrderMark | expectingValue | expectingName | expectingColon | expectingComma | extraData
  | unterminatedString | controlCharacter | badEscape | badUnicodeEscape
deriving DecidableEq

/-- Why a text was not read. -/
inductive ReadError where
  /-- The text is no JSON from some offset on; line and column count from 1. -/
  | malformed (problem : Problem) (line column offset : Nat)
  /-- An integer with more digits than are converted. -/
  | tooManyDigits (digits : Nat)
deriving DecidableEq

/-- The wording of a problem. -/
def Problem.message : Problem → Text
  | .byteOrderMark => "Unexpected UTF-8 BOM (decode using utf-8-sig)"
  | .expectingValue => "Expecting value"
  | .expectingName => "Expecting property name enclosed in double quotes"
  | .expectingColon => "Expecting ':' delimiter"
  | .expectingComma => "Expecting ',' delimiter"
  | .extraData => "Extra data"
  | .unterminatedString => "Unterminated string starting at"
  | .controlCharacter => "Invalid control character at"
  | .badEscape => "Invalid \\escape"
  | .badUnicodeEscape => "Invalid \\uXXXX escape"

/-- The wording of a refusal. -/
def ReadError.message : ReadError → Text
  | .malformed problem line column offset =>
    problem.message ++ ": line " ++ Numeral.decimal line ++ " column " ++ Numeral.decimal column ++
      " (char " ++ Numeral.decimal offset ++ ")"
  | .tooManyDigits digits =>
    ("Exceeds the limit (4300 digits) for integer string conversion: value has " : Text) ++
      Numeral.decimal digits ++
      " digits; use sys.set_int_max_str_digits() to increase the limit"

/-- Where reading stopped: what is wrong, and the text from there on. A part that is read comes
with the text after it. -/
inductive Stop where
  /-- No JSON from here on. -/
  | malformed (problem : Problem) (rest : Text)
  /-- An integer with too many digits. -/
  | tooManyDigits (digits : Nat)

/-- Space, tab, line feed and carriage return. -/
def isBlank (c : CodePoint) : Bool :=
  c.value = 0x20 || c.value = 0x09 || c.value = 0x0A || c.value = 0x0D

/-- The text without the blanks in front. -/
def skipBlanks (t : Text) : Text := t.dropWhile isBlank

/-- The code point that a letter after a backslash stands for. -/
def shortEscape? (c : CodePoint) : Option CodePoint :=
  match c.char with
  | '\"' => some '\"'
  | '\\' => some '\\'
  | '/' => some '/'
  | 'b' => some '\x08'
  | 'f' => some '\x0c'
  | 'n' => some '\n'
  | 'r' => some '\r'
  | 't' => some '\t'
  | _ => none

/-- The number that four hexadecimal digits denote. -/
def hexUnit? (a b c d : CodePoint) : Option CodePoint :=
  match a.hexDigit?, b.hexDigit?, c.hexDigit?, d.hexDigit? with
  | some a, some b, some c, some d => CodePoint.ofNat? (Numeral.valueOf 16 [a, b, c, d])
  | _, _, _, _ => none

/-- The code point that two code points are the halves of, if they are. -/
def ofHalves? (high low : CodePoint) : Option CodePoint :=
  if high.isHighSurrogate && low.isLowSurrogate then
    CodePoint.ofNat? (0x10000 + (high.value - 0xD800) * 0x400 + (low.value - 0xDC00))
  else none

/-- Join neighbouring halves of code points. -/
def joinHalves : Text → Text
  | [] => []
  | [c] => [c]
  | high :: low :: rest =>
    match ofHalves? high low with
    | some c => c :: joinHalves rest
    | none => high :: joinHalves (low :: rest)

/-- The code points of a string up to its closing quote; `opening` is the text from the opening
quote on. -/
def readUnits (opening : Text) : Text → Except Stop (Text × Text)
  | [] => .error (.malformed .unterminatedString opening)
  | c :: rest =>
    if c = ('\"' : CodePoint) then .ok ([], rest)
    else if c = ('\\' : CodePoint) then
      match rest with
      | [] => .error (.malformed .unterminatedString opening)
      | letter :: tail =>
        if letter = ('u' : CodePoint) then
          match tail with
          | h₁ :: h₂ :: h₃ :: h₄ :: next :: after =>
            match hexUnit? h₁ h₂ h₃ h₄ with
            | some unit => do
              let (units, rest) ← readUnits opening (next :: after)
              .ok (unit :: units, rest)
            | none => .error (.malformed .badUnicodeEscape (letter :: tail))
          | _ => .error (.malformed .badUnicodeEscape (letter :: tail))
        else
          match shortEscape? letter with
          | some unit => do
            let (units, rest) ← readUnits opening tail
            .ok (unit :: units, rest)
          | none => .error (.malformed .badEscape (c :: rest))
    else if c.value < 0x20 then .error (.malformed .controlCharacter (c :: rest))
    else do
      let (units, rest) ← readUnits opening rest
      .ok (c :: units, rest)
termination_by t => t.length

/-- A string whose opening quote comes first. -/
def readText (t : Text) : Except Stop (Text × Text) := do
  let (units, rest) ← readUnits t (t.drop 1)
  .ok (joinHalves units, rest)

/-- The words that are values. -/
def words : List (Text × Value) :=
  [("null", .null), ("true", .bool true), ("false", .bool false), ("NaN", .float (.nan 0)),
   ("Infinity", .float (.infinite false)), ("-Infinity", .float (.infinite true))]

/-- The fraction of a number: a point and at least one digit, or nothing. -/
def splitFraction (t : Text) : Text × Text :=
  match t with
  | point :: digit :: rest =>
    if point = ('.' : CodePoint) ∧ digit.isDigit then
      ((digit :: rest).takeWhile CodePoint.isDigit, (digit :: rest).dropWhile CodePoint.isDigit)
    else ([], t)
  | _ => ([], t)

/-- The exponent of a number: a letter, perhaps a sign, and at least one digit, or nothing. -/
def splitExponent (t : Text) : Option Int × Text :=
  match t with
  | letter :: rest =>
    if letter = ('e' : CodePoint) ∨ letter = ('E' : CodePoint) then
      let (negative, digits) := match rest with
        | sign :: tail =>
          if sign = ('-' : CodePoint) then (true, tail)
          else if sign = ('+' : CodePoint) then (false, tail)
          else (false, rest)
        | [] => (false, rest)
      match Numeral.decimal? (digits.takeWhile CodePoint.isDigit) with
      | some n => (some (if negative then -(n : Int) else n), digits.dropWhile CodePoint.isDigit)
      | none => (none, t)
    else (none, t)
  | [] => (none, t)

/-- The integer part of a number: a zero, or digits that start with another one. -/
def splitWhole (t : Text) : Text × Text :=
  match t with
  | c :: rest =>
    if c = ('0' : CodePoint) then ([c], rest)
    else (t.takeWhile CodePoint.isDigit, t.dropWhile CodePoint.isDigit)
  | [] => ([], [])

/-- A number. -/
def readNumber (t : Text) : Except Stop (Value × Text) :=
  let (negative, unsigned) := match t with
    | sign :: rest => if sign = ('-' : CodePoint) then (true, rest) else (false, t)
    | [] => (false, t)
  let (whole, afterWhole) := splitWhole unsigned
  match Numeral.decimal? whole with
  | none => .error (.malformed .expectingValue t)
  | some n =>
    let (fraction, afterFraction) := splitFraction afterWhole
    let (exponent, rest) := splitExponent afterFraction
    if fraction.isEmpty ∧ exponent.isNone then
      if whole.length > Numeral.digitLimit then .error (.tooManyDigits whole.length)
      else .ok (.int (if negative then -(n : Int) else n), rest)
    else
      let digits := (Numeral.decimal? (whole ++ fraction)).getD 0
      .ok (.float (.ofDecimal negative digits (exponent.getD 0 - fraction.length)), rest)

/-- A value without parts: a word or a number. -/
def readAtom (t : Text) : Except Stop (Value × Text) :=
  match words.findSome? fun (word, v) => (word.isPrefixOf? t).map fun rest => (v, rest) with
  | some reading => .ok reading
  | none => readNumber t

mutual

/-- A value; `fuel` bounds the number of parts that are entered. -/
def readValue : Nat → Text → Except Stop (Value × Text)
  | 0, t => .error (.malformed .expectingValue t)
  | _ + 1, [] => .error (.malformed .expectingValue [])
  | fuel + 1, c :: rest =>
    if c = ('\"' : CodePoint) then do
      let (t, rest) ← readText (c :: rest)
      .ok (.text t, rest)
    else if c = ('\x7b' : CodePoint) then
      match skipBlanks rest with
      | [] => .error (.malformed .expectingName [])
      | d :: after =>
        if d = ('\x7d' : CodePoint) then .ok (.map [], after)
        else do
          let (entries, rest) ← readEntries fuel (d :: after)
          .ok (.map (Entries.ofPairs entries), rest)
    else if c = ('[' : CodePoint) then
      match skipBlanks rest with
      | [] => .error (.malformed .expectingValue [])
      | d :: after =>
        if d = (']' : CodePoint) then .ok (.list [], after)
        else do
          let (items, rest) ← readItems fuel (d :: after)
          .ok (.list items, rest)
    else readAtom (c :: rest)

/-- The items of a list up to its closing bracket. -/
def readItems : Nat → Text → Except Stop (List Value × Text)
  | 0, t => .error (.malformed .expectingValue t)
  | fuel + 1, t => do
    let (item, rest) ← readValue fuel t
    match skipBlanks rest with
    | [] => .error (.malformed .expectingComma [])
    | c :: after =>
      if c = (']' : CodePoint) then .ok ([item], after)
      else if c = (',' : CodePoint) then do
        let (items, rest) ← readItems fuel (skipBlanks after)
        .ok (item :: items, rest)
      else .error (.malformed .expectingComma (c :: after))

/-- The entries of a mapping up to its closing brace. -/
def readEntries : Nat → Text → Except Stop (List (Key × Value) × Text)
  | 0, t => .error (.malformed .expectingName t)
  | fuel + 1, t =>
    match t with
    | [] => .error (.malformed .expectingName [])
    | quote :: _ =>
      if quote = ('\"' : CodePoint) then do
        let (name, rest) ← readText t
        match skipBlanks rest with
        | [] => .error (.malformed .expectingColon [])
        | colon :: after =>
          if colon = (':' : CodePoint) then do
            let (value, rest) ← readValue fuel (skipBlanks after)
            match skipBlanks rest with
            | [] => .error (.malformed .expectingComma [])
            | c :: after =>
              if c = ('\x7d' : CodePoint) then .ok ([(.text name, value)], after)
              else if c = (',' : CodePoint) then do
                let (entries, rest) ← readEntries fuel (skipBlanks after)
                .ok ((.text name, value) :: entries, rest)
              else .error (.malformed .expectingComma (c :: after))
          else .error (.malformed .expectingColon (colon :: after))
      else .error (.malformed .expectingName t)

end

/-- The line and column of an offset, both from 1. -/
def locate (document : Text) (offset : Nat) : Nat × Nat :=
  let lines := (document.take offset).splitOn ('\n' : CodePoint)
  (lines.length, (lines.getLast?.getD []).length + 1)

/-- A place in a document, given the text from there on. -/
def Stop.error (document : Text) : Stop → ReadError
  | .malformed problem rest =>
    let offset := document.length - rest.length
    let (line, column) := locate document offset
    .malformed problem line column offset
  | .tooManyDigits digits => .tooManyDigits digits

/-- One value with nothing but blanks around it. -/
def readDocument (t : Text) : Except Stop Value :=
  match t with
  | c :: _ =>
    if c.value = 0xFEFF then .error (.malformed .byteOrderMark t) else readWhole
  | [] => readWhole
where
  /-- A value and then the end. -/
  readWhole : Except Stop Value := do
    let (v, rest) ← readValue (t.length + 1) (skipBlanks t)
    match skipBlanks rest with
    | [] => .ok v
    | extra => .error (.malformed .extraData extra)

/-- The value that a JSON text denotes. -/
def read (t : Text) : Except ReadError Value :=
  (readDocument t).mapError (Stop.error t)

end ZodSchemas.Json
