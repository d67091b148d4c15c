import ZodSchemas.Text.CodePoint

/-!
# Cursors

A cursor is a place in a text: what follows it, and how many code points, lines
and columns come before it. Lines end at a carriage return, a line feed, the
two together, the next-line control and the two Unicode separators. A byte
order mark takes no column. Past the end a cursor sees the null control, which
no text of the format holds.
-/

namespace ZodSchemas.Yaml

/-- Why a text gives no value. -/
inductive ReadError where
  /-- The text breaks a rule of the format. -/
  | malformed
  /-- An escape denotes a number that is no code point. -/
  | noCodePoint (number : Nat)
  /-- A text that is tagged as a truth value is none. -/
  | noTruthValue
  /-- A text that is tagged as a number is none. -/
  | noNumber
  /-- A text that is tagged as a number has no digits where one must stand. -/
  | noDigit
  /-- A text that is tagged as a date is none. -/
  | noDate
  /-- A part of a number in sixties counts more than a double-precision number can. -/
  | tooLarge
  /-- A date or a time of day that does not exist. -/
  | unrealDate
  /-- A mapping that is tagged as a date. -/
  | dateOfMapping
  /-- A mapping that stands for a scalar through itself. -/
  | endless
  /-- A version number has more digits than are read. -/
  | tooManyDigits (digits : Nat)
  /-- Anything else that another reader may break down with, by its sort. -/
  | other (sort : Text)
deriving DecidableEq

/-- The end of a text as a code point. -/
def endMark : CodePoint := '\x00'

/-- A code point that ends a line. -/
def isBreak (c : CodePoint) : Bool :=
  c.value = 0x0A || c.value = 0x0D || c.value = 0x85 || c.value = 0x2028 || c.value = 0x2029

/-- A space or a tab. -/
def isBlank (c : CodePoint) : Bool := c.value = 0x20 || c.value = 0x09

/-- The end of a line or of the text. -/
def endsLine (c : CodePoint) : Bool := c = endMark || isBreak c

/-- A space or the end of a line. -/
def endsWord (c : CodePoint) : Bool := c.value = 0x20 || endsLine c

/-- What may stand after an indicator: a blank or the end of a line. -/
def isSeparator (c : CodePoint) : Bool := isBlank c || endsLine c

/-- A place in a text. -/
structure Cursor where
  /-- The text that follows. -/
  rest : Text
  /-- How many code points come before. -/
  index : Nat
  /-- How many lines come before. -/
  line : Nat
  /-- How many columns of the same line come before. -/
  column : Nat

namespace Cursor

/-- The start of a text. -/
def ofText (t : Text) : Cursor := ⟨t, 0, 0, 0⟩

/-- The code point that follows. -/
def peek (c : Cursor) : CodePoint := c.rest.headD endMark

/-- The code point that follows some others. -/
def peekAt (c : Cursor) (n : Nat) : CodePoint := c.rest.getD n endMark

/-- Nothing follows. -/
def atEnd (c : Cursor) : Bool := c.rest.isEmpty

/-- Whether a code point ends a line before the rest of the text. -/
def closesLine (c : CodePoint) (rest : Text) : Bool :=
  isBreak c && !(c.value = 0x0D && (rest.headD endMark).value = 0x0A)

/-- Behind the next code point. -/
def next (c : Cursor) : Cursor :=
  match c.rest with
  | [] => c
  | d :: rest =>
    if closesLine d rest then ⟨rest, c.index + 1, c.line + 1, 0⟩
    else if d.value = 0xFEFF then ⟨rest, c.index + 1, c.line, c.column⟩
    else ⟨rest, c.index + 1, c.line, c.column + 1⟩

/-- Behind some code points. -/
def advance : Nat → Cursor → Cursor
  | 0, c => c
  | n + 1, c => advance n c.next

/-- The longest run of code points of a class and the place behind it. -/
def span (isMember : CodePoint → Bool) (c : Cursor) : Text × Cursor :=
  let run := c.rest.takeWhile isMember
  (run, c.advance run.length)

/-- Behind the code points of a class. -/
def skip (isMember : CodePoint → Bool) (c : Cursor) : Cursor := (c.span isMember).2

/-- Behind spaces. -/
def skipSpaces (c : Cursor) : Cursor := c.skip fun d => d.value = 0x20

/-- Behind spaces, as far as a column. -/
def skipSpacesTo (column : Nat) (c : Cursor) : Cursor :=
  let spaces := (c.rest.takeWhile fun d => d.value = 0x20).length
  c.advance (min spaces (column - c.column))

/-- The break that follows, as what it stands for, and the place behind it. All but the two
Unicode separators stand for a line feed. -/
def takeBreak? (c : Cursor) : Option (CodePoint × Cursor) :=
  let d := c.peek
  if isBreak d then
    if d.value = 0x2028 ∨ d.value = 0x2029 then some (d, c.next)
    else if d.value = 0x0D ∧ (c.peekAt 1).value = 0x0A then some ('\n', c.advance 2)
    else some ('\n', c.next)
  else none

/-- The break that follows, if one does, as a text. -/
def takeBreakText (c : Cursor) : Text × Cursor :=
  match c.takeBreak? with
  | some (d, after) => ([d], after)
  | none => ([], c)

/-- Whether three code points follow that stand alone. -/
def atMark (mark : CodePoint) (c : Cursor) : Bool :=
  c.peek = mark && c.peekAt 1 = mark && c.peekAt 2 = mark && isSeparator (c.peekAt 3)

/-- At the start or the end of a document. -/
def atDocumentMark (c : Cursor) : Bool := c.atMark '-' || c.atMark '.'

/-- Behind a comment, if one follows. -/
def skipComment (c : Cursor) : Cursor :=
  if c.peek = ('#' : CodePoint) then c.skip fun d => !endsLine d else c

/-- Behind the rest of a line on which only a comment may follow. -/
def finishLine (c : Cursor) : Except ReadError Cursor :=
  let c := c.skipSpaces.skipComment
  if endsLine c.peek then .ok c.takeBreakText.2 else .error .malformed

/-- The pieces that are taken off one after another until none is taken, at most `fuel` of them. -/
def piecesWithin (take : Cursor → Except ReadError (Option (Text × Cursor))) :
    Nat → Cursor → Except ReadError (Text × Cursor)
  | 0, c => .ok ([], c)
  | fuel + 1, c => do
    match ← take c with
    | none => .ok ([], c)
    | some (piece, c) =>
      let (rest, c) ← piecesWithin take fuel c
      .ok (piece ++ rest, c)

/-- The pieces that are taken off one after another until none is taken. Every piece takes a code
point at least, so their number is bounded. -/
def pieces (take : Cursor → Except ReadError (Option (Text × Cursor))) (c : Cursor) :
    Except ReadError (Text × Cursor) := piecesWithin take (c.rest.length + 1) c

end Cursor

end ZodSchemas.Yaml
