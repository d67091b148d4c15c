import ZodSchemas.Yaml.Cursor
import ZodSchemas.Decimal.Numeral

/-!
# Scalars

A text can be written plain, between single or double quotes, or as a block of
lines. In the first three a line break inside counts as a space, and blank
lines as line feeds; blanks around breaks are dropped. A block keeps its line
breaks, or folds them where both lines start without a blank. Double quotes
have escapes, single quotes only stand for themselves when doubled.
-/

namespace ZodSchemas.Yaml

/-- What a line break with some blank lines behind it stands for. -/
def foldBreaks (first : CodePoint) (blankLines : Text) : Text :=
  if first != '\n' then first :: blankLines
  else if blankLines.isEmpty then " "
  else blankLines

/-! ### Quoted scalars -/

/-- The breaks of blank lines and the place of the next text. A line must not start a document. -/
def blankLines (c : Cursor) : Except ReadError (Text × Cursor) := do
  let (breaks, c) ← c.pieces fun c =>
    if c.atDocumentMark then .error .malformed
    else .ok ((c.skip isBlank).takeBreak?.map fun (d, after) => ([d], after))
  .ok (breaks, c.skip isBlank)

/-- The blanks and breaks between two words of a quoted scalar. -/
def quotedGap (c : Cursor) : Except ReadError (Text × Cursor) := do
  let (blanks, c) := c.span isBlank
  match c.takeBreak? with
  | some (first, c) =>
    let (breaks, c) ← blankLines c
    .ok (foldBreaks first breaks, c)
  | none => if c.atEnd then .error .malformed else .ok (blanks, c)

/-- A piece of a scalar between single quotes; the closing quote is none. -/
def singlePiece (c : Cursor) : Except ReadError (Option (Text × Cursor)) :=
  let isQuote (d : CodePoint) : Bool := d = ('\'' : CodePoint)
  if isQuote c.peek then
    .ok (if isQuote (c.peekAt 1) then some ("\'", c.advance 2) else none)
  else if isSeparator c.peek then (quotedGap c).map some
  else .ok (some (c.span fun d => !isQuote d && !isSeparator d))

/-- The code point that a letter after a backslash stands for. -/
def shortEscape? (letter : CodePoint) : Option CodePoint :=
  match letter.char with
  | '0' => some '\x00'
  | 'a' => some '\x07'
  | 'b' => some '\x08'
  | 't' => some '\t'
  | '\t' => some '\t'
  | 'n' => some '\n'
  | 'v' => some '\x0b'
  | 'f' => some '\x0c'
  | 'r' => some '\r'
  | 'e' => some '\x1b'
  | ' ' => some ' '
  | '\"' => some '\"'
  | '\\' => some '\\'
  | '/' => some '/'
  | 'N' => some '\u0085'
  | '_' => some '\u00a0'
  | 'L' => some '\u2028'
  | 'P' => some '\u2029'
  | _ => none

/-- How many hexadecimal digits follow a letter after a backslash. -/
def escapeWidth? (letter : CodePoint) : Option Nat :=
  match letter.char with
  | 'x' => some 2
  | 'u' => some 4
  | 'U' => some 8
  | _ => none

/-- The number that the next hexadecimal digits denote. -/
def hexNumber (width : Nat) (c : Cursor) : Except ReadError Nat :=
  let digits := (c.rest.take width).filterMap CodePoint.hexDigit?
  if digits.length = width then .ok (Numeral.valueOf 16 digits) else .error .malformed

/-- What the escape behind a backslash stands for. An escaped line break joins two lines. -/
def escapePiece (c : Cursor) : Except ReadError (Text × Cursor) :=
  match shortEscape? c.peek, escapeWidth? c.peek with
  | some d, _ => .ok ([d], c.next)
  | none, some width => do
    let number ← hexNumber width c.next
    match CodePoint.ofNat? number with
    | some d => .ok ([d], c.next.advance width)
    | none => .error (.noCodePoint number)
  | none, none =>
    match c.takeBreak? with
    | some (_, c) => blankLines c
    | none => .error .malformed

/-- A piece of a scalar between double quotes; the closing quote is none. -/
def doublePiece (c : Cursor) : Except ReadError (Option (Text × Cursor)) :=
  let isQuote (d : CodePoint) : Bool := d = ('\"' : CodePoint)
  let isBackslash (d : CodePoint) : Bool := d = ('\\' : CodePoint)
  if isQuote c.peek then .ok none
  else if isBackslash c.peek then (escapePiece c.next).map some
  else if isSeparator c.peek then (quotedGap c).map some
  else .ok (some (c.span fun d => !isQuote d && !isBackslash d && !isSeparator d))

/-- A quoted scalar, whose opening quote comes first. -/
def quotedScalar (double : Bool) (c : Cursor) : Except ReadError (Text × Cursor) := do
  let (t, c) ← c.next.pieces (if double then doublePiece else singlePiece)
  .ok (t, c.next)

/-! ### Plain scalars -/

/-- The end of a word of a plain scalar. Inside brackets their indicators end it too. -/
def endsPlain (inFlow : Bool) (c next : CodePoint) : Bool :=
  let isOneOf (chars : String) (d : CodePoint) : Bool := d ∈ Text.ofString chars
  isSeparator c ||
    (c = (':' : CodePoint) && (isSeparator next || (inFlow && isOneOf ",[]\x7b\x7d" next))) ||
    (inFlow && isOneOf ",?[]\x7b\x7d" c)

/-- The next word of a plain scalar. -/
def plainWord (inFlow : Bool) : Text → Text
  | [] => []
  | c :: rest => if endsPlain inFlow c (rest.headD endMark) then [] else c :: plainWord inFlow rest

/-- A plain scalar up to some place. -/
structure PlainPart where
  /-- What was read. -/
  text : Text
  /-- The place behind it and behind the blanks that follow. -/
  after : Cursor
  /-- Whether there are line breaks among those blanks. -/
  isBroken : Bool

/-- The breaks of blank lines behind a break; none when the next text starts a document. -/
def plainBreaks : Nat → Cursor → Option Text × Cursor
  | 0, c => (some [], c)
  | fuel + 1, c =>
    if c.atDocumentMark then (none, c)
    else
      match c.skipSpaces.takeBreak? with
      | none => (some [], c.skipSpaces)
      | some (d, c) =>
        let (breaks, c) := plainBreaks fuel c
        (breaks.map (d :: ·), c)

/-- The blanks and breaks behind a word of a plain scalar; no text when the scalar ends there. -/
def plainGap (c : Cursor) : PlainPart :=
  let (spaces, c) := c.span fun d => d.value = 0x20
  match c.takeBreak? with
  | none => ⟨spaces, c, false⟩
  | some (first, c) =>
    let (breaks, c) := plainBreaks (c.rest.length + 1) c
    ⟨(breaks.map (foldBreaks first)).getD [], c, true⟩

/-- A plain scalar of at most `fuel` words. Outside brackets its lines must be indented. -/
def plainWithin (inFlow : Bool) (indent : Int) : Nat → Cursor → PlainPart
  | 0, c => ⟨[], c, false⟩
  | fuel + 1, c =>
    let word := plainWord inFlow c.rest
    let gap := plainGap (c.advance word.length)
    let isLast := gap.text.isEmpty || gap.after.peek = ('#' : CodePoint) ||
      (!inFlow && (gap.after.column : Int) < indent) || (plainWord inFlow gap.after.rest).isEmpty
    if isLast then ⟨word, gap.after, gap.isBroken⟩
    else
      let others := plainWithin inFlow indent fuel gap.after
      ⟨word ++ gap.text ++ others.text, others.after, others.isBroken⟩

/-- A plain scalar. -/
def plainScalar (inFlow : Bool) (indent : Int) (c : Cursor) : PlainPart :=
  plainWithin inFlow indent (c.rest.length + 1) c

/-! ### Block scalars -/

/-- What happens to the line breaks at the end of a block. -/
inductive Chomping where
  /-- One is kept. -/
  | clip
  /-- None is kept. -/
  | strip
  /-- All are kept. -/
  | keep
deriving DecidableEq

/-- The chomping that a sign asks for. -/
def Chomping.ofSign? (c : CodePoint) : Option Chomping :=
  if c = ('+' : CodePoint) then some .keep
  else if c = ('-' : CodePoint) then some .strip
  else none

/-- A sign, if one follows. -/
def takeChomping (c : Cursor) : Option Chomping × Cursor :=
  match Chomping.ofSign? c.peek with
  | some chomping => (some chomping, c.next)
  | none => (none, c)

/-- A digit other than zero, if a digit follows. -/
def takeIncrement (c : Cursor) : Except ReadError (Option Nat × Cursor) :=
  if c.peek.isDigit then
    if c.peek.value = 0x30 then .error .malformed
    else .ok (some (c.peek.value - 0x30), c.next)
  else .ok (none, c)

/-- The header of a block: a sign and a digit, each optional, in either order. -/
def blockHeader (c : Cursor) : Except ReadError (Chomping × Option Nat × Cursor) := do
  let (first, c) := takeChomping c
  let (increment, c) ← takeIncrement c
  let (second, c) := if first.isNone ∧ increment.isSome then takeChomping c else (none, c)
  let chomping := ((first.or second).getD .clip)
  if endsWord c.peek then .ok (chomping, increment, c) else .error .malformed

/-- The breaks of the blank lines in front of a block, and the widest indentation among them and
the first text. -/
def blockLead : Nat → Cursor → Text × Nat × Cursor
  | 0, c => ([], 0, c)
  | fuel + 1, c =>
    let c := c.skipSpaces
    match c.takeBreak? with
    | none => ([], c.column, c)
    | some (d, after) =>
      let (breaks, widest, after) := blockLead fuel after
      (d :: breaks, max c.column widest, after)

/-- The breaks of blank lines inside a block with some indentation. -/
def blockBreaks (indent : Nat) : Nat → Cursor → Text × Cursor
  | 0, c => ([], c)
  | fuel + 1, c =>
    let c := c.skipSpacesTo indent
    match c.takeBreak? with
    | none => ([], c)
    | some (d, c) =>
      let (breaks, c) := blockBreaks indent fuel c
      (d :: breaks, c)

/-- The lines of a block. -/
structure BlockPart where
  /-- The text up to the last line. -/
  text : Text
  /-- The break behind the last line. -/
  lastBreak : Text
  /-- The breaks of the blank lines behind it. -/
  blankLines : Text
  /-- The place behind the block. -/
  after : Cursor

/-- The lines of a block, behind the breaks of some blank lines. -/
def blockLines (folded : Bool) (indent : Nat) : Nat → Text → Cursor → BlockPart
  | 0, breaks, c => ⟨[], [], breaks, c⟩
  | fuel + 1, breaks, c =>
    if c.column = indent ∧ ¬ c.atEnd then
      let startsBlank := isBlank c.peek
      let (line, c) := c.span fun d => !endsLine d
      let (lineBreak, c) := c.takeBreakText
      let (blankLines, c) := blockBreaks indent (c.rest.length + 1) c
      if c.column = indent ∧ ¬ c.atEnd then
        let isFolded := folded && lineBreak = ("\n" : Text) && !startsBlank && !isBlank c.peek
        let joint : Text :=
          if isFolded then (if blankLines.isEmpty then " " else []) else lineBreak
        let others := blockLines folded indent fuel blankLines c
        { others with text := breaks ++ line ++ joint ++ others.text }
      else ⟨breaks ++ line, lineBreak, blankLines, c⟩
    else ⟨[], [], breaks, c⟩

/-- A block scalar, whose indicator comes first, inside a block with some indentation. -/
def blockScalar (folded : Bool) (outer : Int) (c : Cursor) : Except ReadError (Text × Cursor) := do
  let (chomping, increment, c) ← blockHeader c.next
  let c ← c.finishLine
  let least := (outer + 1).toNat.max 1
  let fuel := c.rest.length + 1
  let (indent, breaks, c) := match increment with
    | some n =>
      let indent := least + n - 1
      let (breaks, c) := blockBreaks indent fuel c
      (indent, breaks, c)
    | none =>
      let (breaks, widest, c) := blockLead fuel c
      (max least widest, breaks, c)
  let lines := blockLines folded indent fuel breaks c
  let tail := match chomping with
    | .clip => lines.lastBreak
    | .strip => []
    | .keep => lines.lastBreak ++ lines.blankLines
  .ok (lines.text ++ tail, lines.after)

end ZodSchemas.Yaml
