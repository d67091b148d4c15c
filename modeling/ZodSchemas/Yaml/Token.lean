import ZodSchemas.Yaml.Scalar
import ZodSchemas.Text.Utf8

/-!
# Tokens

A text is cut into tokens. Indentation shows as tokens that open and close
blocks. A key in front of a colon is recognised only when the colon is met: the
places where such a key may have started are kept, one for each depth of
brackets, and the tokens that announce it are put in there. A text that breaks
a rule gives the tokens up to there and a fault at their end; where a key may
still have started it is open which tokens come next, so the fault follows in
their place.
-/

namespace ZodSchemas.Yaml

/-- A line that starts with a percent sign. -/
inductive Directive where
  /-- The version of the format, by its major number. -/
  | version (major : Nat)
  /-- A handle for the start of tags. -/
  | handle (handle start : Text)
  /-- Any other. -/
  | other

/-- A tag as it is written. -/
structure WrittenTag where
  /-- The handle in front, if there is one. -/
  handle : Option Text
  /-- What follows the handle. -/
  suffix : Text

/-- The smallest parts of a text that mean something. -/
inductive Token where
  /-- A directive. -/
  | directive (directive : Directive)
  /-- Three hyphens. -/
  | documentStart
  /-- Three points. -/
  | documentEnd
  /-- An indentation whose items follow hyphens. -/
  | sequenceBlock
  /-- An indentation whose items are keys and values. -/
  | mappingBlock
  /-- The end of an indentation. -/
  | blockEnd
  /-- A square bracket that opens. -/
  | sequenceStart
  /-- A square bracket that closes. -/
  | sequenceEnd
  /-- A curly bracket that opens. -/
  | mappingStart
  /-- A curly bracket that closes. -/
  | mappingEnd
  /-- A hyphen in front of an item. -/
  | entry
  /-- A comma. -/
  | comma
  /-- A key follows. -/
  | key
  /-- A value follows. -/
  | value
  /-- A node that stands elsewhere. -/
  | alias (name : Text)
  /-- A name for the node that follows. -/
  | anchor (name : Text)
  /-- A tag of the node that follows. -/
  | tag (tag : WrittenTag)
  /-- A scalar. -/
  | scalar (text : Text) (isPlain : Bool)
  /-- The text breaks a rule here. -/
  | fault (error : ReadError)

/-- A letter, a digit, a hyphen or an underscore. -/
def isNameChar (c : CodePoint) : Bool :=
  c.isLetter || c.isDigit || c = ('-' : CodePoint) || c = ('_' : CodePoint)

/-- What may stand behind the name of an anchor or an alias. -/
def endsAnchor (c : CodePoint) : Bool := isSeparator c || c ∈ Text.ofString "?:,]\x7d%@\x60"

/-- The name of an anchor or an alias. -/
def anchorName (c : Cursor) : Except ReadError (Text × Cursor) :=
  let (name, c) := c.span isNameChar
  if name.isEmpty || !endsAnchor c.peek then .error .malformed else .ok (name, c)

/-! ### Tags and directives -/

/-- The octets that follow, each as a percent sign and two hexadecimal digits. -/
def escapedOctets : Nat → Cursor → Except ReadError (List UInt8 × Cursor)
  | 0, c => .ok ([], c)
  | fuel + 1, c =>
    if c.peek = ('%' : CodePoint) then do
      let octet ← hexNumber 2 c.next
      let (others, c) ← escapedOctets fuel (c.advance 3)
      .ok (octet.toUInt8 :: others, c)
    else .ok ([], c)

/-- A part of a tag; percent signs introduce octets. -/
def tagPiece (c : Cursor) : Except ReadError (Option (Text × Cursor)) :=
  let isPlain (d : CodePoint) : Bool :=
    d.isLetter || d.isDigit || d ∈ Text.ofString "-;/?:@&=+$,_.!~*\'()[]"
  if c.peek = ('%' : CodePoint) then do
    let (octets, c) ← escapedOctets (c.rest.length + 1) c
    match Utf8.decode octets with
    | .ok t => .ok (some (t, c))
    | .error _ => .error .malformed
  else if isPlain c.peek then .ok (some (c.span isPlain))
  else .ok none

/-- The text of a tag behind its handle; something must stand there. -/
def tagText (c : Cursor) : Except ReadError (Text × Cursor) := do
  match ← tagPiece c with
  | none => .error .malformed
  | some _ => c.pieces tagPiece

/-- A handle: an exclamation mark, or a name between two of them. -/
def tagHandle (c : Cursor) : Except ReadError (Text × Cursor) :=
  let isMark (d : CodePoint) : Bool := d = ('!' : CodePoint)
  if !isMark c.peek then .error .malformed
  else if (c.peekAt 1).value = 0x20 then .ok ("!", c.next)
  else
    let (name, after) := c.next.span isNameChar
    if isMark after.peek then .ok (("!" : Text) ++ name ++ "!", after.next) else .error .malformed

/-- A tag in front of a node. -/
def writtenTag (c : Cursor) : Except ReadError (WrittenTag × Cursor) := do
  let (tag, c) ←
    if c.peekAt 1 = ('<' : CodePoint) then do
      let (t, c) ← tagText (c.advance 2)
      if c.peek = ('>' : CodePoint) then .ok ((⟨none, t⟩, c.next) : WrittenTag × Cursor)
      else .error .malformed
    else if isSeparator (c.peekAt 1) then .ok (⟨none, "!"⟩, c.next)
    else do
      let word := c.next.rest.takeWhile fun d => !endsWord d
      let (handle, c) ←
        if ('!' : CodePoint) ∈ word then tagHandle c else .ok (("!" : Text), c.next)
      let (t, c) ← tagText c
      .ok (⟨some handle, t⟩, c)
  if endsWord c.peek then .ok (tag, c) else .error .malformed

/-- A number in the version of the format. -/
def versionNumber (c : Cursor) : Except ReadError (Nat × Cursor) :=
  let (digits, c) := c.span CodePoint.isDigit
  if Numeral.digitLimit < digits.length then .error (.tooManyDigits digits.length)
  else
    match Numeral.decimal? digits with
    | some n => .ok (n, c)
    | none => .error .malformed

/-- The version that a directive demands. -/
def versionDirective (c : Cursor) : Except ReadError (Directive × Cursor) := do
  let (major, c) ← versionNumber c.skipSpaces
  if c.peek = ('.' : CodePoint) then
    let (_, c) ← versionNumber c.next
    if endsWord c.peek then .ok (.version major, c) else .error .malformed
  else .error .malformed

/-- The handle that a directive introduces. -/
def handleDirective (c : Cursor) : Except ReadError (Directive × Cursor) := do
  let (handle, c) ← tagHandle c.skipSpaces
  if c.peek.value = 0x20 then
    let (start, c) ← tagText c.skipSpaces
    if endsWord c.peek then .ok (.handle handle start, c) else .error .malformed
  else .error .malformed

/-- A directive, whose percent sign comes first, and the rest of its line. -/
def directiveLine (c : Cursor) : Except ReadError (Directive × Cursor) := do
  let (name, c) := c.next.span isNameChar
  if name.isEmpty || !endsWord c.peek then .error .malformed
  else
    let (directive, c) ←
      if name = ("YAML" : Text) then versionDirective c
      else if name = ("TAG" : Text) then handleDirective c
      else .ok (.other, c.skip fun d => !endsLine d)
    let c ← c.finishLine
    .ok (directive, c)

/-! ### Cutting -/

/-- A place where a key may have started. -/
structure KeyStart where
  /-- How many tokens come before. -/
  number : Nat
  /-- Whether a key must start there, since the line is indented like the keys around. -/
  isRequired : Bool
  /-- The place. -/
  place : Cursor

/-- Too far away from a place behind: a key is on one line and within 1024 code points. -/
def KeyStart.isFar (start : KeyStart) (c : Cursor) : Bool :=
  start.place.line != c.line || c.index - start.place.index > 1024

/-- Tokens in the making. -/
structure Lexer where
  /-- The text that is left. -/
  cursor : Cursor
  /-- The tokens so far, the last one first. -/
  tokens : List Token
  /-- How many there are. -/
  count : Nat
  /-- How many brackets are open. -/
  flow : Nat
  /-- The column of the innermost block, -1 outside of blocks. -/
  indent : Int
  /-- The columns of the blocks around it. -/
  outer : List Int
  /-- Whether a key may start here. -/
  allowsKey : Bool
  /-- The places where a key may have started, by the depth of brackets. -/
  keyStarts : List (Nat × KeyStart)

namespace Lexer

/-- The start of a text. -/
def ofText (t : Text) : Lexer := ⟨.ofText t, [], 0, 0, -1, [], true, []⟩

/-- Add a token. -/
def put (s : Lexer) (token : Token) : Lexer :=
  { s with tokens := token :: s.tokens, count := s.count + 1 }

/-- Put a token behind the first `number` tokens. -/
def putAt (s : Lexer) (number : Nat) (token : Token) : Lexer :=
  { s with tokens := s.tokens.insertIdx (s.count - number) token, count := s.count + 1 }

/-- Go to a place. -/
def goTo (s : Lexer) (cursor : Cursor) : Lexer := { s with cursor := cursor }

/-- Say whether a key may start here. -/
def allowKey (s : Lexer) (allowed : Bool) : Lexer := { s with allowsKey := allowed }

/-- Add a token of some code points. -/
def take (s : Lexer) (width : Nat) (token : Token) : Lexer :=
  (s.put token).goTo (s.cursor.advance width)

/-- Close blocks as long as they are indented more than a column. -/
def closeBlocks (column : Int) : List Int → Lexer → Lexer
  | [], s => s
  | next :: others, s =>
    if s.indent > column then
      closeBlocks column others ({ s with indent := next, outer := others }.put .blockEnd)
    else s

/-- Close the blocks that end in front of a column; inside brackets there are none. -/
def unwind (s : Lexer) (column : Int) : Lexer :=
  if s.flow = 0 then closeBlocks column s.outer s else s

/-- Open a block at a column, unless it is that of the innermost block. -/
def openBlock (s : Lexer) (column number : Nat) (token : Token) : Lexer :=
  if s.flow = 0 ∧ s.indent < column then
    { s with indent := column, outer := s.indent :: s.outer }.putAt number token
  else s

/-- The place where a key may have started at this depth of brackets. -/
def keyStart? (s : Lexer) : Option KeyStart := s.keyStarts.lookup s.flow

/-- Forget that place. -/
def forgetKeyStart (s : Lexer) : Lexer :=
  { s with keyStarts := s.keyStarts.filter fun e => e.1 != s.flow }

/-- Give that place up; a key must not be required there. -/
def dropKeyStart (s : Lexer) : Except ReadError Lexer :=
  match s.keyStart? with
  | some start => if start.isRequired then .error .malformed else .ok s.forgetKeyStart
  | none => .ok s

/-- Give up the places that are too far away. -/
def dropFarKeyStarts (s : Lexer) : Except ReadError Lexer :=
  if s.keyStarts.any fun e => e.2.isFar s.cursor && e.2.isRequired then .error .malformed
  else .ok { s with keyStarts := s.keyStarts.filter fun e => !e.2.isFar s.cursor }

/-- Keep this place if a key may start here. -/
def saveKeyStart (s : Lexer) : Except ReadError Lexer :=
  if s.allowsKey then do
    let isRequired := s.flow = 0 && s.indent = s.cursor.column
    let s ← s.dropKeyStart
    .ok { s with keyStarts := (s.flow, ⟨s.count, isRequired, s.cursor⟩) :: s.keyStarts }
  else .ok s

/-- Behind blanks, breaks and comments; a key may start on a new line. -/
def skipGap : Nat → Lexer → Lexer
  | 0, s => s
  | fuel + 1, s =>
    let c := s.cursor.skipSpaces.skipComment
    match c.takeBreak? with
    | none => s.goTo c
    | some (_, c) => skipGap fuel ((s.goTo c).allowKey (s.allowsKey || s.flow = 0))

/-- To the next token. -/
def toNext (s : Lexer) : Lexer :=
  let c := s.cursor
  let s := if c.index = 0 ∧ c.peek.value = 0xFEFF then s.goTo c.next else s
  skipGap (c.rest.length + 1) s

/-- A token that starts or ends a document, or a directive: blocks and keys end in front of it. -/
def endBlocks (s : Lexer) : Except ReadError Lexer := do
  let s ← (s.unwind (-1)).dropKeyStart
  .ok (s.allowKey false)

/-- A bracket that opens. -/
def openBracket (s : Lexer) (token : Token) : Except ReadError Lexer := do
  let s ← s.saveKeyStart
  .ok ({ s with flow := s.flow + 1 }.allowKey true |>.take 1 token)

/-- A bracket that closes; one must be open. -/
def closeBracket (s : Lexer) (token : Token) : Except ReadError Lexer := do
  let s ← s.dropKeyStart
  match s.flow with
  | 0 => .error .malformed
  | flow + 1 => .ok ({ s with flow := flow }.allowKey false |>.take 1 token)

/-- A comma. -/
def takeComma (s : Lexer) : Except ReadError Lexer := do
  let s ← (s.allowKey true).dropKeyStart
  .ok (s.take 1 .comma)

/-- An indicator that starts an item of a block: a key must be allowed in its place. -/
def takeIndicator (s : Lexer) (block token : Token) (allowed : Bool) :
    Except ReadError Lexer := do
  if s.flow = 0 ∧ !s.allowsKey then .error .malformed
  else
    let s ← ((s.openBlock s.cursor.column s.count block).allowKey allowed).dropKeyStart
    .ok (s.take 1 token)

/-- A colon. Where a key may have started it is announced now. -/
def takeColon (s : Lexer) : Except ReadError Lexer :=
  match s.keyStart? with
  | some start =>
    let s := (s.forgetKeyStart.putAt start.number .key).openBlock start.place.column start.number
      .mappingBlock
    .ok ((s.allowKey false).take 1 .value)
  | none => s.takeIndicator .mappingBlock .value (s.flow = 0)

/-- A token that a key may start with. -/
def takeKeyPart (s : Lexer) (part : Cursor → Except ReadError (Token × Cursor)) :
    Except ReadError Lexer := do
  let s ← s.saveKeyStart
  let (token, c) ← part s.cursor
  .ok (((s.allowKey false).put token).goTo c)

/-- A plain scalar. A key may start behind it when it ends with a line. -/
def takePlain (s : Lexer) : Except ReadError Lexer := do
  let s ← s.saveKeyStart
  let part := plainScalar (s.flow != 0) (s.indent + 1) s.cursor
  .ok (((s.allowKey part.isBroken).put (.scalar part.text true)).goTo part.after)

/-- A block scalar. -/
def takeBlock (s : Lexer) (folded : Bool) : Except ReadError Lexer := do
  let s ← (s.allowKey true).dropKeyStart
  let (t, c) ← blockScalar folded s.indent s.cursor
  .ok ((s.put (.scalar t false)).goTo c)

/-- A name behind an indicator. -/
def named (token : Text → Token) (c : Cursor) : Except ReadError (Token × Cursor) := do
  let (name, c) ← anchorName c.next
  .ok (token name, c)

/-- A code point that a plain scalar may start with. -/
def startsPlain (s : Lexer) : Bool :=
  let c := s.cursor.peek
  let indicators := Text.ofString "-?:,[]\x7b\x7d#&*!|>\'\"%@\x60"
  let isOneOf (chars : String) : Bool := c ∈ Text.ofString chars
  !(isSeparator c || indicators.contains c) ||
    (!isSeparator (s.cursor.peekAt 1) && (isOneOf "-" || (s.flow = 0 && isOneOf "?:")))

/-- The token at this place, which is not the end. -/
def takeToken (s : Lexer) : Except ReadError Lexer :=
  let c := s.cursor
  let standsAlone := isSeparator (c.peekAt 1)
  let inFlow := s.flow != 0
  match c.peek.char with
  | '[' => s.openBracket .sequenceStart
  | '\x7b' => s.openBracket .mappingStart
  | ']' => s.closeBracket .sequenceEnd
  | '\x7d' => s.closeBracket .mappingEnd
  | ',' => s.takeComma
  | '*' => s.takeKeyPart (named .alias)
  | '&' => s.takeKeyPart (named .anchor)
  | '!' => s.takeKeyPart fun c => (writtenTag c).map fun (t, c) => (.tag t, c)
  | '\'' => s.takeKeyPart fun c => (quotedScalar false c).map fun (t, c) => (.scalar t false, c)
  | '\"' => s.takeKeyPart fun c => (quotedScalar true c).map fun (t, c) => (.scalar t false, c)
  | d =>
    if d = '-' ∧ standsAlone then s.takeIndicator .sequenceBlock .entry true
    else if d = '?' ∧ (inFlow ∨ standsAlone) then s.takeIndicator .mappingBlock .key (!inFlow)
    else if d = ':' ∧ (inFlow ∨ standsAlone) then s.takeColon
    else if d = '|' ∧ !inFlow then s.takeBlock false
    else if d = '>' ∧ !inFlow then s.takeBlock true
    else if s.startsPlain then s.takePlain
    else .error .malformed

/-- The next token, or none at the end of the text. -/
def step (s : Lexer) : Except ReadError (Bool × Lexer) := do
  let s ← s.toNext.dropFarKeyStarts
  let s := s.unwind s.cursor.column
  let c := s.cursor
  if c.atEnd then
    let s ← (s.unwind (-1)).dropKeyStart
    .ok (false, s)
  else if c.column = 0 ∧ c.peek = ('%' : CodePoint) then
    let s ← s.endBlocks
    let (directive, after) ← directiveLine c
    .ok (true, (s.put (.directive directive)).goTo after)
  else if c.column = 0 ∧ c.atMark '-' then
    let s ← s.endBlocks
    .ok (true, s.take 3 .documentStart)
  else if c.column = 0 ∧ c.atMark '.' then
    let s ← s.endBlocks
    .ok (true, s.take 3 .documentEnd)
  else
    let s ← s.takeToken
    .ok (true, s)

/-- The tokens in front of the first place where a key may have started, in order. -/
def settled (s : Lexer) : List Token :=
  let starts := s.keyStarts.filter fun e => !e.2.isFar s.cursor
  match (starts.map (·.2.number)).min? with
  | some n => s.tokens.reverse.take n
  | none => s.tokens.reverse

/-- All tokens, in order. -/
def run : Nat → Lexer → List Token
  | 0, s => s.tokens.reverse
  | fuel + 1, s =>
    match s.step with
    | .error e => s.settled ++ [.fault e]
    | .ok (false, s) => s.tokens.reverse
    | .ok (true, s) => run fuel s

end Lexer

/-- What a text may hold: tabs, breaks and what is neither a control nor half a code point. -/
def isTextChar (c : CodePoint) : Bool :=
  let n := c.value
  n = 0x09 || n = 0x0A || n = 0x0D || (0x20 ≤ n && n ≤ 0x7E) || n = 0x85 ||
    (0xA0 ≤ n && n ≤ 0xD7FF) || (0xE000 ≤ n && n ≤ 0xFFFD) || 0x10000 ≤ n

/-- The tokens of a text. -/
def Token.ofText (t : Text) : List Token :=
  if t.all isTextChar then Lexer.run (t.length + 2) (.ofText t) else [.fault .malformed]

end ZodSchemas.Yaml
