import ZodSchemas.Text.Quoted

/-!
# Printed texts

The command prints to streams that are no terminals: control sequences, which
would set the colours of a terminal or move its cursor, are left out. What
complains has to come through in any case, so surrogates, which cannot be
encoded, are written there by their numbers.
-/

namespace ZodSchemas.Printed

/-- What starts a control sequence. -/
def sequenceMark : Text := "\x1b["

/-- A parameter of a control sequence, or a separator between two. -/
def isParameter (c : CodePoint) : Bool := c.isDigit || c == ';' || c == '?'

/-- The length of the control sequence in front of a text: its mark, parameters and a letter. Zero
if none is there. -/
def sequenceLength (t : Text) : Nat :=
  if sequenceMark.isPrefixOf t then
    let behind := t.drop sequenceMark.length
    let parameters := behind.takeWhile isParameter
    if (behind.drop parameters.length).head?.any CodePoint.isLetter then
      sequenceMark.length + parameters.length + 1
    else 0
  else 0

/-- A text without some code points in front and without control sequences behind them. -/
def plainBehind : Nat → Text → Text
  | _, [] => []
  | skipped + 1, _ :: rest => plainBehind skipped rest
  | 0, c :: rest =>
    match sequenceLength (c :: rest) with
    | 0 => c :: plainBehind 0 rest
    | length + 1 => plainBehind length rest

/-- A text without control sequences. -/
def plain (t : Text) : Text := plainBehind 0 t

/-- A text with the numbers of surrogates in their places. -/
def escaped (t : Text) : Text :=
  t.flatMap fun c => if c.isSurrogate then Quoted.escapeNumber c.value else [c]

end ZodSchemas.Printed
