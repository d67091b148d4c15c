import ZodSchemas.Text.CodePoint

/-!
# Lines

Lines end at line feeds and nowhere else, so indentation moves every line of a
text by the same blanks, empty lines included. In a file that is read as text a
carriage return counts as a line feed, and so does one in front of a line feed
together with it.
-/

namespace ZodSchemas.Lines

/-- The line feed. -/
def lineFeed : CodePoint := '\n'

/-- The lines of a text. -/
def split (t : Text) : List Text := t.splitOn lineFeed

/-- The text of some lines. -/
def join (lines : List Text) : Text := List.intercalate [lineFeed] lines

/-- Two blanks for each level. -/
def blanks (level : Int) : Text := List.replicate (2 * level.toNat) ' '

/-- Put the blanks of a level in front of every line; below level zero there are none. -/
def indent (level : Int) (t : Text) : Text :=
  join ((split t).map (blanks level ++ ·))

/-- The text with line feeds at the ends of its lines. -/
def normalize : Text → Text
  | [] => []
  | c :: rest =>
    if c.value = 0x0D then
      match rest with
      | [] => [lineFeed]
      | d :: tail =>
        if d = lineFeed then lineFeed :: normalize tail else lineFeed :: normalize (d :: tail)
    else c :: normalize rest

end ZodSchemas.Lines
