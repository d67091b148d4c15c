import ZodSchemas.Value.Fault
import ZodSchemas.Decimal.Shortest
import ZodSchemas.Text.Quoted

/-!
# How values read in messages

A value has two readings. Inside a container, or where a message has to tell
values of different sorts apart, texts stand between quotes and dates name
their parts. On its own a text reads as itself and a date as it is written. A
container inside itself is only hinted at there. Integers with too many digits
do not read at all.
-/

namespace ZodSchemas

/-- The name that a sort of value has in messages. -/
def Kind.name : Kind → Text
  | .null => "null"
  | .boolean => "bool"
  | .integer => "int"
  | .float => "float"
  | .text => "str"
  | .date => "date"
  | .moment => "datetime"
  | .bytes => "bytes"
  | .list => "list"
  | .pair => "tuple"
  | .map => "dict"
  | .set => "set"

/-- Numbers without digits in messages. -/
def messageSpelling : Shortest.Spelling := ⟨"inf", "nan"⟩

/-- The items with commas between them. -/
def commaSeparated (items : List Text) : Text := List.intercalate ", " items

/-- A call-like description of a value by its parts. -/
def describe (name : Text) (parts : List Text) : Text := name ++ "(" ++ commaSeparated parts ++ ")"

namespace Date

/-- The year, the month and the day by number. -/
def quoted (d : Date) : Text :=
  describe "datetime.date" ([d.year, d.month, d.day].map Numeral.decimal)

end Date

namespace Moment

/-- An offset by its days and seconds, of which the seconds are not negative. -/
def quotedOffset (minutes : Int) : Text :=
  if minutes = 0 then "datetime.timezone.utc"
  else
    let seconds := minutes * 60
    let days := seconds / 86400
    let rest := seconds % 86400
    let parts := (if days = 0 then [] else [("days=" : Text) ++ Numeral.integer days]) ++
      (if rest = 0 then [] else [("seconds=" : Text) ++ Numeral.integer rest])
    describe "datetime.timezone" [describe "datetime.timedelta" parts]

/-- The parts by number, as far as the last that is not zero but at least to the minute. -/
def quoted (m : Moment) : Text :=
  let small := if m.microsecond != 0 then [m.second, m.microsecond]
    else if m.second != 0 then [m.second] else []
  let parts := ([m.date.year, m.date.month, m.date.day, m.hour, m.minute] ++ small).map
    Numeral.decimal
  describe "datetime.datetime" (parts ++ (match m.offset with
    | some offset => [("tzinfo=" : Text) ++ quotedOffset offset]
    | none => []))

end Moment

namespace Key

/-- A key inside a container. -/
def quoted : Key → Except Fault Text
  | .null => .ok "None"
  | .bool b => .ok (if b then "True" else "False")
  | .int n =>
    match Numeral.integer? n with
    | some t => .ok t
    | none => .error .tooManyDigits
  | .float x => .ok (Shortest.write messageSpelling x)
  | .text t => .ok (Quoted.text t)
  | .date d => .ok d.quoted
  | .moment m => .ok m.quoted
  | .bytes b => .ok (Quoted.octets b)
  | .pair a b => do
    let first ← a.quoted
    let second ← b.quoted
    .ok (("(" : Text) ++ commaSeparated [first, second] ++ ")")

/-- A key on its own. -/
def plain : Key → Except Fault Text
  | .text t => .ok t
  | .date d => .ok d.text
  | .moment m => .ok (m.text " ")
  | key => key.quoted

end Key

/-- The marks around the parts of a container of some sort. -/
def Kind.marks : Kind → Text × Text
  | .list => ("[", "]")
  | .pair => ("(", ")")
  | _ => ("\x7b", "\x7d")

/-- Parts between the marks of their sort. -/
def enclosed (kind : Kind) (parts : List Text) : Text :=
  kind.marks.1 ++ commaSeparated parts ++ kind.marks.2

/-- A set by its elements. -/
def quotedSet (items : List Key) : Except Fault Text :=
  if items.isEmpty then .ok "set()" else (items.mapM Key.quoted).map (enclosed .set)

namespace Value

/-- The container at a place of a knot, given the places around it: one of those is hinted at by
three points; `fuel` exceeds the number of the other places. -/
def quotedPlace (knot : Knot) : Nat → List Nat → Nat → Except Fault Text
  | 0, _, _ => .error .endless
  | fuel + 1, around, n =>
    let part : Strand → Except Fault Text
      | .key key => key.quoted
      | .place m => quotedPlace knot fuel (n :: around) m
    if n ∈ around then .ok (enclosed (Value.knot knot n).kind ["..."])
    else
      match knot[n]? with
      | some (.list items) => (items.mapM part).map (enclosed .list)
      | some (.pair a b) => ([a, b].mapM part).map (enclosed .pair)
      | some (.map entries) => do
        let parts ← entries.mapM fun (key, strand) => do
          let name ← key.quoted
          let t ← part strand
          .ok (name ++ ": " ++ t)
        .ok (enclosed .map parts)
      | some (.set items) => quotedSet items
      | none => Key.null.quoted

mutual

/-- A value inside a container. -/
def quoted : Value → Except Fault Text
  | .atom key => key.quoted
  | .list items => do
    let parts ← quotedItems items
    .ok (enclosed .list parts)
  | .pair a b => do
    let first ← a.quoted
    let second ← b.quoted
    .ok (enclosed .pair [first, second])
  | .map entries => do
    let parts ← quotedEntries entries
    .ok (enclosed .map parts)
  | .set items => quotedSet items
  | .knot ties n => quotedPlace ties (ties.size + 1) [] n

/-- Each item inside a container. -/
def quotedItems : List Value → Except Fault (List Text)
  | [] => .ok []
  | v :: rest => do
    let first ← v.quoted
    let others ← quotedItems rest
    .ok (first :: others)

/-- Each entry inside a mapping. -/
def quotedEntries : List (Key × Value) → Except Fault (List Text)
  | [] => .ok []
  | (k, v) :: rest => do
    let name ← k.quoted
    let first ← v.quoted
    let others ← quotedEntries rest
    .ok ((name ++ ": " ++ first) :: others)

end

/-- A value on its own. -/
def plain : Value → Except Fault Text
  | .atom key => key.plain
  | v => v.quoted

end Value

end ZodSchemas
