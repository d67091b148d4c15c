import ZodSchemas.Value.Knot

/-!
# Values

The data of a document: atoms, lists, mappings with ordered entries, and the
pairs and sets that one of the two document formats adds. Where that format
lets one container stand in several places, or inside itself, a value is a
place in a knot; its shape, and with it every answer about it, is that of the
container there. The questions that a reader of schemas asks of a value are
answered for every kind: whether it counts as true, what it lists, whether it
holds a keyword, and whether it is equal to another value. Inside lists and
mappings equality treats a number that is none as equal to itself; asked of two
values directly it does not.
-/

namespace ZodSchemas

/-- A value of a document. -/
inductive Value where
  /-- A value without parts. -/
  | atom (key : Key)
  /-- A list. -/
  | list (items : List Value)
  /-- Two values together. -/
  | pair (first second : Value)
  /-- A mapping from keys to values. -/
  | map (entries : List (Key × Value))
  /-- A set of keys. -/
  | set (items : List Key)
  /-- The container at a place of a knot. -/
  | knot (knot : Knot) (place : Nat)

/-- What a value is on its outside. -/
inductive Shape where
  /-- A value without parts. -/
  | atom (key : Key)
  /-- A list. -/
  | list (items : List Value)
  /-- Two values together. -/
  | pair (first second : Value)
  /-- A mapping from keys to values. -/
  | map (entries : Entries Value)
  /-- A set of keys. -/
  | set (items : List Key)

/-- What sort of value a value is. -/
inductive Kind where
  | null | boolean | integer | float | text | date | moment | bytes | list | pair | map | set
deriving DecidableEq

namespace Value

/-- No value. -/
@[match_pattern] abbrev null : Value := .atom .null
/-- A truth value. -/
@[match_pattern] abbrev bool (b : Bool) : Value := .atom (.bool b)
/-- An integer. -/
@[match_pattern] abbrev int (n : Int) : Value := .atom (.int n)
/-- A double-precision number. -/
@[match_pattern] abbrev float (x : Binary64) : Value := .atom (.float x)
/-- A text. -/
@[match_pattern] abbrev text (t : Text) : Value := .atom (.text t)

instance : Inhabited Value := ⟨.null⟩

instance : Coe Text Value := ⟨.text⟩

instance : Coe String Value := ⟨fun s => .text s⟩

/-- The value that a key is. -/
def ofKey (key : Key) : Value := .atom key

/-- The value that a part of a container of a knot is. -/
def ofStrand (knot : Knot) : Strand → Value
  | .key key => .atom key
  | .place n => .knot knot n

/-- The shape of a container of a knot. -/
def shapeOf (knot : Knot) : Loop → Shape
  | .list items => .list (items.map (ofStrand knot))
  | .pair a b => .pair (ofStrand knot a) (ofStrand knot b)
  | .map entries => .map (entries.map fun (key, part) => (key, ofStrand knot part))
  | .set items => .set items

/-- What a value is on its outside; a place that a knot does not have holds nothing. -/
def shape : Value → Shape
  | .atom key => .atom key
  | .list items => .list items
  | .pair a b => .pair a b
  | .map entries => .map entries
  | .set items => .set items
  | .knot ties n =>
    match ties[n]? with
    | some loop => shapeOf ties loop
    | none => .atom .null

/-- The value at a place of a knot that is a tree, at most `fuel` containers deep. -/
def untied (knot : Knot) : Nat → Nat → Value
  | 0, _ => .null
  | fuel + 1, n =>
    let part : Strand → Value
      | .key key => .atom key
      | .place n => untied knot fuel n
    match knot[n]? with
    | some (.list items) => .list (items.map part)
    | some (.pair a b) => .pair (part a) (part b)
    | some (.map entries) => .map (entries.map fun (key, strand) => (key, part strand))
    | some (.set items) => .set items
    | none => .null

/-- The value at a place of a knot; one that is a tree needs no knot. -/
def ofKnot (knot : Knot) (root : Nat) : Value :=
  if knot.isTree root then untied knot knot.size root else .knot knot root

/-- The key that a value is; lists, mappings and sets are none. -/
def toKey? : Value → Option Key
  | .atom key => some key
  | .pair a b =>
    match a.toKey?, b.toKey? with
    | some x, some y => some (.pair x y)
    | _, _ => none
  | .knot ties n =>
    match ties[n]? with
    | some (.pair (.key x) (.key y)) => some (.pair x y)
    | _ => none
  | _ => none

/-- The sort of a key. -/
def kindOf : Key → Kind
  | .null => .null
  | .bool _ => .boolean
  | .int _ => .integer
  | .float _ => .float
  | .text _ => .text
  | .date _ => .date
  | .moment _ => .moment
  | .bytes _ => .bytes
  | .pair _ _ => .pair

/-- The sort of a value. -/
def kind (v : Value) : Kind :=
  match v.shape with
  | .atom key => kindOf key
  | .list _ => .list
  | .pair _ _ => .pair
  | .map _ => .map
  | .set _ => .set

/-- Nothing, falsehood, zero and what is empty do not count as true. -/
def isTruthy (v : Value) : Bool :=
  match v.shape with
  | .atom .null => false
  | .atom (.bool b) => b
  | .atom (.int n) => n != 0
  | .atom (.float x) => x.isNonzero
  | .atom (.text t) => !t.isEmpty
  | .atom (.bytes b) => !b.isEmpty
  | .atom _ => true
  | .list items => !items.isEmpty
  | .pair _ _ => true
  | .map entries => !entries.isEmpty
  | .set items => !items.isEmpty

/-- What a value lists: the items of a list, the keys of a mapping, the code points of a text,
the numbers of octets. -/
def items? (v : Value) : Option (List Value) :=
  match v.shape with
  | .list items => some items
  | .pair a b => some [a, b]
  | .map entries => some (entries.map fun e => ofKey e.1)
  | .set items => some (items.map ofKey)
  | .atom (.text t) => some (t.map fun c => .text [c])
  | .atom (.bytes b) => some (b.map fun n => .int n.toNat)
  | _ => none

/-- The entries of a mapping. -/
def entries? (v : Value) : Option (Entries Value) :=
  match v.shape with
  | .map entries => some entries
  | _ => none

/-- The text that a value is. -/
def text? : Value → Option Text
  | .text t => some t
  | _ => none

/-- A number or a truth value, on the number line. -/
def quantity? : Value → Option Quantity
  | .atom (.bool b) => some (.finite (if b then 1 else 0))
  | .atom (.int n) => some (.finite n)
  | .atom (.float x) => some x.quantity
  | _ => none

/-- Whether a value is the container at a place of a knot. -/
def isAt (knot : Knot) (n : Nat) : Value → Bool
  | .knot other m => m == n && other = knot
  | _ => false

/-- Equal to the container at a place of a knot, at most `fuel` containers deep. Values at one
place are equal without looking. -/
def sameAt (knot : Knot) : Nat → Value → Nat → Bool
  | 0, a, n => a.isAt knot n
  | fuel + 1, a, n =>
    let samePart (a : Value) : Strand → Bool
      | .key key =>
        match a.shape with
        | .atom other => other.same key
        | _ => false
      | .place m => sameAt knot fuel a m
    a.isAt knot n ||
      match a.shape, knot[n]? with
      | .list xs, some (.list ys) => xs.length == ys.length && (xs.zip ys).all fun e =>
          samePart e.1 e.2
      | .pair x y, some (.pair c d) => samePart x c && samePart y d
      | .map xs, some (.map ys) => xs.length == ys.length && ys.all fun e =>
          match Entries.find? e.1 xs with
          | some x => samePart x e.2
          | none => false
      | .set xs, some (.set ys) => xs.length == ys.length && xs.all fun x => ys.any fun y =>
          x.same y
      | .atom x, none => x.same .null
      | _, _ => false

mutual

/-- Equal as parts of other values. -/
def same (a : Value) : Value → Bool
  | .atom key =>
    match a.shape with
    | .atom other => other.same key
    | _ => false
  | .list ys =>
    match a.shape with
    | .list xs => sameItems xs ys
    | _ => false
  | .pair c d =>
    match a.shape with
    | .pair x y => x.same c && y.same d
    | _ => false
  | .map ys =>
    match a.shape with
    | .map xs => xs.length == ys.length && sameEntries xs ys
    | _ => false
  | .set ys =>
    match a.shape with
    | .set xs => xs.length == ys.length && xs.all fun x => ys.any fun y => x.same y
    | _ => false
  | .knot ties n => sameAt ties (ties.size + 1) a n

/-- Equal item by item. -/
def sameItems : List Value → List Value → Bool
  | [], [] => true
  | x :: xs, y :: ys => x.same y && sameItems xs ys
  | _, _ => false

/-- Every entry of the second list has an equal value under its key in the first. -/
def sameEntries (xs : List (Key × Value)) : List (Key × Value) → Bool
  | [] => true
  | (k, y) :: rest =>
    (match Entries.find? k xs with
      | some x => x.same y
      | none => false) && sameEntries xs rest

end

/-- Equal, where what is no number equals nothing. -/
def equals : Value → Value → Bool
  | .float (.nan _), .float (.nan _) => false
  | a, b => a.same b

/-- Equal and of one sort; a truth value matches no number. -/
def isMatch (expected value : Value) : Bool :=
  expected.kind == value.kind && expected.equals value

/-- Whether a value holds a keyword: a mapping among its keys, a list or set among its items, a
text as a part. Other values cannot be asked. -/
def holds? (keyword : Text) (v : Value) : Option Bool :=
  match v.shape with
  | .map entries => some (Entries.has keyword entries)
  | .list items => some (items.any fun item => item.same (.text keyword))
  | .pair a b => some (a.same (.text keyword) || b.same (.text keyword))
  | .set items => some (items.any fun k => k.same keyword)
  | .atom (.text t) => some (keyword.occursIn t)
  | _ => none

end Value

end ZodSchemas
