import ZodSchemas.Text.Utf8

/-!
# Paths

A path names a file by the directories that lead to it. Empty parts and single
points say nothing and are left out; two points lead back and are kept, since
what stands in front of them has to exist. The suffix of a name starts at its
last point, unless that point is the first or the last code point of the name.
Files are kept under the octets of their names. Octets that are no UTF-8 are
written as surrogates of their own; other surrogates have no octets.
-/

namespace ZodSchemas

/-- A path. -/
structure FilePath where
  /-- What an absolute path starts with: a slash, or two when exactly two are written. -/
  root : Text
  /-- The names on the way. -/
  parts : List Text
deriving DecidableEq

namespace FilePath

/-- The slash between the parts of a path. -/
def slash : CodePoint := '/'

/-- The part that stands for a directory itself. -/
def here : Text := "."

/-- The part that leads back. -/
def back : Text := ".."

/-- What the absolute path of a text starts with. -/
def rootOf (t : Text) : Text :=
  let slashes := t.takeWhile (· = slash)
  if slashes.length = 2 then slashes else slashes.take 1

/-- The path that a text spells. -/
def ofText (t : Text) : FilePath :=
  ⟨rootOf t, (t.splitOn slash).filter fun part => !part.isEmpty && part != here⟩

/-- The spelling of a path; the empty path is a point. -/
def text (p : FilePath) : Text :=
  if p.root.isEmpty ∧ p.parts.isEmpty then here
  else p.root ++ List.intercalate [slash] p.parts

/-- The last part, or nothing. -/
def name (p : FilePath) : Text := p.parts.getLast?.getD []

/-- The path without its last part. -/
def parent (p : FilePath) : FilePath := ⟨p.root, p.parts.dropLast⟩

/-- The path of a file in a directory. -/
def child (p : FilePath) (name : Text) : FilePath := ⟨p.root, p.parts ++ [name]⟩

/-- The same file, seen from a directory. -/
def seenFrom (p directory : FilePath) : FilePath :=
  if p.root.isEmpty then ⟨directory.root, directory.parts ++ p.parts⟩ else p

/-- The parts without those that lead back, as far as there is something to come back from. -/
def straighten (parts : List Text) : List Text :=
  parts.foldl (fun way part => if part = back then way.dropLast else way ++ [part]) []

/-- The absolute path without parts that lead back, seen from a directory; its root is one slash. -/
def absolute (p directory : FilePath) : FilePath :=
  ⟨[slash], straighten (p.seenFrom directory).parts⟩

/-- The suffix of a name, with its point. -/
def suffixOf (name : Text) : Text :=
  match name.beforeLast? '.' with
  | none => []
  | some stem =>
    let suffix := name.drop stem.length
    if stem.isEmpty ∨ suffix.length = 1 then [] else suffix

/-- The suffix of the last part. -/
def suffix (p : FilePath) : Text := suffixOf p.name

/-! ### Octets -/

/-- A surrogate that stands for an octet beyond ASCII. -/
def isLoneOctet (c : CodePoint) : Bool := 0xDC80 ≤ c.value && c.value ≤ 0xDCFF

/-- The octets of a code point in a name. -/
def octetsOf (c : CodePoint) : List UInt8 :=
  if isLoneOctet c then [(c.value - 0xDC00).toUInt8] else Utf8.encodeCodePoint c

/-- The code point that the first few lone octets of a name spell together, and how many there are
behind the first. -/
def spelled? (name : Text) : Option (CodePoint × Nat) :=
  let lone := name.takeWhile isLoneOctet
  [1, 2, 3].findSome? fun behind =>
    match lone.drop behind, Utf8.decode ((lone.take (behind + 1)).flatMap octetsOf) with
    | _ :: _, .ok [c] => some (c, behind)
    | _, _ => none

/-- A name behind some code points, with the code points that lone octets spell. -/
def storedBehind : Nat → Text → Text
  | _, [] => []
  | behind + 1, _ :: rest => storedBehind behind rest
  | 0, c :: rest =>
    match spelled? (c :: rest) with
    | some (d, behind) => d :: storedBehind behind rest
    | none => c :: storedBehind 0 rest

/-- The name under which a file is kept: names with the same octets are one name. -/
def stored (name : Text) : Text := storedBehind 0 name

/-- Whether a path holds a code point of some sort. -/
def holds (isOfSort : CodePoint → Bool) (p : FilePath) : Bool :=
  p.parts.any fun part => part.any isOfSort

/-- Whether a path holds the null control. -/
def hasNull (p : FilePath) : Bool := p.holds fun c => c.value = 0

/-- Whether a path holds a surrogate that stands for no octet. -/
def hasSurrogate (p : FilePath) : Bool := p.holds fun c => c.isSurrogate && !isLoneOctet c

/-- The number of octets of a name. -/
def width (name : Text) : Nat := (name.flatMap octetsOf).length

/-- The longest name of a file, in octets. -/
def longestName : Nat := 255

/-- The longest path, in octets. -/
def longestPath : Nat := 4095

end FilePath

end ZodSchemas
