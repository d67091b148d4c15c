import ZodSchemas.Decimal.Numeral

/-!
# Addresses

The address of a document on the web names a host and a path on it; a query, a
fragment or parameters of the last part of the path may follow. A host in
square brackets has to be an address of version six, or of a version to come.
Characters that would count as separators in the host's normal form are
refused.
-/

namespace ZodSchemas.Address

/-- The schemes of documents on the web. -/
def schemes : List Text := ["http://", "https://"]

/-- Whether a text is the address of a document on the web. -/
def isAddress (t : Text) : Bool := schemes.any fun scheme => scheme.isPrefixOf t

/-! ### Hosts in brackets -/

/-- One of the four numbers of an address of version four. -/
def isOctet (t : Text) : Bool :=
  match Numeral.decimal? t with
  | some n => t.length ≤ 3 && n < 256 && (t.length = 1 || t.head? != some ('0' : CodePoint))
  | none => false

/-- An address of version four. -/
def isVersionFour (t : Text) : Bool :=
  let numbers := t.splitOn ('.' : CodePoint)
  numbers.length = 4 && numbers.all isOctet

/-- One of the eight groups of an address of version six. -/
def isGroup (t : Text) : Bool :=
  !t.isEmpty && t.length ≤ 4 && t.all fun c => c.hexDigit?.isSome

/-- The parts between the colons of an address of version six; an address of version four at the
end stands for two groups. -/
def groups? (t : Text) : Option (List Text) :=
  let parts := t.splitOn (':' : CodePoint)
  let last := parts.getLast?.getD []
  if parts.length < 3 then none
  else if ('.' : CodePoint) ∈ last then
    if isVersionFour last then some (parts.dropLast ++ [("0" : Text), "0"]) else none
  else some parts

/-- The parts, with or without one gap among them that stands for groups of zeros. An empty part at
either end belongs to a gap beside it. -/
def areGroups (parts : List Text) : Bool :=
  let inner := (parts.drop 1).dropLast
  let before := inner.takeWhile (!·.isEmpty)
  let front := parts.take (before.length + 1)
  let behind := parts.drop (before.length + 2)
  if parts.length > 9 then false
  else if inner.all (!·.isEmpty) then parts.length = 8 && parts.all isGroup
  else
    let isSide (side : List Text) (outer : Option Text) : Bool :=
      if outer = some [] then side.length = 1 else side.all isGroup
    let count (side : List Text) (outer : Option Text) : Nat :=
      if outer = some [] then 0 else side.length
    isSide front parts.head? && isSide behind parts.getLast? &&
      count front parts.head? + count behind parts.getLast? < 8

/-- An address of version six, perhaps with a zone behind a percent sign. -/
def isVersionSix (t : Text) : Bool :=
  let parts := t.splitOn ('%' : CodePoint)
  let zoneIsGood := match parts with
    | [_] => true
    | [_, zone] => !zone.isEmpty
    | _ => false
  zoneIsGood && !(t.contains ('/' : CodePoint)) &&
    match groups? (parts.headD []) with
    | some groups => areGroups groups
    | none => false

/-- An address of a version to come: a version number, a point, and something. -/
def isFutureVersion (t : Text) : Bool :=
  match t with
  | mark :: rest =>
    let version := rest.takeWhile fun c => c.hexDigit?.isSome
    let behind := rest.dropWhile fun c => c.hexDigit?.isSome
    mark = ('v' : CodePoint) && !version.isEmpty && behind.head? = some ('.' : CodePoint) &&
      1 < behind.length && !behind.contains ('\n' : CodePoint)
  | [] => false

/-- What may stand in brackets. -/
def isBracketed (t : Text) : Bool :=
  if t.head? = some ('v' : CodePoint) then isFutureVersion t else isVersionSix t

/-- The code points beyond ASCII whose normal form holds a separator. -/
def lookalikes : List Nat :=
  [0x2047, 0x2048, 0x2049, 0x2100, 0x2101, 0x2105, 0x2106, 0x2A74, 0xFE13, 0xFE16, 0xFE55, 0xFE56,
   0xFE5F, 0xFE6B, 0xFF03, 0xFF0F, 0xFF1A, 0xFF1F, 0xFF20]

/-- The part before the first of some code points. -/
def upTo (marks : String) (t : Text) : Text := t.takeWhile fun c => c ∉ Text.ofString marks

/-- What stands in the brackets of a place, or up to a colon if it has no opening one. Nothing may
stand in front of the brackets, and nothing but a port behind them. -/
def bracketed? (place : Text) : Option Text :=
  let front := upTo "[" place
  if front.length = place.length then some (upTo ":" place)
  else
    let inside := upTo "]" (place.drop (front.length + 1))
    let behind := place.drop (front.length + inside.length + 2)
    if front.isEmpty ∧ (behind.isEmpty ∨ behind.head? = some (':' : CodePoint)) then some inside
    else none

/-- A host, perhaps with a user and a port, that no rule forbids. -/
def isHost (t : Text) : Bool :=
  let opens := t.contains ('[' : CodePoint)
  let closes := t.contains (']' : CodePoint)
  opens == closes && (!opens || (bracketed? (t.afterLast '@')).any isBracketed) &&
    !t.any fun c => c.value ∈ lookalikes

/-! ### Parts of an address -/

/-- A path without the parameters of its last part. -/
def withoutParameters (path : Text) : Text :=
  let last := path.afterLast '/'
  path.take (path.length - last.length) ++ upTo ";" last

/-- The path that an address names on its host; none when the host is malformed. Tabs and line
breaks do not count. -/
def path? (address : Text) : Option Text :=
  let t := address.filter fun c => c ∉ Text.ofString "\t\r\n"
  let behind := (t.dropWhile (· != ('/' : CodePoint))).drop 2
  let host := upTo "/?#" behind
  if isHost host then
    some (withoutParameters (upTo "?" (upTo "#" (behind.drop host.length))))
  else none

end ZodSchemas.Address
