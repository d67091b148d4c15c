import ZodSchemas.Decimal.Reading
import ZodSchemas.Text.Utf8
import ZodSchemas.Web.Address
import ZodSchemas.Web.Label

/-!
# Addresses in normal form

A request writes its address in a normal form: what may not stand in a part is
written by its octets, each two hexadecimal digits behind a percent sign; the
host is in lower case and in ASCII; a port that its scheme implies is left out;
and in the path single points are dropped and two points lead back. Addresses
without a normal form cannot be requested.
-/

namespace ZodSchemas.Address

/-- Why an address has no normal form. -/
inductive Refusal where
  /-- The address has too many code points. -/
  | length
  /-- The address holds a control character. -/
  | control
  /-- The host looks like an address of version four or six, but is none. -/
  | numbers
  /-- The host is no name that can be written in ASCII. -/
  | name (fault : LabelFault)
  /-- The host stands for a name, but for none that a host can have. -/
  | writtenName (fault : LabelFault)
  /-- The host cannot be encoded. -/
  | encoding
  /-- The port is no number. -/
  | port
deriving DecidableEq

/-- The parts of an address behind its scheme. -/
structure Parts where
  /-- The scheme, without the colon. -/
  scheme : Text
  /-- The user. -/
  user : Text
  /-- The host. -/
  host : Text
  /-- The port, with the colon in front. -/
  port : Text
  /-- The path. -/
  path : Text
  /-- The query, with the mark in front. -/
  query : Text
  /-- The fragment, with the mark in front. -/
  fragment : Text

namespace Parts

/-- The host that some text starts with: in brackets, or up to a colon. -/
def hostOf (t : Text) : Text :=
  if t.head? = some ('[' : CodePoint) ∧ (']' : CodePoint) ∈ t then
    t.take (t.length - (t.afterLast ']').length)
  else upTo ":" t

/-- The parts of an address. -/
def of (address : Text) : Parts :=
  let scheme := upTo ":" address
  let behind := address.drop (scheme.length + 3)
  let authority := upTo "/?#" behind
  let user := (authority.beforeLast? '@').getD []
  let place := authority.afterLast '@'
  let host := hostOf place
  let rest := behind.drop authority.length
  let path := upTo "?#" rest
  let query := upTo "#" (rest.drop path.length)
  ⟨scheme, user, host, place.drop host.length, path, query,
    rest.drop (path.length + query.length)⟩

/-- The address of some parts. -/
def text (p : Parts) : Text :=
  let user := if p.user.isEmpty then p.user else p.user ++ "@"
  let authority := user ++ p.host ++ p.port
  let authority := if authority.isEmpty then authority else ("//" : Text) ++ authority
  p.scheme ++ ":" ++ authority ++ p.path ++ p.query ++ p.fragment

end Parts

/-- Two hexadecimal digits behind a percent sign. -/
def percentOctet (b : UInt8) : Text :=
  ('%' : CodePoint) :: Numeral.padLeft 2 (Text.ofChars ((Nat.toDigits 16 b.toNat).map Char.toUpper))

/-- Write code points by their octets, except for printable ASCII outside some marks. -/
def percentEncode (marks : String) (t : Text) : Text :=
  t.flatMap fun c =>
    if 0x21 ≤ c.value ∧ c.value < 0x7F ∧ c ∉ Text.ofString marks then [c]
    else (Utf8.encodeCodePoint c).flatMap percentOctet

/-- A path without parts that say nothing or lead back. -/
def followPath (path : Text) : Text :=
  let parts := path.splitOn ('/' : CodePoint)
  let kept := parts.foldl (fun kept part =>
    if part = (".." : Text) then (if kept = [[]] then kept else kept.dropLast)
    else if part = ("." : Text) then kept
    else kept ++ [part]) []
  List.intercalate ("/" : Text) kept

/-- The port that a scheme implies. -/
def impliedPort (scheme : Text) : Nat := if scheme = ("https" : Text) then 443 else 80

/-- A port without zeros in front; the one that the scheme implies is left out. -/
def normalPort (scheme port : Text) : Except Refusal Text :=
  let port := if port.head? = some (':' : CodePoint) then port.drop 1 else port
  if port.isEmpty then .ok []
  else
    match Reading.grouped? port with
    | none => .error .port
    | some n =>
      if n = impliedPort scheme then .ok [] else .ok ((':' : CodePoint) :: Numeral.integer n)

/-- The stages of reading four numbers that a code point leads to. In an odd stage a number has
begun; in an even one the next number has to begin, behind a separator that can be anything. -/
def nextStages (stages : List Nat) (c : CodePoint) : List Nat :=
  (List.range 8).filter fun stage =>
    if stage % 2 = 1 then c.isDigit && (stages.contains stage || stages.contains (stage - 1))
    else stage != 0 && stages.contains (stage - 1)

/-- Four numbers with any code points between them. -/
def looksLikeNumbers (t : Text) : Bool := (t.foldl nextStages [0]).contains 7

/-- A host in lower case, and in ASCII unless it is a number with a zone. -/
def normalHost (host : Text) : Except Refusal Text :=
  if looksLikeNumbers host then
    if isVersionFour host then .ok host else .error .numbers
  else if host.head? = some ('[' : CodePoint) ∧ host.getLast? = some (']' : CodePoint) then
    if isVersionSix (host.drop 1).dropLast then .ok host else .error .numbers
  else if host.any fun c => 0x7F < c.value then
    (HostName.encode (LowerCase.text host)).mapError .name
  else .ok (percentEncode "#/:<>?@[]^" (LowerCase.text host))

/-- Check that a host in normal form stands for a name and can be encoded. -/
def checkHost (host : Text) : Except Refusal Unit :=
  if Label.mark.isPrefixOf host then (HostName.check host).mapError .writtenName
  else if host.any fun c => 0x7F < c.value then .error .encoding
  else .ok ()

/-- The greatest length of an address that can be requested. -/
def lengthLimit : Nat := 65536

/-- An address as requests write it. -/
def normalForm (address : Text) : Except Refusal Text := do
  if lengthLimit < address.length then throw .length
  if address.any fun c => c.value < 0x20 ∨ c.value = 0x7F then throw .control
  let p := Parts.of address
  let host ← normalHost p.host
  let port ← normalPort p.scheme p.port
  checkHost host
  pure (Parts.text { p with
    user := percentEncode "\"#<>?\x60\x7b\x7d/;=@[\\]^|" p.user
    host := host
    port := port
    path := percentEncode "\"#<>?\x60\x7b\x7d" (followPath p.path)
    query := percentEncode "\"<>" p.query
    fragment := percentEncode "\"<>\x60" p.fragment })

end ZodSchemas.Address
