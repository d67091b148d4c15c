import ZodSchemas.Node.Basic

/-!
# Equality and digests of nodes

Equal nodes are of one kind and have equal parts; properties are compared as
mappings, whatever their order, and required names as sets. References are
equal when their names are; bodies are never compared, which keeps equality
finite. The digest of a node is what a table of nodes files it under. It reads
properties in their order, and values that cannot be keys have none.
-/

namespace ZodSchemas

/-- Every key of the first list is among the second. -/
def includesKeys (keys others : List Key) : Bool := keys.all fun k => k.isAmong others

/-- The same keys, whatever their order. -/
def sameKeys (keys others : List Key) : Bool := includesKeys keys others && includesKeys others keys

/-- Equal kinds and equal bounds. -/
def Check.same (a b : Check) : Bool := a.kind = b.kind && a.bound.same b.bound

/-- Equal check by check. -/
def sameChecks : List Check → List Check → Bool
  | [], [] => true
  | a :: as, b :: bs => a.same b && sameChecks as bs
  | _, _ => false

namespace Node

mutual

/-- Equal nodes. -/
def same : Node → Node → Bool
  | .string as, .string bs => sameChecks as bs
  | .number, .number => true
  | .boolean, .boolean => true
  | .object ps required, .object qs others =>
    ps.length == qs.length && sameProperties ps qs && sameKeys required others
  | .array a, .array b => a.same b
  | .union as, .union bs => sameOptions as bs
  | .enum as, .enum bs => Value.sameItems as bs
  | .literal a, .literal b => a.same b
  | .nullable a, .nullable b => a.same b
  | .optional a, .optional b => a.same b
  | .lazy a, .lazy b => a.name.same b.name
  | .never, .never => true
  | .unknown, .unknown => true
  | .plain, .plain => true
  | _, _ => false

/-- Every property of the first list has an equal node under its key in the second. -/
def sameProperties : List (Key × Node) → List (Key × Node) → Bool
  | [], _ => true
  | (k, a) :: rest, qs =>
    (match Entries.find? k qs with
      | some b => a.same b
      | none => false) && sameProperties rest qs

/-- Equal option by option. -/
def sameOptions : List Node → List Node → Bool
  | [], [] => true
  | a :: as, b :: bs => a.same b && sameOptions as bs
  | _, _ => false

end

end Node

/-- What a table files a node under. -/
inductive Digest where
  /-- A key by what it denotes. -/
  | key (meaning : Meaning)
  /-- Keys without an order. -/
  | set (meanings : List Meaning)
  /-- Parts in their order. -/
  | parts (digests : List Digest)

namespace Digest

mutual

/-- Equal digests. -/
def agrees : Digest → Digest → Bool
  | .key a, .key b => a = b
  | .set as, .set bs => (as.all fun a => a ∈ bs) && bs.all fun b => b ∈ as
  | .parts as, .parts bs => agreeInOrder as bs
  | _, _ => false

/-- Equal part by part. -/
def agreeInOrder : List Digest → List Digest → Bool
  | [], [] => true
  | a :: as, b :: bs => a.agrees b && agreeInOrder as bs
  | _, _ => false

end

end Digest

/-- The digest of a value that can be a key. -/
def Value.digest (v : Value) : Except Fault Digest :=
  match v.toKey? with
  | some key => .ok (.key key.meaning)
  | none => .error (.noKey v.kind)

/-- The digest of a check. -/
def Check.digest (c : Check) : Except Fault Digest := do
  let bound ← c.bound.digest
  .ok (.parts [.key (.text c.kind.name), bound])

namespace Node

mutual

/-- The digest of a node; nodes of different kinds may share one. -/
def digest : Node → Except Fault Digest
  | .string checks => do .ok (.parts [.parts (← checks.mapM Check.digest)])
  | .object properties required => do
    let digests ← propertyDigests properties
    .ok (.parts [.parts digests, .set (required.map Key.meaning)])
  | .array element => do .ok (.parts [← element.digest])
  | .union options => do .ok (.parts [.parts (← optionDigests options)])
  | .enum values => do .ok (.parts [.parts (← values.mapM Value.digest)])
  | .literal value => do .ok (.parts [← value.digest])
  | .nullable inner => do .ok (.parts [← inner.digest])
  | .optional inner => do .ok (.parts [← inner.digest])
  | .lazy ref => .ok (.parts [.key ref.name.meaning])
  | .number | .boolean | .never | .unknown | .plain => .ok (.parts [])

/-- The digests of properties in their order. -/
def propertyDigests : List (Key × Node) → Except Fault (List Digest)
  | [] => .ok []
  | (k, node) :: rest => do
    let digest ← node.digest
    let digests ← propertyDigests rest
    .ok (.parts [.key k.meaning, digest] :: digests)

/-- The digests of options. -/
def optionDigests : List Node → Except Fault (List Digest)
  | [] => .ok []
  | node :: rest => do
    let digest ← node.digest
    let digests ← optionDigests rest
    .ok (digest :: digests)

end

/-- How many of two nodes a table keeps: one when they are equal and filed in one place. -/
def countDistinct (a b : Node) : Except Fault Nat := do
  let first ← a.digest
  let second ← b.digest
  .ok (if first.agrees second && a.same b then 1 else 2)

end Node

end ZodSchemas
