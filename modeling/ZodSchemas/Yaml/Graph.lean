import ZodSchemas.Yaml.Token
import ZodSchemas.Yaml.Tag

/-!
# Graphs

A document is a graph of tagged scalars, sequences and mappings, which hold
their parts by number. The tokens decide its shape: blocks are closed by their
own tokens, brackets by commas and brackets, and where a node may stand but none
does there is an empty scalar. A node with an anchor may stand in other places
again, also inside itself; a name is given once, and used only behind the start
of its node. A text holds one document at most.
-/

namespace ZodSchemas.Yaml

/-- A node of a document. -/
inductive Vertex where
  /-- A text. -/
  | scalar (tag : Tag) (text : Text)
  /-- Nodes in order. -/
  | sequence (tag : Tag) (items : List Nat)
  /-- Pairs of a key node and a value node in order. -/
  | mapping (tag : Tag) (entries : List (Nat × Nat))

instance : Inhabited Vertex := ⟨.scalar .null []⟩

/-- The nodes of a document by number. -/
abbrev Graph := Array Vertex

/-- What is known while a graph is read. -/
structure Builder where
  /-- The tokens that are left. -/
  tokens : List Token
  /-- What handles stand for. -/
  handles : List (Text × Text)
  /-- The nodes with a name. -/
  anchors : List (Text × Nat)
  /-- The nodes so far; the parts of one that is still being read come later. -/
  graph : Graph

/-- Computations that read from the tokens. -/
abbrev Building (α : Type) := StateT Builder (Except ReadError) α

namespace Building

/-- A token where it must not stand. -/
def refuse {α : Type} : Building α := throw .malformed

/-- The next token, if there is one. -/
def peek : Building (Option Token) := do
  match (← get).tokens with
  | [] => pure none
  | .fault e :: _ => throw e
  | token :: _ => pure (some token)

/-- Pass over a token. -/
def drop : Building Unit := modify fun b => { b with tokens := b.tokens.drop 1 }

/-- The handles that need no directive. -/
def standardHandles : List (Text × Text) := [("!", "!"), ("!!", Tag.standardStart)]

/-- The tag that was written, as a whole. -/
def wholeTag (tag : WrittenTag) : Building Text := do
  match tag.handle with
  | none => pure tag.suffix
  | some handle =>
    match (← get).handles.lookup handle with
    | some start => pure (start ++ tag.suffix)
    | none => refuse

/-- An anchor, if one comes next. -/
def anchor? : Building (Option Text) := do
  match ← peek with
  | some (.anchor name) => drop; pure (some name)
  | _ => pure none

/-- A tag, if one comes next. -/
def tag? : Building (Option WrittenTag) := do
  match ← peek with
  | some (.tag tag) => drop; pure (some tag)
  | _ => pure none

/-- The anchor and the tag in front of a node, in either order. -/
def properties : Building (Option Text × Option Text) := do
  let first ← anchor?
  let tag ← tag?
  let second ← if first.isNone ∧ tag.isSome then anchor? else pure none
  let tag ← tag.mapM wholeTag
  pure (first.or second, tag)

/-- A name for a node is given once. -/
def checkAnchor (anchor : Option Text) : Building Unit := do
  match anchor with
  | none => pure ()
  | some name => if ((← get).anchors.lookup name).isSome then refuse else pure ()

/-- Add a node, which may have a name. -/
def add (anchor : Option Text) (vertex : Vertex) : Building Nat := do
  let b ← get
  let n := b.graph.size
  let anchors := match anchor with
    | some name => (name, n) :: b.anchors
    | none => b.anchors
  set { b with anchors := anchors, graph := b.graph.push vertex }
  pure n

/-- Add a node whose parts are read behind its name. -/
def addFilled {α : Type} (anchor : Option Text) (vertex : List α → Vertex)
    (parts : Building (List α)) : Building Nat := do
  let n ← add anchor (vertex [])
  let parts ← parts
  modify fun b => { b with graph := b.graph.setIfInBounds n (vertex parts) }
  pure n

/-- The node of a name. -/
def namedNode (name : Text) : Building Nat := do
  match (← get).anchors.lookup name with
  | some n => pure n
  | none => refuse

/-- The tag of a sequence or a mapping: the standard one where none is written, or only a mark that
there is none. -/
def tagOr (standard : Tag) (tag : Option Text) : Tag :=
  match tag with
  | none => standard
  | some name => if name = ("!" : Text) then standard else .ofName name

/-- A scalar: without a tag a plain one means what its shape says and any other is a text. -/
def scalarOf (tag : Option Text) (t : Text) (isPlain : Bool) : Vertex :=
  match tag with
  | none => .scalar (if isPlain then .ofPlain t else .str) t
  | some name => .scalar (if name = ("!" : Text) then .ofPlain t else .ofName name) t

/-- A scalar where nothing is written. -/
def emptyNode : Building Nat := add none (.scalar .null [])

/-- A node of which only a name or a tag is written. -/
def bare (anchor tag : Option Text) : Building Nat :=
  if anchor.isNone ∧ tag.isNone then refuse else add anchor (scalarOf tag [] true)

/-- A node, unless a test says that nothing is written here. -/
def nodeUnless (endsHere : Option Token → Bool) (node : Building Nat) : Building Nat := do
  if endsHere (← peek) then emptyNode else node

/-- The next token is one of the block that ends an item. -/
def endsItem : Option Token → Bool
  | some .entry | some .blockEnd => true
  | _ => false

/-- The next token is one of the block that ends a key or a value. -/
def endsPart : Option Token → Bool
  | some .key | some .value | some .blockEnd => true
  | _ => false

/-- The next token ends an item of a sequence that is not indented more than the mapping around. -/
def endsFlushItem (token : Option Token) : Bool := endsItem token || endsPart token

/-- The next token ends a value between brackets. -/
def endsFlowValue : Option Token → Bool
  | some .comma | some .sequenceEnd | some .mappingEnd => true
  | _ => false

/-- The next token ends a key between brackets. -/
def endsFlowKey (token : Option Token) : Bool :=
  endsFlowValue token || match token with
    | some .value => true
    | _ => false

/-- A value behind a colon, if one comes next. -/
def valueIfAny (endsHere : Option Token → Bool) (node : Building Nat) : Building Nat := do
  match ← peek with
  | some .value =>
    drop
    nodeUnless endsHere node
  | _ => emptyNode

/-- The next token between brackets; all items but the first need a comma in front. -/
def separated (isFirst : Bool) : Building (Option Token) := do
  match ← peek with
  | some .sequenceEnd => pure (some .sequenceEnd)
  | some .mappingEnd => pure (some .mappingEnd)
  | token =>
    if isFirst then pure token
    else
      match token with
      | some .comma =>
        drop
        peek
      | _ => refuse

/-- Where a node stands. -/
inductive Place where
  /-- Between brackets. -/
  | flow
  /-- In a block. -/
  | block
  /-- In a mapping, where the items of a sequence need no indentation. -/
  | part
deriving DecidableEq

mutual

/-- The node that comes next, of at most `fuel` parts. -/
def node : Nat → Place → Building Nat
  | 0, _ => refuse
  | fuel + 1, place => do
    match ← peek with
    | some (.alias name) =>
      drop
      namedNode name
    | _ =>
      let (anchor, tag) ← properties
      let token ← peek
      checkAnchor anchor
      match token with
      | some .entry =>
        if place = .part then addFilled anchor (.sequence (tagOr .seq tag)) (flushItems fuel)
        else bare anchor tag
      | some (.scalar t isPlain) =>
        drop
        add anchor (scalarOf tag t isPlain)
      | some .sequenceStart =>
        drop
        addFilled anchor (.sequence (tagOr .seq tag)) (flowItems fuel true)
      | some .mappingStart =>
        drop
        addFilled anchor (.mapping (tagOr .map tag)) (flowEntries fuel true)
      | some .sequenceBlock =>
        if place = .flow then bare anchor tag
        else
          drop
          addFilled anchor (.sequence (tagOr .seq tag)) (blockItems fuel)
      | some .mappingBlock =>
        if place = .flow then bare anchor tag
        else
          drop
          addFilled anchor (.mapping (tagOr .map tag)) (blockEntries fuel)
      | _ => bare anchor tag

/-- The items of a block behind hyphens. -/
def blockItems : Nat → Building (List Nat)
  | 0 => refuse
  | fuel + 1 => do
    match ← peek with
    | some .entry =>
      drop
      let item ← nodeUnless endsItem (node fuel .block)
      let items ← blockItems fuel
      pure (item :: items)
    | some .blockEnd =>
      drop
      pure []
    | _ => refuse

/-- The items behind hyphens that are not indented more than the mapping around. -/
def flushItems : Nat → Building (List Nat)
  | 0 => refuse
  | fuel + 1 => do
    match ← peek with
    | some .entry =>
      drop
      let item ← nodeUnless endsFlushItem (node fuel .block)
      let items ← flushItems fuel
      pure (item :: items)
    | _ => pure []

/-- The keys and values of a block. -/
def blockEntries : Nat → Building (List (Nat × Nat))
  | 0 => refuse
  | fuel + 1 => do
    match ← peek with
    | some .key =>
      drop
      let key ← nodeUnless endsPart (node fuel .part)
      let value ← valueIfAny endsPart (node fuel .part)
      let entries ← blockEntries fuel
      pure ((key, value) :: entries)
    | some .blockEnd =>
      drop
      pure []
    | _ => refuse

/-- A key and a value between square brackets, which are a mapping of one entry. -/
def flowPair : Nat → Building Nat
  | 0 => refuse
  | fuel + 1 => do
    drop
    addFilled none (.mapping .map) do
      let key ← nodeUnless endsFlowKey (node fuel .flow)
      let value ← valueIfAny endsFlowValue (node fuel .flow)
      pure [(key, value)]

/-- The items between square brackets. -/
def flowItems : Nat → Bool → Building (List Nat)
  | 0, _ => refuse
  | fuel + 1, isFirst => do
    match ← separated isFirst with
    | some .sequenceEnd =>
      drop
      pure []
    | some .key =>
      let item ← flowPair fuel
      let items ← flowItems fuel false
      pure (item :: items)
    | _ =>
      let item ← node fuel .flow
      let items ← flowItems fuel false
      pure (item :: items)

/-- The keys and values between curly brackets. -/
def flowEntries : Nat → Bool → Building (List (Nat × Nat))
  | 0, _ => refuse
  | fuel + 1, isFirst => do
    match ← separated isFirst with
    | some .mappingEnd =>
      drop
      pure []
    | some .key =>
      drop
      let key ← nodeUnless endsFlowKey (node fuel .flow)
      let value ← valueIfAny endsFlowValue (node fuel .flow)
      let entries ← flowEntries fuel false
      pure ((key, value) :: entries)
    | _ =>
      let key ← node fuel .flow
      let value ← emptyNode
      let entries ← flowEntries fuel false
      pure ((key, value) :: entries)

end

/-- The directives in front of a document, given the version and the handles before. -/
def directives : Nat → Bool → List (Text × Text) → Building (List (Text × Text))
  | 0, _, _ => refuse
  | fuel + 1, hasVersion, handles => do
    match ← peek with
    | some (.directive directive) =>
      drop
      match directive with
      | .version major =>
        if hasVersion ∨ major ≠ 1 then refuse else directives fuel true handles
      | .handle handle start =>
        if (handles.lookup handle).isSome then refuse
        else directives fuel hasVersion ((handle, start) :: handles)
      | .other => directives fuel hasVersion handles
    | _ => pure handles

/-- Nothing is written between the start of a document and this token. -/
def endsDocument : Option Token → Bool
  | some (.directive _) | some .documentStart | some .documentEnd | none => true
  | _ => false

/-- The document that comes next. -/
def document (fuel : Nat) : Building Nat := do
  if endsDocument (← peek) then
    let handles ← directives fuel false []
    modify fun b => { b with handles := handles ++ standardHandles }
    match ← peek with
    | some .documentStart =>
      drop
      nodeUnless endsDocument (node fuel .block)
    | _ => refuse
  else node fuel .block

/-- Nothing but ends of documents comes next; a second document is refused when it starts. -/
def finish : Nat → Building Unit
  | 0 => refuse
  | fuel + 1 => do
    match ← peek with
    | none => pure ()
    | some .documentEnd =>
      drop
      finish fuel
    | some _ =>
      let _ ← directives fuel false []
      let _ ← peek
      refuse

/-- The only document of the tokens, if there is one. -/
def onlyDocument (fuel : Nat) : Building (Option Nat) := do
  match ← peek with
  | none => pure none
  | some _ =>
    let root ← document fuel
    finish fuel
    pure (some root)

end Building

/-- The graph of a text and the number of its outermost node, if there is one. -/
def Graph.ofText (t : Text) : Except ReadError (Option (Graph × Nat)) := do
  let tokens := Token.ofText t
  let fuel := 4 * tokens.length + 4
  let start : Builder := ⟨tokens, Building.standardHandles, [], #[]⟩
  let (root, b) ← Building.onlyDocument fuel start
  .ok (root.map fun n => (b.graph, n))

end ZodSchemas.Yaml
