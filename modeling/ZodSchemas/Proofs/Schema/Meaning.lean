import ZodSchemas.Proofs.Schema.Shape
import ZodSchemas.Validation.Rules

/-!
# The meaning of schemas

What a schema accepts, read off the schema itself and the definitions around it
by recursion, without nodes in between. The first present keyword among those
of references, members, options and the type decides. A schema says what it
accepts and which schemas may stand for values that are absent; the latter are
those that ask for nothing, and those that only refer to such.
-/

namespace ZodSchemas

/-- The schema that some members together declare under a key: that of the last one that does. -/
def Governs (members : List (Entries Value)) (key : Key) (sub : Value) : Prop :=
  ∃ front m back, members = front ++ m :: back ∧
    Entries.find? key (propertiesOf m) = some sub ∧
    ∀ later ∈ back, Entries.has key (propertiesOf later) = false

/-- Some member requires a name. -/
def Requires (members : List (Entries Value)) (key : Key) : Prop :=
  ∃ m ∈ members, ∃ names : List Text, Lists m "required" (names.map .text) ∧
    ∃ name ∈ names, key = .text name

/-- The definition that a schema refers to: none where no mapping has the name. -/
def RefersTo (definitions : Value) (schema : Entries Value) (target : Option (Entries Value)) :
    Prop :=
  ∃ t : Text, Entries.find? "$ref" schema = some (.text t) ∧
    Reference.definition? definitions (.text (t.afterLast '/')) = .ok target

/-- A schema that asks for nothing in particular. -/
def AsksNothing (schema : Entries Value) : Prop :=
  decisive schema = none ∧
    ∀ name ∈ knownTypes, Entries.find? "type" schema ≠ some (.text name)

/-- A schema accepts null beside what it asks for. -/
def AcceptsNull (schema : Entries Value) : Prop :=
  Entries.find? "nullable" schema = some (.bool true)

/-- A schema accepts the absence of a value. -/
inductive AcceptsAbsent (definitions : Value) : Entries Value → Prop where
  /-- It refers to a definition that does. -/
  | reference {schema target : Entries Value} (present : ¬ AcceptsNull schema)
      (h : RefersTo definitions schema (some target)) (absent : AcceptsAbsent definitions target) :
      AcceptsAbsent definitions schema
  /-- It refers to no definition. -/
  | dangling {schema : Entries Value} (present : ¬ AcceptsNull schema)
      (h : RefersTo definitions schema none) : AcceptsAbsent definitions schema
  /-- It has a single option, which does. -/
  | option {schema sub : Entries Value} {m : Value} (present : ¬ AcceptsNull schema)
      (h : HasOptions schema [m]) (mapping : m.entries? = some sub)
      (absent : AcceptsAbsent definitions sub) : AcceptsAbsent definitions schema
  /-- It asks for nothing. -/
  | nothing {schema : Entries Value} (present : ¬ AcceptsNull schema) (h : AsksNothing schema) :
      AcceptsAbsent definitions schema

/-- A text has a length and a format that a schema asks for. -/
structure IsTextOf (schema : Entries Value) (t : Text) : Prop where
  /-- It is long enough. -/
  least : ∀ n, Entries.find? "minLength" schema = some (.int n) → n ≤ t.length
  /-- It is short enough. -/
  greatest : ∀ n, Entries.find? "maxLength" schema = some (.int n) → t.length ≤ n
  /-- It is a date, if it has to be one. -/
  date : Entries.find? "format" schema = some (.text "date") → (Date.ofText? t).isSome = true

mutual

/-- A schema accepts a value. -/
inductive Accepts (definitions : Value) : Entries Value → Value → Prop where
  /-- Null, if the schema says so. -/
  | null {schema : Entries Value} (h : AcceptsNull schema) : Accepts definitions schema .null
  /-- What it asks for. -/
  | asked {schema : Entries Value} {v : Value} (h : AsksFor definitions schema v) :
      Accepts definitions schema v

/-- A value is what a schema asks for. -/
inductive AsksFor (definitions : Value) : Entries Value → Value → Prop where
  /-- What the definition that it refers to accepts. -/
  | reference {schema target : Entries Value} {v : Value}
      (h : RefersTo definitions schema (some target)) (accepted : Accepts definitions target v) :
      AsksFor definitions schema v
  /-- Anything, where there is no such definition. -/
  | dangling {schema : Entries Value} {v : Value} (h : RefersTo definitions schema none) :
      AsksFor definitions schema v
  /-- What one of the options accepts. -/
  | option {schema sub : Entries Value} {options : List Value} {m v : Value}
      (h : HasOptions schema options) (member : m ∈ options) (mapping : m.entries? = some sub)
      (accepted : Accepts definitions sub v) : AsksFor definitions schema v
  /-- A mapping whose declared properties are accepted; one that is required may be absent only if
  its schema accepts that. -/
  | object {schema : Entries Value} {members : List (Entries Value)} {v : Value}
      {entries : Entries Value} (h : HasMembers schema members)
      (mapping : v.entries? = some entries)
      (present : ∀ key sub inner w, Governs members key sub → sub.entries? = some inner →
        Entries.find? key entries = some w → Accepts definitions inner w)
      (absent : ∀ key sub inner, Governs members key sub → sub.entries? = some inner →
        Entries.find? key entries = none → Requires members key →
        AcceptsAbsent definitions inner) : AsksFor definitions schema v
  /-- A list whose elements are accepted. -/
  | array {schema : Entries Value} {v : Value} {items : List Value} (h : HasType schema "array")
      (listed : Validation.listItems? v = some items)
      (elements : ∀ sub inner w, Entries.find? "items" schema = some sub →
        sub.entries? = some inner → w ∈ items → Accepts definitions inner w) :
      AsksFor definitions schema v
  /-- One of the listed texts. -/
  | choice {schema : Entries Value} {texts : List Text} {t : Text} (h : HasType schema "string")
      (listed : Lists schema "enum" (texts.map .text)) (member : t ∈ texts) :
      AsksFor definitions schema (.text t)
  /-- A text with the right length and format. -/
  | text {schema : Entries Value} {t : Text} (h : HasType schema "string")
      (free : Entries.find? "enum" schema = none) (fit : IsTextOf schema t) :
      AsksFor definitions schema (.text t)
  /-- An integer. -/
  | integer {schema : Entries Value} {n : Int}
      (h : HasType schema "number" ∨ HasType schema "integer") :
      AsksFor definitions schema (.int n)
  /-- A double-precision number. -/
  | float {schema : Entries Value} {x : Binary64}
      (h : HasType schema "number" ∨ HasType schema "integer") :
      AsksFor definitions schema (.float x)
  /-- A truth value. -/
  | boolean {schema : Entries Value} {b : Bool} (h : HasType schema "boolean") :
      AsksFor definitions schema (.bool b)
  /-- Anything, where it asks for nothing. -/
  | nothing {schema : Entries Value} {v : Value} (h : AsksNothing schema) :
      AsksFor definitions schema v

end

/-- A schema comes to a name through its own reference and those of its options alone. -/
inductive ComesTo : Entries Value → Text → Prop where
  /-- It refers to the name. -/
  | reference {schema : Entries Value} {t : Text}
      (h : Entries.find? "$ref" schema = some (.text t)) : ComesTo schema (t.afterLast '/')
  /-- One of its options comes to the name. -/
  | option {schema sub : Entries Value} {options : List Value} {m : Value} {name : Text}
      (h : HasOptions schema options) (member : m ∈ options) (mapping : m.entries? = some sub)
      (rest : ComesTo sub name) : ComesTo schema name

/-- The definition of one name comes to another name. -/
def NameLeads (definitions : Value) (name next : Text) : Prop :=
  ∃ schema, Reference.definition? definitions (.text name) = .ok (some schema) ∧
    ComesTo schema next

/-- No name comes to itself. -/
def NamesApart (definitions : Value) : Prop :=
  ∀ name, ¬ Relation.TransGen (NameLeads definitions) name name

/-- Definitions of well-formed schemas. -/
structure AreDefinitions (definitions : Value) : Prop where
  /-- Definitions are a mapping from different keys. -/
  mapping : ∃ entries, definitions.entries? = some entries ∧ KeysDiffer (Entries.keys entries)
  /-- Each is a well-formed schema. -/
  schemas : ∀ name schema, Reference.definition? definitions name = .ok (some schema) →
    IsSchema schema

/-- No definition is inside itself. -/
def AreFinite (definitions : Value) : Prop :=
  ∀ name schema, Reference.definition? definitions name = .ok (some schema) →
    (Value.map schema).isFinite = true

end ZodSchemas
