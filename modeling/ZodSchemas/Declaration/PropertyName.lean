import ZodSchemas.Json.Printer

/-!
# Names of properties

A property name stands bare when it reads as an identifier of ASCII letters,
digits, dollar signs and underscores that does not start with a digit; one line
feed after such a name does not keep it from standing bare. Every other name is
written as a string.
-/

namespace ZodSchemas.PropertyName

/-- A letter, a dollar sign or an underscore. -/
def isStart (c : CodePoint) : Bool :=
  c.isLetter || c = ('$' : CodePoint) || c = ('_' : CodePoint)

/-- What may follow the start of an identifier. -/
def isPart (c : CodePoint) : Bool := isStart c || c.isDigit

/-- An identifier. -/
def isIdentifier : Text → Bool
  | [] => false
  | c :: rest => isStart c && rest.all isPart

/-- A name that needs no quotes. -/
def isBare (t : Text) : Bool :=
  isIdentifier t || (t.getLast? = some ('\n' : CodePoint) && isIdentifier t.dropLast)

/-- The written form of a name. -/
def writeText (t : Text) : Text := if isBare t then t else Json.writeText t

/-- The written form of the key of a property, which must be a text. -/
def write : Key → Except Fault Text
  | .text t => .ok (writeText t)
  | key => .error (.noPropertyName (Value.ofKey key).kind)

end ZodSchemas.PropertyName
