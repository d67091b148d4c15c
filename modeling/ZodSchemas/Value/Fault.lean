import ZodSchemas.Value.Basic

/-!
# Faults

A document may hold any value anywhere. A fault says which use of a value was
refused and of what sort the value was. Families are told apart: the value does
not have the operation at all, the operation refuses the value, the value has no
written form, or the operation never ends.
-/

namespace ZodSchemas

/-- Why a value cannot be used where it stands. -/
inductive Fault where
  /-- Only mappings can be asked for entries. -/
  | noEntries (kind : Kind)
  /-- A reference is a text with segments. -/
  | noSegments (kind : Kind)
  /-- Only lists, mappings, sets, texts and octets have items. -/
  | noItems (kind : Kind)
  /-- The value cannot be asked whether it holds a keyword. -/
  | noKeywords (kind : Kind)
  /-- The value holds a keyword without a value under it. -/
  | noValueUnderKeyword (kind : Kind)
  /-- Only the entries of a mapping can be merged. -/
  | noMerge (kind : Kind)
  /-- Lists, mappings and sets cannot be keys. -/
  | noKey (kind : Kind)
  /-- A length is compared with numbers only. -/
  | noBound (kind : Kind)
  /-- A property name is a text. -/
  | noPropertyName (kind : Kind)
  /-- The value has no literal. -/
  | noLiteral (kind : Kind)
  /-- A value inside itself has no literal. -/
  | endlessLiteral
  /-- An integer has too many digits to be written. -/
  | tooManyDigits
  /-- The settings hold a value where an operation belongs. -/
  | noOperation
  /-- The settings hold a value where the output settings belong. -/
  | noOutputSettings
  /-- The output mode has no name. -/
  | noModeName
  /-- A setting that cannot be replaced. -/
  | fixedSetting
  /-- A setting that cannot be replaced by a value of this sort. -/
  | settingSort (kind : Kind)
  /-- A node of no kind accepts and rejects nothing. -/
  | noRule
  /-- Following references never ends. -/
  | endless
deriving DecidableEq

/-- The families of faults. -/
inductive Fault.Family where
  /-- The value does not have the operation. -/
  | missingOperation
  /-- The operation refuses the value. -/
  | refusedValue
  /-- The value has no written form. -/
  | unwritable
  /-- The operation never ends. -/
  | endless
deriving DecidableEq

/-- The family of a fault. -/
def Fault.family : Fault → Fault.Family
  | .noEntries _ | .noOutputSettings | .noModeName | .fixedSetting => .missingOperation
  | .noSegments .bytes => .refusedValue
  | .noSegments _ => .missingOperation
  | .endlessLiteral | .tooManyDigits => .unwritable
  | .endless => .endless
  | _ => .refusedValue

end ZodSchemas
