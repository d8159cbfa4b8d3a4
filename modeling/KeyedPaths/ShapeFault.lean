import KeyedPaths.Json
import KeyedPaths.QuotedText
import KeyedPaths.ShortestDecimal

/-!
# Faults in the shape of JSON values

A well-formed JSON text can still hold a value of the wrong shape: a value of
another kind than wanted, a field that is missing or that nobody knows, or a
list of fields of the wrong length.  A record is written either as an object or
as the list of its fields in order.
-/

namespace KeyedPaths

/-- A record as messages present it: its name and its fields in order. -/
structure RecordShape where
  name : String
  fields : List String
deriving DecidableEq

/-- The kind of value that is wanted somewhere. -/
inductive WantedKind where
  | string
  | list
  | map
  | record (shape : RecordShape)
deriving DecidableEq

def WantedKind.description : WantedKind → String
  | .string => "a string"
  | .list => "a sequence"
  | .map => "a map"
  | .record shape => s!"struct {shape.name}"

inductive ShapeFault where
  | wrongKind (found : Json) (wanted : WantedKind)
  | unknownField (field : String) (shape : RecordShape)
  | missingField (field : String)
  /-- A record is written as the empty list. -/
  | noFields (shape : RecordShape)
  /-- A record is written as a list with more items than fields. -/
  | tooManyFields (length : Nat)

/-- A value as messages name it: lists and maps by their kind alone. -/
def Json.description : Json → String
  | .null => "null"
  | .boolean value => s!"boolean `{value}`"
  | .integer value => s!"integer `{value}`"
  | .float value => s!"floating point `{floatText value}`"
  | .string value => s!"string {quotedText value}"
  | .array _ => "sequence"
  | .object _ => "map"

def RecordShape.fieldList (shape : RecordShape) : String :=
  ", ".intercalate (shape.fields.map fun field => s!"`{field}`")

def ShapeFault.message : ShapeFault → String
  | .wrongKind found wanted =>
      s!"invalid type: {found.description}, expected {wanted.description}"
  | .unknownField field shape =>
      s!"unknown field `{field}`, expected one of {shape.fieldList}"
  | .missingField field => s!"missing field `{field}`"
  | .noFields shape =>
      s!"invalid length 0, expected struct {shape.name} with " ++
        s!"{shape.fields.length} elements"
  | .tooManyFields length =>
      s!"invalid length {length}, expected fewer elements in array"

def Json.getString : Json → Except ShapeFault String
  | .string value => .ok value
  | other => .error (.wrongKind other .string)

end KeyedPaths
