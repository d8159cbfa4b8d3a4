import KeyedPaths.JsonText
import KeyedPaths.PathElement
import KeyedPaths.ShapeFault

/-!
# Path documents

A structured path is written as a JSON list of its elements.  An element is an
object with its name and, if it has keys, the object of its keys.  An element
that is read may have other fields as well, and it may be written as the list
of its fields.
-/

namespace KeyedPaths

def elementShape : RecordShape where
  name := "PathElem"
  fields := ["name", "key"]

namespace PathElement

def keysOfJson : Json → Except ShapeFault (StringMap String)
  | .object members =>
      members.foldlM
        (fun keys member => do
          let value ← member.2.getString
          return keys.insert member.1 value)
        .empty
  | other => .error (.wrongKind other .map)

/-- The fields of an element as far as they have been visited. -/
structure Fields where
  name? : Option String
  keys : StringMap String

/-- Visit a member of an object.  Other fields than those of an element are
passed over. -/
def visitField (fields : Fields) (member : String × Json) :
    Except ShapeFault Fields := do
  if member.1 = "name" then
    let name ← member.2.getString
    return { fields with name? := some name }
  else if member.1 = "key" then
    let keys ← keysOfJson member.2
    return { fields with keys := keys }
  else return fields

/-- The element that a value holds, whose members are in normal form. -/
def ofJson : Json → Except ShapeFault PathElement
  | .object members => do
      let fields ← members.foldlM visitField ⟨none, .empty⟩
      match fields.name? with
      | none => .error (.missingField "name")
      | some name => .ok ⟨name, fields.keys⟩
  | .array [] => .error (.noFields elementShape)
  | .array [name] => do
      let name ← name.getString
      .ok (.ofName name)
  | .array (name :: keys :: more) => do
      let name ← name.getString
      let keys ← keysOfJson keys
      if more.isEmpty then .ok ⟨name, keys⟩
      else .error (.tooManyFields (more.length + 2))
  | other => .error (.wrongKind other (.record elementShape))

/-- An element as an object, without a field for the keys if it has none. -/
def toJson (element : PathElement) : Json :=
  .object (("name", .string element.name) ::
    if element.hasKeys then
      [("key", .object (element.keys.bindings.map fun binding =>
        (binding.1, Json.string binding.2)))]
    else [])

end PathElement

namespace Path

def ofJson (document : Json) : Except ShapeFault Path :=
  match document.normalize with
  | .array elements => elements.mapM PathElement.ofJson
  | other => .error (.wrongKind other .list)

def toJson (path : Path) : Json :=
  .array (path.map PathElement.toJson)

end Path

end KeyedPaths
