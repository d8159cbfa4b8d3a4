import KeyedPaths.JsonReader
import KeyedPaths.JsonText
import KeyedPaths.NodeDefinition
import KeyedPaths.ShapeFault

/-!
# Schema documents

A schema document is a JSON value that holds one node definition or a list of
them.  A node is an object with the fields `name`, `key` and `children`, of
which only the name is required, or the list of these fields in this order.

The fields of an object are visited in ascending order of their names, and the
first fault ends the reading.  Only when the shape of the whole document is
right does it become a schema, which can still fail at an empty name.
-/

namespace KeyedPaths

def nodeShape : RecordShape where
  name := "SchemaNodeDef"
  fields := ["name", "key", "children"]

/-- The fields of a node as far as they have been visited. -/
structure NodeFields where
  name? : Option String
  key : Option String
  children : List NodeDefinition

def NodeFields.unset : NodeFields where
  name? := none
  key := none
  children := []

namespace NodeDefinition

/-- A key specification, which may be null. -/
def keyOfJson : Json → Except ShapeFault (Option String)
  | .null => .ok none
  | value => value.getString.map some

mutual

def ofJson : Json → Except ShapeFault NodeDefinition
  | .object members => do
      let fields ← visitFields .unset members
      match fields.name? with
      | none => .error (.missingField "name")
      | some name => .ok ⟨name, fields.key, fields.children⟩
  | .array [] => .error (.noFields nodeShape)
  | .array [name] => do
      let name ← name.getString
      .ok ⟨name, none, []⟩
  | .array [name, key] => do
      let name ← name.getString
      let key ← keyOfJson key
      .ok ⟨name, key, []⟩
  | .array (name :: key :: children :: more) => do
      let name ← name.getString
      let key ← keyOfJson key
      let children ← childrenOfJson children
      if more.isEmpty then .ok ⟨name, key, children⟩
      else .error (.tooManyFields (more.length + 3))
  | other => .error (.wrongKind other (.record nodeShape))

def visitFields (fields : NodeFields) :
    List (String × Json) → Except ShapeFault NodeFields
  | [] => .ok fields
  | (field, value) :: rest => do
      if field = "name" then
        let name ← value.getString
        visitFields { fields with name? := some name } rest
      else if field = "key" then
        let key ← keyOfJson value
        visitFields { fields with key := key } rest
      else if field = "children" then
        let children ← childrenOfJson value
        visitFields { fields with children := children } rest
      else .error (.unknownField field nodeShape)

def childrenOfJson : Json → Except ShapeFault (List NodeDefinition)
  | .array elements => listOfJson elements
  | other => .error (.wrongKind other .list)

def listOfJson : List Json → Except ShapeFault (List NodeDefinition)
  | [] => .ok []
  | element :: rest => do
      let node ← ofJson element
      let nodes ← listOfJson rest
      .ok (node :: nodes)

end

/-- The nodes of a document, whose members are in normal form. -/
def documentOfJson : Json → Except ShapeFault (List NodeDefinition)
  | .array elements => listOfJson elements
  | value => do
      let node ← ofJson value
      .ok [node]

mutual

/-- A node as an object that leaves out a missing key and missing children. -/
def toJson : NodeDefinition → Json
  | ⟨name, key, children⟩ =>
      .object (("name", .string name) ::
        ((key.toList.map fun key => ("key", Json.string key)) ++
          if children.isEmpty then []
          else [("children", .array (listToJson children))]))

def listToJson : List NodeDefinition → List Json
  | [] => []
  | node :: nodes => node.toJson :: listToJson nodes

end

end NodeDefinition

inductive DocumentError where
  /-- The text of the document is no JSON text. -/
  | text (error : Json.TextError)
  /-- The document has the wrong shape. -/
  | shape (fault : ShapeFault)
  /-- The nodes of the document make no schema. -/
  | schema (error : SchemaError)

def DocumentError.message : DocumentError → String
  | .text error => s!"invalid schema document: {error.message}"
  | .shape fault => s!"invalid schema document: {fault.message}"
  | .schema error => error.message

namespace Schema

def ofJson (document : Json) : Except DocumentError Schema := do
  let nodes ←
    (NodeDefinition.documentOfJson document.normalize).mapError .shape
  (ofDefinitions nodes).mapError .schema

def ofText (text : String) : Except DocumentError Schema := do
  let document ← (Json.ofText text).mapError .text
  ofJson document

/-- The document of a schema, with the fields of every node in the order name,
key, children. -/
def toJson (schema : Schema) : Json :=
  .array (NodeDefinition.listToJson schema.definitions)

end Schema

end KeyedPaths
