import KeyedPaths.Schema

/-!
# Nested definitions

A schema can be written down as nested definitions, each of which holds its
children in order.  Building a schema from definitions adds the nodes in
document order: a node, then everything below its first child, and so on.
Listing the definitions of a schema goes back, with roots and siblings in the
order of their addition.  It is a sweep over the entries that finishes children
before their parent.
-/

namespace KeyedPaths

/-- A node of a schema together with everything below it. -/
structure NodeDefinition where
  name : String
  key : Option String
  children : List NodeDefinition

namespace Schema

mutual

/-- Add a definition and all below it as the last child of an entry. -/
def addNode (schema : Schema) (parent : Nat) (parentName : String) :
    NodeDefinition → Except SchemaError Schema
  | ⟨name, key, children⟩ =>
      if name.isEmpty then .error (.emptyName parentName)
      else do
        let extended ← schema.addChild parent name key
        addNodes extended schema.size name children

def addNodes (schema : Schema) (parent : Nat) (parentName : String) :
    List NodeDefinition → Except SchemaError Schema
  | [] => .ok schema
  | node :: nodes => do
      let extended ← addNode schema parent parentName node
      addNodes extended parent parentName nodes

end

/-- Add a definition as a new root with all below it.  A root has no key
specification, so that of the definition is dropped. -/
def addTree (schema : Schema) (root : NodeDefinition) :
    Except SchemaError Schema :=
  addNodes (schema.addRoot root.name) schema.size root.name root.children

def ofDefinitions (roots : List NodeDefinition) : Except SchemaError Schema :=
  roots.foldlM addTree empty

/-- Put an entry behind the children that its parent has so far. -/
def listChild (schema : Schema) (lists : Array (List Nat)) (id : Nat) :
    Array (List Nat) :=
  match schema.parent? id with
  | none => lists
  | some parent => lists.modify parent (· ++ [id])

/-- The children of every entry, found in one pass over all entries. -/
def childLists (schema : Schema) : Array (List Nat) :=
  schema.ids.foldl schema.listChild (.replicate schema.size [])

/-- Take the definitions out of the slots of some entries, which are empty
afterwards. -/
def takeDefinitions (slots : Array (Option NodeDefinition)) :
    List Nat → List NodeDefinition × Array (Option NodeDefinition)
  | [] => ([], slots)
  | id :: ids =>
      let later := takeDefinitions (slots.setIfInBounds id none) ids
      (slots[id]?.join.toList ++ later.1, later.2)

/-- Fill the slot of an entry with its definition, for which the definitions of
its children are taken out of theirs. -/
def finishDefinition (schema : Schema) (lists : Array (List Nat))
    (slots : Array (Option NodeDefinition)) (id : Nat) :
    Array (Option NodeDefinition) :=
  match schema.get? id with
  | none => slots
  | some entry =>
      let taken := takeDefinitions slots (lists.getD id [])
      taken.2.setIfInBounds id (some ⟨entry.name, entry.key?, taken.1⟩)

/-- The slots after a sweep from the last entry to the first one.  Children come
after their parent, so they are finished before it takes their definitions. -/
def finishedDefinitions (schema : Schema) : Array (Option NodeDefinition) :=
  schema.ids.reverse.foldl (schema.finishDefinition schema.childLists)
    (.replicate schema.size none)

def definitions (schema : Schema) : List NodeDefinition :=
  (takeDefinitions schema.finishedDefinitions schema.roots).1

end Schema

end KeyedPaths
