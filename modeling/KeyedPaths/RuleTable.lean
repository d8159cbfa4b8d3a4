import KeyedPaths.Schema
import KeyedPaths.StringMap

/-!
# Rule tables

A rule says that the entry at a structural path is a keyed list and which key
names it has.  A rule table holds at most one rule for each path.
-/

namespace KeyedPaths

/-- The key names of keyed lists by structural path. -/
structure RuleTable where
  rules : StringMap (List String)
  /-- A rule lists at least one key name. -/
  keyNames_ne_nil : ∀ {path : String} {keyNames : List String},
    rules.get? path = some keyNames → keyNames ≠ []
deriving DecidableEq

inductive RuleError where
  /-- Two keyed entries stand at one structural path. -/
  | duplicatePath (path : String)
  | unknownEntry (id : Nat)
deriving DecidableEq

def RuleError.message : RuleError → String
  | .duplicatePath path => s!"got {path} path multiple times"
  | .unknownEntry id => s!"schema entry #{id} is not in the tree"

namespace RuleTable

def empty : RuleTable where
  rules := .empty
  keyNames_ne_nil := by simp

def keyNames? (table : RuleTable) (path : String) : Option (List String) :=
  table.rules.get? path

def contains (table : RuleTable) (path : String) : Bool :=
  table.rules.contains path

/-- The paths that have a rule, in ascending order of their code points. -/
def paths (table : RuleTable) : List String :=
  table.rules.keys

def size (table : RuleTable) : Nat :=
  table.rules.size

def isEmpty (table : RuleTable) : Bool :=
  table.rules.isEmpty

def insert (table : RuleTable) (path : String) (keyNames : List String)
    (isKeyed : keyNames ≠ []) : RuleTable where
  rules := table.rules.insert path keyNames
  keyNames_ne_nil := by
    intro other names isRule
    rw [StringMap.get?_insert] at isRule
    split at isRule
    · exact Option.some.inj isRule ▸ isKeyed
    · exact table.keyNames_ne_nil isRule

@[simp]
theorem keyNames?_empty (path : String) : empty.keyNames? path = none :=
  rfl

@[simp]
theorem keyNames?_insert (table : RuleTable) (path : String)
    (keyNames : List String) (isKeyed : keyNames ≠ []) (sought : String) :
    (table.insert path keyNames isKeyed).keyNames? sought =
      if sought = path then some keyNames else table.keyNames? sought :=
  StringMap.get?_insert table.rules path keyNames sought

/-- Add the rule of a schema entry.  An entry without key names has none. -/
def addEntry (schema : Schema) (table : RuleTable) (id : Nat) :
    Except RuleError RuleTable :=
  match schema.get? id with
  | none => .error (.unknownEntry id)
  | some entry =>
      if isKeyed : entry.keyNames ≠ [] then
        let path := schema.structuralPath id
        if table.contains path then .error (.duplicatePath path)
        else .ok (table.insert path entry.keyNames isKeyed)
      else .ok table

/-- The rules of the listed entries, which are taken in the given order. -/
def build (schema : Schema) (ids : List Nat) : Except RuleError RuleTable :=
  ids.foldlM (addEntry schema) empty

def ofSchema (schema : Schema) : Except RuleError RuleTable :=
  build schema schema.ids

end RuleTable

end KeyedPaths
