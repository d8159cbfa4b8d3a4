import KeyedPaths.WhiteSpace
import KeyedPaths.StructuralPath

/-!
# Schemas

A schema is a forest of named entries.  An entry is identified by its position
in the order of addition, and a child names its parent by that number, which is
always smaller than its own.  Every walk towards a root therefore ends, and an
entry never changes its place when others are added.

Roots stand for whole documents: their names never appear in structural paths,
and they carry no key specification.
-/

namespace KeyedPaths

/-- An entry of a schema.  The key specification of a child lists key names
separated by white space. -/
inductive Entry where
  | root (name : String)
  | child (parent : Nat) (name : String) (key : Option String)
deriving DecidableEq

namespace Entry

def name : Entry → String
  | .root name => name
  | .child _ name _ => name

def parent? : Entry → Option Nat
  | .root _ => none
  | .child parent _ _ => some parent

def key? : Entry → Option String
  | .root _ => none
  | .child _ _ key => key

def isRoot : Entry → Bool
  | .root _ => true
  | .child .. => false

/-- The name that an entry contributes to structural paths. -/
def pathName? : Entry → Option String
  | .root _ => none
  | .child _ name _ => some name

/-- The key names in the order of the specification, repetitions included. -/
def keyNames (entry : Entry) : List String :=
  match entry.key? with
  | none => []
  | some specification => words specification

/-- Whether the specification lists a key name: some character of it is not
white space. -/
def isKeyed (entry : Entry) : Bool :=
  match entry.key? with
  | none => false
  | some specification =>
      specification.toList.any fun char => !isWhiteSpace char

theorem parent?_eq_some_iff {entry : Entry} {parent : Nat} :
    entry.parent? = some parent ↔
      ∃ name key, entry = .child parent name key := by
  cases entry <;> simp [parent?]

end Entry

/-- A forest of entries in the order of their addition. -/
structure Schema where
  entries : Array Entry
  /-- A parent is added before its children. -/
  parent_lt : ∀ {id parent : Nat},
    entries[id]?.bind Entry.parent? = some parent → parent < id
deriving DecidableEq

inductive SchemaError where
  | unknownParent (id : Nat)
  /-- An entry below an entry of the given name has the empty name. -/
  | emptyName (parentName : String)
deriving DecidableEq

def SchemaError.message : SchemaError → String
  | .unknownParent id => s!"unknown parent entry #{id}"
  | .emptyName parentName => s!"entry under {parentName} has an empty name"

namespace Schema

def empty : Schema where
  entries := #[]
  parent_lt := by simp

theorem ext_entries {first second : Schema}
    (sameEntries : first.entries = second.entries) : first = second := by
  cases first
  cases second
  cases sameEntries
  rfl

/-- The number of entries, which is the number that the next one gets. -/
def size (schema : Schema) : Nat :=
  schema.entries.size

def ids (schema : Schema) : List Nat :=
  List.range schema.size

def get? (schema : Schema) (id : Nat) : Option Entry :=
  schema.entries[id]?

def parent? (schema : Schema) (id : Nat) : Option Nat :=
  (schema.get? id).bind Entry.parent?

theorem parent?_lt {schema : Schema} {id parent : Nat}
    (isParent : schema.parent? id = some parent) : parent < id :=
  schema.parent_lt isParent

theorem lt_size_of_parent? {schema : Schema} {id parent : Nat}
    (isParent : schema.parent? id = some parent) : id < schema.size := by
  obtain ⟨entry, isEntry, -⟩ := Option.bind_eq_some_iff.1 isParent
  exact (Array.getElem?_eq_some_iff.1 isEntry).1

/-- Add an entry whose parent, if it has one, is present. -/
def push (schema : Schema) (entry : Entry)
    (parentPresent : ∀ parent, entry.parent? = some parent →
      parent < schema.size) : Schema where
  entries := schema.entries.push entry
  parent_lt := by
    intro id parent isParent
    rw [Array.getElem?_push] at isParent
    split at isParent
    next isNew => exact isNew ▸ parentPresent parent isParent
    next => exact schema.parent_lt isParent

/-- Add a root, under the number `schema.size`. -/
def addRoot (schema : Schema) (name : String) : Schema :=
  schema.push (.root name) (by simp [Entry.parent?])

/-- Add a child of an entry, under the number `schema.size`. -/
def addChild (schema : Schema) (parent : Nat) (name : String)
    (key : Option String) : Except SchemaError Schema :=
  if parentPresent : parent < schema.size then
    .ok (schema.push (.child parent name key) (by
      intro other isParent
      cases isParent
      exact parentPresent))
  else .error (.unknownParent parent)

@[simp]
theorem size_empty : empty.size = 0 :=
  rfl

@[simp]
theorem get?_empty (id : Nat) : empty.get? id = none := by
  simp [get?, empty]

section Push

variable {schema : Schema} {entry : Entry}
  {parentPresent : ∀ parent, entry.parent? = some parent →
    parent < schema.size}

@[simp]
theorem size_push :
    (schema.push entry parentPresent).size = schema.size + 1 := by
  simp [push, size]

@[simp]
theorem get?_push (id : Nat) :
    (schema.push entry parentPresent).get? id =
      if id = schema.size then some entry else schema.get? id :=
  Array.getElem?_push

end Push

@[simp]
theorem size_addRoot (schema : Schema) (name : String) :
    (schema.addRoot name).size = schema.size + 1 :=
  size_push

theorem addChild_eq_ok_iff {schema extended : Schema} {parent : Nat}
    {name : String} {key : Option String} :
    schema.addChild parent name key = .ok extended ↔
      parent < schema.size ∧ extended.entries =
        schema.entries.push (.child parent name key) := by
  unfold addChild
  split
  next parentPresent =>
    constructor
    · rintro ⟨⟩
      exact ⟨parentPresent, rfl⟩
    · rintro ⟨-, sameEntries⟩
      exact congrArg Except.ok (ext_entries sameEntries.symm)
  next parentMissing => simp [parentMissing]

def roots (schema : Schema) : List Nat :=
  schema.ids.filter fun id => (schema.get? id).any Entry.isRoot

/-- The children of an entry in the order of addition.  A number that is not
in use has none. -/
def children (schema : Schema) (parent : Nat) : List Nat :=
  schema.ids.filter fun id => schema.parent? id = some parent

/-- The entries that list at least one key name, in the order of addition. -/
def keyedIds (schema : Schema) : List Nat :=
  schema.ids.filter fun id => (schema.get? id).any Entry.isKeyed

theorem mem_children {schema : Schema} {parent id : Nat} :
    id ∈ schema.children parent ↔ schema.parent? id = some parent := by
  simp only [children, ids, List.mem_filter, List.mem_range,
    decide_eq_true_eq, and_iff_right_iff_imp]
  exact lt_size_of_parent?

/-- The walk from an entry to its root, both included.  From a number that is
not in use the walk does not move. -/
def ancestors (schema : Schema) (id : Nat) : List Nat :=
  match isParent : schema.parent? id with
  | none => [id]
  | some parent =>
      have _ : parent < id := parent?_lt isParent
      id :: schema.ancestors parent
termination_by id

/-- The names from just below the root down to an entry. -/
def pathNames (schema : Schema) (id : Nat) : List String :=
  (schema.ancestors id).reverse.filterMap fun ancestor =>
    (schema.get? ancestor).bind Entry.pathName?

/-- The text of the names from just below the root down to an entry. -/
def structuralPath (schema : Schema) (id : Nat) : String :=
  StructuralPath.ofNames (schema.pathNames id)

end Schema

end KeyedPaths
