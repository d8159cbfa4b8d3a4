import KeyedPaths.Schema

/-!
# Structural paths of entries

No names lead to a root, and the names that lead to a child are those that lead
to its parent, followed by its own.  Adding entries to a schema changes neither
the number nor the names of an entry that is present.
-/

namespace KeyedPaths

namespace Schema

variable {schema extended : Schema} {id parent : Nat}

theorem exists_get?_of_lt (inUse : id < schema.size) :
    ∃ entry, schema.get? id = some entry :=
  ⟨schema.entries[id], Array.getElem?_eq_getElem inUse⟩

theorem lt_size_of_get? {entry : Entry}
    (isEntry : schema.get? id = some entry) : id < schema.size :=
  (Array.getElem?_eq_some_iff.1 isEntry).1

theorem getElem?_toList_entries (schema : Schema) (id : Nat) :
    schema.entries.toList[id]? = schema.get? id :=
  Array.getElem?_toList

theorem ancestors_of_parent?_eq_none (noParent : schema.parent? id = none) :
    schema.ancestors id = [id] := by
  rw [ancestors]
  split
  next => rfl
  next other isParent =>
    rw [noParent] at isParent
    cases isParent

theorem ancestors_of_parent?_eq_some
    (isParent : schema.parent? id = some parent) :
    schema.ancestors id = id :: schema.ancestors parent := by
  rw [ancestors]
  split
  next noParent =>
    rw [noParent] at isParent
    cases isParent
  next other isOther =>
    rw [isParent] at isOther
    cases isOther
    rfl

theorem pathNames_of_root {name : String}
    (isRoot : schema.get? id = some (.root name)) :
    schema.pathNames id = [] := by
  have noParent : schema.parent? id = none := by
    rw [parent?, isRoot]
    rfl
  rw [pathNames, ancestors_of_parent?_eq_none noParent]
  simp [isRoot, Entry.pathName?]

theorem pathNames_of_child {name : String} {key : Option String}
    (isChild : schema.get? id = some (.child parent name key)) :
    schema.pathNames id = schema.pathNames parent ++ [name] := by
  have isParent : schema.parent? id = some parent := by
    rw [parent?, isChild]
    rfl
  rw [pathNames, ancestors_of_parent?_eq_some isParent, List.reverse_cons,
    List.filterMap_append]
  simp [pathNames, isChild, Entry.pathName?]

theorem exists_entry_of_mem_pathNames {name : String}
    (isMember : name ∈ schema.pathNames id) :
    ∃ above entry, schema.get? above = some entry ∧ entry.name = name := by
  obtain ⟨above, -, isName⟩ := List.mem_filterMap.1 isMember
  obtain ⟨entry, isEntry, isPathName⟩ := Option.bind_eq_some_iff.1 isName
  cases entry with
  | root rootName => cases isPathName
  | child parent childName key =>
      exact ⟨above, _, isEntry, Option.some.inj isPathName⟩

/-- The name of an entry.  A number that is not in use has the empty name. -/
def entryName (schema : Schema) (id : Nat) : String :=
  ((schema.get? id).map Entry.name).getD ""

theorem entryName_of_get? {entry : Entry}
    (isEntry : schema.get? id = some entry) :
    schema.entryName id = entry.name := by
  rw [entryName, isEntry]
  rfl

/-- Every entry of a schema has the same number in an extended one. -/
def Extends (schema extended : Schema) : Prop :=
  ∀ id entry, schema.get? id = some entry → extended.get? id = some entry

theorem Extends.refl (schema : Schema) : schema.Extends schema :=
  fun _ _ isEntry => isEntry

theorem Extends.trans {further : Schema} (first : schema.Extends extended)
    (second : extended.Extends further) : schema.Extends further :=
  fun id entry isEntry => second id entry (first id entry isEntry)

theorem Extends.get?_eq (isExtended : schema.Extends extended)
    (inUse : id < schema.size) : extended.get? id = schema.get? id := by
  obtain ⟨entry, isEntry⟩ := exists_get?_of_lt inUse
  rw [isEntry, isExtended id entry isEntry]

theorem Extends.parent?_eq (isExtended : schema.Extends extended)
    (inUse : id < schema.size) : extended.parent? id = schema.parent? id := by
  rw [parent?, isExtended.get?_eq inUse, ← parent?]

theorem Extends.entryName_eq (isExtended : schema.Extends extended)
    (inUse : id < schema.size) :
    extended.entryName id = schema.entryName id := by
  rw [entryName, isExtended.get?_eq inUse, ← entryName]

/-- The names that lead to an entry do not depend on what is added later. -/
theorem Extends.pathNames_eq (isExtended : schema.Extends extended)
    (inUse : id < schema.size) :
    extended.pathNames id = schema.pathNames id := by
  induction id using Nat.strongRecOn with
  | ind id ih =>
      obtain ⟨entry, isEntry⟩ := exists_get?_of_lt inUse
      have stillEntry := isExtended id entry isEntry
      cases entry with
      | root name =>
          rw [pathNames_of_root isEntry, pathNames_of_root stillEntry]
      | child parent name key =>
          have isParent : schema.parent? id = some parent := by
            rw [parent?, isEntry]
            rfl
          have isBefore : parent < id := parent?_lt isParent
          rw [pathNames_of_child isEntry, pathNames_of_child stillEntry,
            ih parent isBefore (Nat.lt_trans isBefore inUse)]

/-- What adding an entry under the next number leaves behind. -/
structure AddsEntry (schema : Schema) (entry : Entry) (extended : Schema) :
    Prop where
  size_eq : extended.size = schema.size + 1
  isExtended : schema.Extends extended
  isEntry : extended.get? schema.size = some entry

theorem Extends.lt_size (isExtended : schema.Extends extended)
    (inUse : id < schema.size) : id < extended.size := by
  obtain ⟨entry, isEntry⟩ := exists_get?_of_lt inUse
  exact lt_size_of_get? (isExtended id entry isEntry)

namespace AddsEntry

theorem lt_size {entry : Entry}
    (addsEntry : schema.AddsEntry entry extended) :
    schema.size < extended.size :=
  lt_size_of_get? addsEntry.isEntry

theorem pathNames_child {name : String} {key : Option String}
    (addsChild : schema.AddsEntry (.child parent name key) extended)
    (parentInUse : parent < schema.size) :
    extended.pathNames schema.size = schema.pathNames parent ++ [name] := by
  rw [pathNames_of_child addsChild.isEntry,
    addsChild.isExtended.pathNames_eq parentInUse]

end AddsEntry

theorem addsEntry_push {entry : Entry}
    (parentPresent : ∀ parent, entry.parent? = some parent →
      parent < schema.size) :
    schema.AddsEntry entry (schema.push entry parentPresent) where
  size_eq := size_push
  isExtended := by
    intro id other isOther
    have isOld : id ≠ schema.size := Nat.ne_of_lt (lt_size_of_get? isOther)
    rw [get?_push, if_neg isOld, isOther]
  isEntry := by
    rw [get?_push, if_pos rfl]

theorem addsEntry_addRoot (schema : Schema) (name : String) :
    schema.AddsEntry (.root name) (schema.addRoot name) :=
  addsEntry_push _

theorem addsEntry_addChild {name : String} {key : Option String}
    (isAdded : schema.addChild parent name key = .ok extended) :
    parent < schema.size ∧
      schema.AddsEntry (.child parent name key) extended := by
  unfold addChild at isAdded
  split at isAdded
  next parentPresent =>
    cases isAdded
    exact ⟨parentPresent, addsEntry_push _⟩
  next => cases isAdded

end Schema

end KeyedPaths
