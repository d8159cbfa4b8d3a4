import KeyedPaths.Proofs.Ancestry
import KeyedPaths.Proofs.Growth
import KeyedPaths.Proofs.ListedEntries
import KeyedPaths.Proofs.NameMatching

/-!
# Structural paths and lines of descent

The structural path of an entry is read off the walk to its root.  Downwards it
grows by one name at every child.  Nothing that is added to a schema changes the
walk from an earlier entry, nor its path or its key names.  Where no name holds
a slash, the path determines the names on the walk below the root, the empty
ones included.
-/

namespace KeyedPaths

open StructuralPath

namespace Schema

/-- The names on the walk from an entry to its root, the root left out. -/
def namesBelowRoot (schema : Schema) (id : Nat) : List String :=
  (schema.ancestors id).dropLast.map schema.entryName

variable {schema extended : Schema} {id parent : Nat} {name : String}
  {key : Option String}

theorem structuralPath_of_root (isRoot : schema.get? id = some (.root name)) :
    schema.structuralPath id = "" := by
  rw [structuralPath, pathNames_of_root isRoot, ofNames_nil]

theorem structuralPath_of_child
    (isChild : schema.get? id = some (.child parent name key)) :
    schema.structuralPath id = schema.structuralPath parent ++ "/" ++ name := by
  rw [structuralPath, pathNames_of_child isChild, ofNames_append_singleton,
    extend, ← structuralPath]

theorem ancestors_ne_nil (schema : Schema) (id : Nat) :
    schema.ancestors id ≠ [] :=
  List.ne_nil_of_mem (self_mem_ancestors schema id)

theorem namesBelowRoot_of_root
    (isRoot : schema.get? id = some (.root name)) :
    schema.namesBelowRoot id = [] := by
  have noParent : schema.parent? id = none := by
    rw [parent?, isRoot]
    rfl
  rw [namesBelowRoot, ancestors_of_parent?_eq_none noParent]
  rfl

theorem namesBelowRoot_of_child
    (isChild : schema.get? id = some (.child parent name key)) :
    schema.namesBelowRoot id = name :: schema.namesBelowRoot parent := by
  rw [namesBelowRoot,
    ancestors_of_parent?_eq_some (parent?_of_child isChild),
    List.dropLast_cons_of_ne_nil (ancestors_ne_nil schema parent),
    List.map_cons, entryName_of_get? isChild, ← namesBelowRoot, Entry.name]

/-- The names that lead to an entry, from the entry upwards. -/
theorem reverse_pathNames (inUse : id < schema.size) :
    (schema.pathNames id).reverse = schema.namesBelowRoot id := by
  induction id using Nat.strongRecOn with
  | ind id ih =>
      obtain ⟨entry, isEntry⟩ := exists_get?_of_lt inUse
      cases entry with
      | root name =>
          rw [pathNames_of_root isEntry, namesBelowRoot_of_root isEntry,
            List.reverse_nil]
      | child parent name key =>
          have isBefore := parent?_lt (parent?_of_child isEntry)
          have parentNames := ih parent isBefore (Nat.lt_trans isBefore inUse)
          rw [pathNames_of_child isEntry, namesBelowRoot_of_child isEntry,
            List.reverse_append, parentNames]
          rfl

/-- Without slashes in names, structural paths stand for the names on the walks
below the roots. -/
theorem structuralPath_eq_iff
    (entriesFree : ∀ id entry,
      schema.get? id = some entry → SlashFree entry.name) {first second : Nat}
    (firstInUse : first < schema.size) (secondInUse : second < schema.size) :
    schema.structuralPath first = schema.structuralPath second ↔
      schema.namesBelowRoot first = schema.namesBelowRoot second := by
  rw [← reverse_pathNames firstInUse, ← reverse_pathNames secondInUse,
    List.reverse_inj]
  constructor
  · exact ofNames_injective (slashFree_pathNames entriesFree)
      (slashFree_pathNames entriesFree)
  · exact congrArg ofNames

section Extension

theorem Extends.ancestors_eq (isExtended : schema.Extends extended)
    (inUse : id < schema.size) :
    extended.ancestors id = schema.ancestors id := by
  induction id using Nat.strongRecOn with
  | ind id ih =>
      have sameParent := isExtended.parent?_eq inUse
      cases isParent : schema.parent? id with
      | none =>
          rw [ancestors_of_parent?_eq_none isParent,
            ancestors_of_parent?_eq_none (sameParent.trans isParent)]
      | some parent =>
          have isBefore := parent?_lt isParent
          rw [ancestors_of_parent?_eq_some isParent,
            ancestors_of_parent?_eq_some (sameParent.trans isParent),
            ih parent isBefore (Nat.lt_trans isBefore inUse)]

theorem Extends.structuralPath_eq (isExtended : schema.Extends extended)
    (inUse : id < schema.size) :
    extended.structuralPath id = schema.structuralPath id := by
  rw [structuralPath, isExtended.pathNames_eq inUse, ← structuralPath]

theorem Extends.keyNames_eq (isExtended : schema.Extends extended)
    (inUse : id < schema.size) : extended.keyNames id = schema.keyNames id := by
  rw [keyNames, isExtended.get?_eq inUse, ← keyNames]

end Extension

/-- The structural path of a root is empty, and that of a child is its parent's
with a slash and its own name behind it.  Requests change neither the walk
from an earlier entry nor its structural path nor its key names.  If no name
holds a slash, then two structural paths are equal exactly if the names on the
two walks below the roots are. -/
theorem structuralPath_by_ancestors (schema : Schema) :
    (∀ id name, schema.get? id = some (.root name) →
        schema.structuralPath id = "") ∧
      (∀ id parent name key,
        schema.get? id = some (.child parent name key) →
        schema.structuralPath id =
          schema.structuralPath parent ++ "/" ++ name) ∧
      (∀ additions : List Addition, ∀ id < schema.size,
        (schema.addAll additions).ancestors id = schema.ancestors id ∧
          (schema.addAll additions).structuralPath id =
            schema.structuralPath id ∧
          (schema.addAll additions).keyNames id = schema.keyNames id) ∧
      ((∀ id entry, schema.get? id = some entry → SlashFree entry.name) →
        ∀ first < schema.size, ∀ second < schema.size,
          (schema.structuralPath first = schema.structuralPath second ↔
            schema.namesBelowRoot first = schema.namesBelowRoot second)) := by
  refine ⟨fun _ _ => structuralPath_of_root,
    fun _ _ _ _ => structuralPath_of_child, fun additions id inUse => ?_,
    fun entriesFree _ firstInUse _ secondInUse =>
      structuralPath_eq_iff entriesFree firstInUse secondInUse⟩
  have isExtended := extends_addAll schema additions
  exact ⟨isExtended.ancestors_eq inUse, isExtended.structuralPath_eq inUse,
    isExtended.keyNames_eq inUse⟩

/-- Empty names below two roots. -/
def blankSchema : Schema :=
  empty.addAll [.root "left", .child 0 "" none, .child 1 "" (some "x y"),
    .root "right", .child 3 "" none]

theorem blankSchema_structuralPath :
    blankSchema.get? 3 = some (.root "right") ∧
      blankSchema.structuralPath 3 = "" ∧
      blankSchema.get? 2 = some (.child 1 "" (some "x y")) ∧
      blankSchema.structuralPath 2 =
        blankSchema.structuralPath 1 ++ "/" ++ "" ∧
      (blankSchema.addAll [.child 2 "box" none]).keyNames 2 = ["x", "y"] ∧
      blankSchema.structuralPath 1 = blankSchema.structuralPath 4 ∧
      blankSchema.structuralPath 1 ≠ blankSchema.structuralPath 2 := by
  have isRoot : blankSchema.get? 3 = some (.root "right") := by decide +kernel
  have isChild : blankSchema.get? 2 = some (.child 1 "" (some "x y")) := by
    decide +kernel
  have isSize : blankSchema.size = 5 := by decide +kernel
  have entriesFree (id : Nat) (entry : Entry)
      (isEntry : blankSchema.get? id = some entry) : SlashFree entry.name := by
    have allFree : ∀ other ∈ blankSchema.entries.toList,
        SlashFree other.name := by decide +kernel
    rw [← getElem?_toList_entries] at isEntry
    exact allFree entry (List.mem_of_getElem? isEntry)
  obtain ⟨ofRoot, ofChild, sameAfter, pathsEqIff⟩ :=
    structuralPath_by_ancestors blankSchema
  have sameKeys :=
    (sameAfter [.child 2 "box" none] 2 (by rw [isSize]; decide)).2.2
  refine ⟨isRoot, ofRoot _ _ isRoot, isChild, ofChild _ _ _ _ isChild,
    ?_, ?_, ?_⟩
  · rw [sameKeys]
    decide +kernel
  · rw [pathsEqIff entriesFree 1 (by rw [isSize]; decide) 4
      (by rw [isSize]; decide)]
    decide +kernel
  · rw [Ne, pathsEqIff entriesFree 1 (by rw [isSize]; decide) 2
      (by rw [isSize]; decide)]
    decide +kernel

end Schema

end KeyedPaths
