import KeyedPaths.NodeDefinition
import KeyedPaths.Proofs.Ancestry

/-!
# The sweep over the entries

The definitions of a schema are listed by a sweep from its last entry to its
first one, which takes the definitions of children out of their slots.  They are
the definitions that a recursion from the roots gives.

When the sweep has finished the entries from some number on, each of them is
found in one place: in its own slot as long as its parent is not finished, and in
the definition of its parent from then on.
-/

namespace KeyedPaths

namespace Schema

/-- The definition of an entry.  A number that is not in use gives the
definition with the empty name. -/
def definition (schema : Schema) (id : Nat) : NodeDefinition :=
  { name := ((schema.get? id).map Entry.name).getD ""
    key := (schema.get? id).bind Entry.key?
    children := (schema.children id).attach.map fun ⟨child, isChild⟩ =>
      have _ : id < child := parent?_lt (mem_children.1 isChild)
      have _ : child < schema.size :=
        lt_size_of_parent? (mem_children.1 isChild)
      schema.definition child }
termination_by schema.size - id

theorem definition_eq (schema : Schema) (id : Nat) :
    schema.definition id =
      ⟨((schema.get? id).map Entry.name).getD "",
        (schema.get? id).bind Entry.key?,
        (schema.children id).map schema.definition⟩ := by
  rw [definition]
  exact congrArg _ List.attach_map_val

theorem nodup_children (schema : Schema) (id : Nat) :
    (schema.children id).Nodup :=
  List.nodup_range.filter _

theorem nodup_roots (schema : Schema) : schema.roots.Nodup :=
  List.nodup_range.filter _

section ChildLists

variable {schema : Schema} {id parent : Nat}

theorem getElem?_listChild (schema : Schema) (lists : Array (List Nat))
    (id parent : Nat) :
    (schema.listChild lists id)[parent]? =
      if schema.parent? id = some parent then lists[parent]?.map (· ++ [id])
      else lists[parent]? := by
  rw [listChild]
  cases isParent : schema.parent? id with
  | none => simp
  | some other =>
      dsimp only
      rw [Array.getElem?_modify]
      simp [eq_comm]

/-- Among the entries that have been passed, every list has those below its
entry. -/
theorem getElem?_foldl_listChild (schema : Schema) (ids : List Nat)
    (lists : Array (List Nat)) (parent : Nat) :
    (ids.foldl schema.listChild lists)[parent]? =
      lists[parent]?.map
        (· ++ ids.filter fun id => schema.parent? id = some parent) := by
  induction ids generalizing lists with
  | nil => simp
  | cons id ids ih =>
      rw [List.foldl_cons, ih, getElem?_listChild]
      by_cases isChild : schema.parent? id = some parent
      · simp [isChild, Function.comp_def]
      · simp [isChild]

theorem getD_childLists (inUse : id < schema.size) :
    schema.childLists.getD id [] = schema.children id := by
  rw [Array.getD_eq_getD_getElem?, childLists, getElem?_foldl_listChild,
    Array.getElem?_replicate, if_pos inUse]
  rfl

end ChildLists

section Taking

variable {slots : Array (Option NodeDefinition)} {ids : List Nat}

theorem size_takeDefinitions (slots : Array (Option NodeDefinition))
    (ids : List Nat) : (takeDefinitions slots ids).2.size = slots.size := by
  induction ids generalizing slots with
  | nil => rfl
  | cons id ids ih => rw [takeDefinitions, ih, Array.size_setIfInBounds]

/-- The slots of the entries are emptied, and no others. -/
theorem getElem?_takeDefinitions (slots : Array (Option NodeDefinition))
    (ids : List Nat) (number : Nat) :
    (takeDefinitions slots ids).2[number]? =
      if number ∈ ids then slots[number]?.map fun _ => none
      else slots[number]? := by
  induction ids generalizing slots with
  | nil => simp [takeDefinitions]
  | cons id ids ih =>
      rw [takeDefinitions, ih]
      by_cases isTaken : id = number
      · subst isTaken
        by_cases inSlots : id < slots.size <;> simp [inSlots]
      · simp [Array.getElem?_setIfInBounds_ne isTaken, Ne.symm isTaken]

/-- The taken definitions stand in the order of the entries. -/
theorem takeDefinitions_eq_map {definition : Nat → NodeDefinition}
    (nodup : ids.Nodup)
    (areHeld : ∀ id ∈ ids, slots[id]? = some (some (definition id))) :
    (takeDefinitions slots ids).1 = ids.map definition := by
  induction ids generalizing slots with
  | nil => rfl
  | cons id ids ih =>
      rw [List.nodup_cons] at nodup
      rw [List.forall_mem_cons] at areHeld
      have laterHeld : ∀ later ∈ ids,
          (slots.setIfInBounds id none)[later]? =
            some (some (definition later)) := by
        intro later isLater
        have isOther : id ≠ later := by
          rintro rfl
          exact nodup.1 isLater
        rw [Array.getElem?_setIfInBounds_ne isOther, areHeld.2 later isLater]
      rw [takeDefinitions, areHeld.1, ih nodup.2 laterHeld]
      rfl

end Taking

variable {schema : Schema} {bound id parent : Nat}

/-- What the slot of an entry holds when the entries from a bound on are
finished: the definition of the entry, until its parent is finished too. -/
def held (schema : Schema) (bound id : Nat) : Option NodeDefinition :=
  if bound ≤ id ∧ ∀ parent ∈ schema.parent? id, parent < bound then
    some (schema.definition id)
  else none

theorem held_self (schema : Schema) (id : Nat) :
    schema.held id id = some (schema.definition id) :=
  if_pos ⟨Nat.le_refl id, fun _ isParent => parent?_lt isParent⟩

theorem held_eq_none_of_lt (isEarlier : id < bound) :
    schema.held bound id = none :=
  if_neg fun isHeld => Nat.not_le.2 isEarlier isHeld.1

theorem held_zero_of_root (isRoot : schema.parent? id = none) :
    schema.held 0 id = some (schema.definition id) := by
  rw [held, isRoot]
  simp

/-- A child waits in its slot for its parent. -/
theorem held_succ_of_parent? (isParent : schema.parent? id = some parent) :
    schema.held (parent + 1) id = some (schema.definition id) := by
  have isLater := parent?_lt isParent
  rw [held, isParent]
  simp [Nat.succ_le_of_lt isLater]

theorem held_of_parent? (isParent : schema.parent? id = some parent) :
    schema.held parent id = none := by
  rw [held, isParent]
  simp

/-- Finishing an entry concerns no slots but its own and those of its
children. -/
theorem held_succ_of_ne (isOther : id ≠ bound)
    (notChild : schema.parent? id ≠ some bound) :
    schema.held (bound + 1) id = schema.held bound id := by
  have sameParents : (∀ parent ∈ schema.parent? id, parent < bound + 1) ↔
      ∀ parent ∈ schema.parent? id, parent < bound := by
    refine forall₂_congr fun parent isParent => ?_
    have notBound : parent ≠ bound := by
      rintro rfl
      exact notChild isParent
    omega
  have sameBound : bound + 1 ≤ id ↔ bound ≤ id := by omega
  rw [held, held]
  simp only [sameParents, sameBound]

/-- All slots when the entries from a bound on are finished. -/
def heldFrom (schema : Schema) (bound : Nat) : Array (Option NodeDefinition) :=
  (Array.range schema.size).map (schema.held bound)

theorem size_heldFrom (schema : Schema) (bound : Nat) :
    (schema.heldFrom bound).size = schema.size := by
  rw [heldFrom, Array.size_map, Array.size_range]

theorem getElem?_heldFrom (schema : Schema) (bound id : Nat) :
    (schema.heldFrom bound)[id]? =
      if id < schema.size then some (schema.held bound id) else none := by
  rw [heldFrom, Array.getElem?_map, Array.getElem?_range]
  split <;> rfl

theorem getElem?_heldFrom_of_mem_children
    (isChild : id ∈ schema.children bound) :
    (schema.heldFrom (bound + 1))[id]? =
      some (some (schema.definition id)) := by
  have isParent := mem_children.1 isChild
  rw [getElem?_heldFrom, if_pos (lt_size_of_parent? isParent),
    held_succ_of_parent? isParent]

/-- Before the sweep all slots are empty. -/
theorem heldFrom_size (schema : Schema) :
    schema.heldFrom schema.size = .replicate schema.size none := by
  refine Array.ext (by simp [heldFrom]) fun id inSlots _ => ?_
  have inUse : id < schema.size := by rwa [size_heldFrom] at inSlots
  simp [heldFrom, held_eq_none_of_lt inUse]

/-- An entry takes the definitions of all its children, in their order. -/
theorem takeDefinitions_children (schema : Schema) (bound : Nat) :
    (takeDefinitions (schema.heldFrom (bound + 1))
        (schema.children bound)).1 =
      (schema.children bound).map schema.definition :=
  takeDefinitions_eq_map (nodup_children schema bound) fun _ =>
    getElem?_heldFrom_of_mem_children

/-- With the definitions of its children taken, only the slot of the entry itself
is left to be filled. -/
theorem getElem?_takeDefinitions_children (isOther : id ≠ bound) :
    (takeDefinitions (schema.heldFrom (bound + 1))
        (schema.children bound)).2[id]? = (schema.heldFrom bound)[id]? := by
  rw [getElem?_takeDefinitions]
  by_cases isChild : id ∈ schema.children bound
  · have isParent := mem_children.1 isChild
    rw [if_pos isChild, getElem?_heldFrom_of_mem_children isChild,
      getElem?_heldFrom, if_pos (lt_size_of_parent? isParent),
      held_of_parent? isParent]
    rfl
  · rw [if_neg isChild, getElem?_heldFrom, getElem?_heldFrom,
      held_succ_of_ne isOther (mt mem_children.2 isChild)]

/-- When all entries behind an entry are finished, the sweep finishes it. -/
theorem finishDefinition_heldFrom (inUse : bound < schema.size) :
    schema.finishDefinition schema.childLists (schema.heldFrom (bound + 1))
        bound =
      schema.heldFrom bound := by
  obtain ⟨entry, isEntry⟩ := exists_get?_of_lt inUse
  have isDefinition : schema.definition bound =
      ⟨entry.name, entry.key?,
        (schema.children bound).map schema.definition⟩ := by
    rw [definition_eq, isEntry]
    rfl
  rw [finishDefinition, isEntry]
  dsimp only
  rw [getD_childLists inUse, takeDefinitions_children, ← isDefinition]
  refine Array.ext_getElem? fun id => ?_
  by_cases isSelf : id = bound
  · subst isSelf
    rw [Array.getElem?_setIfInBounds_self, size_takeDefinitions, size_heldFrom,
      getElem?_heldFrom, held_self]
  · rw [Array.getElem?_setIfInBounds_ne (Ne.symm isSelf),
      getElem?_takeDefinitions_children isSelf]

/-- The slots when the sweep has come from the last entry down to a bound. -/
theorem foldl_finishDefinition {count : Nat}
    (isSplit : bound + count = schema.size) :
    (List.range' bound count).reverse.foldl
        (schema.finishDefinition schema.childLists)
        (.replicate schema.size none) =
      schema.heldFrom bound := by
  induction count generalizing bound with
  | zero =>
      obtain rfl : bound = schema.size := isSplit
      exact (heldFrom_size schema).symm
  | succ count ih =>
      have isNext : bound + 1 + count = schema.size := by omega
      have inUse : bound < schema.size := by omega
      rw [List.range'_succ, List.reverse_cons, List.foldl_append, ih isNext,
        List.foldl_cons, List.foldl_nil, finishDefinition_heldFrom inUse]

theorem finishedDefinitions_eq (schema : Schema) :
    schema.finishedDefinitions = schema.heldFrom 0 := by
  rw [finishedDefinitions, ids, List.range_eq_range',
    foldl_finishDefinition (Nat.zero_add _)]

/-- The sweep lists the definitions of the roots. -/
theorem definitions_eq (schema : Schema) :
    schema.definitions = schema.roots.map schema.definition := by
  rw [definitions, finishedDefinitions_eq]
  refine takeDefinitions_eq_map (nodup_roots schema) fun root isRoot => ?_
  obtain ⟨inUse, noParent⟩ := mem_roots.1 isRoot
  rw [getElem?_heldFrom, if_pos inUse, held_zero_of_root noParent]

end Schema

end KeyedPaths
