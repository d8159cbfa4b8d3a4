import Mathlib.Data.List.Nodup
import Mathlib.Data.Nat.Init
import KeyedPaths.Proofs.Ancestry

/-!
# The pre-order of a schema

The pre-order lists an entry before everything below it, and all below one child
before the next child; roots and children stand in the order of their addition.
It lists every entry once.

Entries are added in pre-order exactly if the parent of every entry is found on
the walk from the entry that was added just before it to the root.
-/

namespace KeyedPaths

namespace Schema

/-- An entry and everything below it in pre-order. -/
def subtree (schema : Schema) (id : Nat) : List Nat :=
  id :: (schema.children id).attach.flatMap fun ⟨child, isChild⟩ =>
    have _ : id < child := parent?_lt (mem_children.1 isChild)
    have _ : child < schema.size :=
      lt_size_of_parent? (mem_children.1 isChild)
    schema.subtree child
termination_by schema.size - id

theorem subtree_eq (schema : Schema) (id : Nat) :
    schema.subtree id = id :: (schema.children id).flatMap schema.subtree := by
  rw [subtree]
  simp only [List.flatMap_subtype, List.unattach_attach]

def preorder (schema : Schema) : List Nat :=
  schema.roots.flatMap schema.subtree

variable {schema : Schema} {id : Nat}

/-- What holds of an entry if it holds of its children holds of all entries,
because children come later. -/
theorem children_induction (schema : Schema) {motive : Nat → Prop}
    (step : ∀ id, (∀ child ∈ schema.children id, motive child) → motive id)
    (id : Nat) : motive id := by
  induction isLeft : schema.size - id using Nat.strongRecOn generalizing id with
  | ind left ih =>
      refine step id fun child isChild => ih _ ?_ child rfl
      have isLater := parent?_lt (mem_children.1 isChild)
      have inUse := lt_size_of_parent? (mem_children.1 isChild)
      omega

theorem mem_subtree {descendant : Nat} :
    descendant ∈ schema.subtree id ↔ id ∈ schema.ancestors descendant := by
  induction id using children_induction schema with
  | step id ih =>
      rw [subtree_eq, List.mem_cons, List.mem_flatMap, mem_ancestors_iff_child]
      refine or_congr_right (exists_congr fun child => ?_)
      exact and_congr_right fun isChild => ih child isChild

theorem children_ascending (schema : Schema) (id : Nat) :
    (schema.children id).Pairwise (· < ·) :=
  List.Pairwise.filter _ List.pairwise_lt_range

theorem roots_ascending (schema : Schema) : schema.roots.Pairwise (· < ·) :=
  List.Pairwise.filter _ List.pairwise_lt_range

/-- Entries with one parent, or roots, head disjoint parts of the pre-order. -/
theorem nodup_flatMap_subtree {siblings : List Nat}
    (ascending : siblings.Pairwise (· < ·))
    (sameParent : ∀ first ∈ siblings, ∀ second ∈ siblings,
      schema.parent? first = schema.parent? second)
    (nodup : ∀ sibling ∈ siblings, (schema.subtree sibling).Nodup) :
    (siblings.flatMap schema.subtree).Nodup := by
  refine List.pairwise_flatMap.2 ⟨nodup, ?_⟩
  refine ascending.imp_of_mem ?_
  rintro first second isFirst isSecond isBefore id isBelowFirst _ isBelowSecond
    rfl
  have isSame := eq_of_parent?_eq (sameParent first isFirst second isSecond)
    (mem_subtree.1 isBelowFirst) (mem_subtree.1 isBelowSecond)
  omega

theorem parent?_eq_of_mem_children {parent first second : Nat}
    (isFirst : first ∈ schema.children parent)
    (isSecond : second ∈ schema.children parent) :
    schema.parent? first = schema.parent? second := by
  rw [mem_children.1 isFirst, mem_children.1 isSecond]

theorem parent?_eq_of_mem_roots {first second : Nat}
    (isFirst : first ∈ schema.roots) (isSecond : second ∈ schema.roots) :
    schema.parent? first = schema.parent? second := by
  rw [(mem_roots.1 isFirst).2, (mem_roots.1 isSecond).2]

theorem lt_of_mem_subtree_child {child descendant : Nat}
    (isChild : child ∈ schema.children id)
    (isBelow : descendant ∈ schema.subtree child) : id < descendant :=
  Nat.lt_of_lt_of_le (parent?_lt (mem_children.1 isChild))
    (le_of_mem_ancestors (mem_subtree.1 isBelow))

theorem nodup_subtree (schema : Schema) (id : Nat) :
    (schema.subtree id).Nodup := by
  induction id using children_induction schema with
  | step id ih =>
      rw [subtree_eq, List.nodup_cons, List.mem_flatMap]
      constructor
      · rintro ⟨child, isChild, isBelow⟩
        exact Nat.lt_irrefl id (lt_of_mem_subtree_child isChild isBelow)
      · exact nodup_flatMap_subtree (children_ascending schema id)
          (fun _ isFirst _ => parent?_eq_of_mem_children isFirst) ih

theorem mem_preorder : id ∈ schema.preorder ↔ id < schema.size := by
  rw [preorder, List.mem_flatMap]
  constructor
  · rintro ⟨root, isRoot, isBelow⟩
    exact lt_size_of_mem_ancestors (mem_subtree.1 isBelow)
      (mem_roots.1 isRoot).1
  · intro inUse
    obtain ⟨root, isRoot, isAbove⟩ := exists_root_mem_ancestors inUse
    exact ⟨root, isRoot, mem_subtree.2 isAbove⟩

theorem nodup_preorder (schema : Schema) : schema.preorder.Nodup :=
  nodup_flatMap_subtree (roots_ascending schema)
    (fun _ isFirst _ => parent?_eq_of_mem_roots isFirst)
    fun root _ => nodup_subtree schema root

/-- The pre-order lists every entry once. -/
theorem preorder_perm_ids (schema : Schema) :
    schema.preorder.Perm schema.ids := by
  refine (List.perm_ext_iff_of_nodup (nodup_preorder schema)
    List.nodup_range).2 fun id => ?_
  rw [mem_preorder, List.mem_range]

theorem length_preorder (schema : Schema) :
    schema.preorder.length = schema.size := by
  rw [(preorder_perm_ids schema).length_eq, ids, List.length_range]

/-- What lies below an entry stands together in the pre-order. -/
theorem subtree_infix_preorder (inUse : id < schema.size) :
    schema.subtree id <:+: schema.preorder := by
  induction id using Nat.strongRecOn with
  | ind id ih =>
      cases isParent : schema.parent? id with
      | none =>
          exact List.infix_of_mem_flatten
            (List.mem_map_of_mem (mem_roots.2 ⟨inUse, isParent⟩))
      | some parent =>
          have isBefore := parent?_lt isParent
          have isInfix : schema.subtree id <:+: schema.subtree parent := by
            rw [subtree_eq schema parent]
            exact List.infix_cons (List.infix_of_mem_flatten
              (List.mem_map_of_mem (mem_children.2 isParent)))
          exact isInfix.trans
            (ih parent isBefore (Nat.lt_trans isBefore inUse))

/-- The parent of every entry is above the entry with the number before, or is
this entry itself. -/
def InOrder (schema : Schema) : Prop :=
  ∀ id parent, schema.parent? id = some parent →
    parent ∈ schema.ancestors (id - 1)

/-- If entries are added in pre-order, an entry stays on the walks of those that
follow it until the last one below it has been added. -/
theorem InOrder.mem_ancestors_of_between (inOrder : schema.InOrder)
    {above between below : Nat} (isAbove : above ∈ schema.ancestors below)
    (isAfter : above ≤ between) (isBefore : between ≤ below) :
    above ∈ schema.ancestors between := by
  induction below, isBefore using Nat.le_induction with
  | base => exact isAbove
  | succ below isBefore ih =>
      apply ih
      rcases mem_ancestors_iff.1 isAbove with isSame | ⟨parent, isParent, isLater⟩
      · omega
      · exact mem_ancestors_trans isLater (inOrder _ _ isParent)

theorem InOrder.ascending_flatMap_subtree (inOrder : schema.InOrder)
    {siblings : List Nat} (ascending : siblings.Pairwise (· < ·))
    (sameParent : ∀ first ∈ siblings, ∀ second ∈ siblings,
      schema.parent? first = schema.parent? second)
    (eachAscends : ∀ sibling ∈ siblings,
      (schema.subtree sibling).Pairwise (· < ·)) :
    (siblings.flatMap schema.subtree).Pairwise (· < ·) := by
  refine List.pairwise_flatMap.2 ⟨eachAscends, ?_⟩
  refine ascending.imp_of_mem ?_
  intro first second isFirst isSecond isBefore id isBelowFirst other
    isBelowSecond
  have isLater := le_of_mem_ancestors (mem_subtree.1 isBelowSecond)
  -- An entry below the first one that came after the second one would put the
  -- second one below the first.
  by_contra notBefore
  have isPassed := inOrder.mem_ancestors_of_between
    (mem_subtree.1 isBelowFirst) (Nat.le_of_lt isBefore) (by omega)
  have isSame := eq_of_mem_ancestors
    (sameParent first isFirst second isSecond) isPassed
  omega

theorem InOrder.ascending_subtree (inOrder : schema.InOrder) (id : Nat) :
    (schema.subtree id).Pairwise (· < ·) := by
  induction id using children_induction schema with
  | step id ih =>
      rw [subtree_eq, List.pairwise_cons]
      constructor
      · intro descendant isBelow
        obtain ⟨child, isChild, isBelowChild⟩ := List.mem_flatMap.1 isBelow
        exact lt_of_mem_subtree_child isChild isBelowChild
      · exact inOrder.ascending_flatMap_subtree (children_ascending schema id)
          (fun _ isFirst _ => parent?_eq_of_mem_children isFirst) ih

/-- A part of a range holds all numbers between any two that it holds. -/
theorem mem_of_infix_range {part : List Nat} {bound first last between : Nat}
    (isPart : part <:+: List.range bound) (isFirst : first ∈ part)
    (isLast : last ∈ part) (isAfter : first ≤ between)
    (isBefore : between ≤ last) : between ∈ part := by
  have inRange : last < bound := List.mem_range.1 (isPart.subset isLast)
  have isMember : between ∈ List.range bound := List.mem_range.2 (by omega)
  have ascending : (List.range bound).Pairwise (· < ·) :=
    List.pairwise_lt_range
  obtain ⟨before, after, isSplit⟩ := isPart
  rw [← isSplit, List.append_assoc] at isMember ascending
  obtain ⟨-, laterAscending, beforeLater⟩ := List.pairwise_append.1 ascending
  rcases List.mem_append.1 isMember with inBefore | inLater
  · have tooEarly := beforeLater between inBefore first
      (List.mem_append_left after isFirst)
    omega
  · rcases List.mem_append.1 inLater with inPart | inAfter
    · exact inPart
    · have tooLate := (List.pairwise_append.1 laterAscending).2.2 last isLast
        between inAfter
      omega

/-- The numbers of the entries are their places in the pre-order exactly if the
parent of every entry is above the entry added before it. -/
theorem preorder_eq_ids_iff :
    schema.preorder = schema.ids ↔ schema.InOrder := by
  constructor
  · intro isSame id parent isParent
    have inUse := lt_size_of_parent? isParent
    have isBefore := parent?_lt isParent
    have isPart : schema.subtree parent <:+: schema.ids :=
      isSame ▸ subtree_infix_preorder (Nat.lt_trans isBefore inUse)
    have isBelow : id ∈ schema.subtree parent := mem_subtree.2
      (mem_ancestors_of_parent? isParent (self_mem_ancestors schema parent))
    have isSelf : parent ∈ schema.subtree parent :=
      mem_subtree.2 (self_mem_ancestors schema parent)
    exact mem_subtree.1
      (mem_of_infix_range isPart isSelf isBelow (by omega) (by omega))
  · intro inOrder
    have ascending : schema.preorder.Pairwise (· < ·) :=
      inOrder.ascending_flatMap_subtree (roots_ascending schema)
        (fun _ isFirst _ => parent?_eq_of_mem_roots isFirst)
        fun root _ => inOrder.ascending_subtree root
    exact (preorder_perm_ids schema).eq_of_pairwise
      (fun _ _ _ _ isBefore isAfter =>
        absurd (Nat.lt_trans isBefore isAfter) (Nat.lt_irrefl _))
      ascending List.pairwise_lt_range

end Schema

end KeyedPaths
