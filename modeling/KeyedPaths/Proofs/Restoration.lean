import KeyedPaths.Proofs.DefinitionSweep
import KeyedPaths.Proofs.PendingNodes
import KeyedPaths.Proofs.Preorder

/-!
# Listing what has been built

A schema that has been built from nested definitions lists the same definitions
again, in the same order.  Only the key specifications of the roots are lost.
The building adds the entries in pre-order, from a stack as well as by recursion,
and the listing sweeps over them in the reverse order.
-/

namespace KeyedPaths

open NodeDefinition

namespace Schema

/-- The children of an entry, or the roots, in the order of addition. -/
def siblings (schema : Schema) (place : Option Nat) : List Nat :=
  schema.ids.filter fun id => schema.parent? id = place

theorem siblings_some (schema : Schema) (parent : Nat) :
    schema.siblings (some parent) = schema.children parent :=
  rfl

theorem siblings_none (schema : Schema) :
    schema.siblings none = schema.roots := by
  refine List.filter_congr fun id isId => ?_
  obtain ⟨entry, isEntry⟩ := exists_get?_of_lt (List.mem_range.1 isId)
  rw [parent?, isEntry]
  cases entry <;> rfl

/-- The number that the next entry gets has no children yet. -/
theorem children_size (schema : Schema) : schema.children schema.size = [] := by
  rw [List.eq_nil_iff_forall_not_mem]
  intro child isChild
  have isLater := parent?_lt (mem_children.1 isChild)
  have inUse := lt_size_of_parent? (mem_children.1 isChild)
  omega

variable {schema next extended : Schema} {place : Option Nat} {id : Nat}

theorem Extends.size_le (isExtended : schema.Extends extended) :
    schema.size ≤ extended.size := by
  by_contra isShorter
  exact Nat.lt_irrefl _ (isExtended.lt_size (Nat.lt_of_not_le isShorter))

theorem AddsEntry.siblings_eq {entry : Entry}
    (addsEntry : schema.AddsEntry entry extended) (place : Option Nat) :
    extended.siblings place = schema.siblings place ++
      if entry.parent? = place then [schema.size] else [] := by
  have sameSiblings : (schema.ids.filter fun id => extended.parent? id = place) =
      schema.siblings place := by
    refine List.filter_congr fun id isId => ?_
    rw [addsEntry.isExtended.parent?_eq (List.mem_range.1 isId)]
  have newParent : extended.parent? schema.size = entry.parent? := by
    rw [parent?, addsEntry.isEntry]
    rfl
  rw [siblings, ids, addsEntry.size_eq, List.range_succ, List.filter_append,
    ← ids, sameSiblings, List.filter_singleton, newParent]
  simp

/-- A place for siblings: below an entry that is present, or among the roots. -/
def IsPlace (schema : Schema) (place : Option Nat) : Prop :=
  ∀ id, place = some id → id < schema.size

theorem Extends.isPlace (isExtended : schema.Extends extended)
    (isPlace : schema.IsPlace place) : extended.IsPlace place :=
  fun id isId => isExtended.lt_size (isPlace id isId)

/-- Definitions have been added behind the children of an entry, or behind the
roots: the added entries list these definitions, and the pre-order numbers all
that is below them without a gap. -/
structure AddsSiblings (schema : Schema) (place : Option Nat)
    (definitions : List NodeDefinition) (extended : Schema)
    (added : List Nat) : Prop where
  isExtended : schema.Extends extended
  siblings_eq : extended.siblings place = schema.siblings place ++ added
  others_eq : ∀ other, schema.IsPlace other → other ≠ place →
    extended.siblings other = schema.siblings other
  definitions_eq : added.map extended.definition = definitions
  numbers_eq : added.flatMap extended.subtree =
    List.range' schema.size (extended.size - schema.size)

/-- From a number on, the entries of a schema have got no further children. -/
def KeepsChildren (schema extended : Schema) (start : Nat) : Prop :=
  ∀ id, start ≤ id → id < schema.size →
    extended.children id = schema.children id

namespace KeepsChildren

variable {start : Nat} (keepsChildren : schema.KeepsChildren extended start)

include keepsChildren

/-- What an entry lists depends on nothing but what is below it. -/
theorem definition_eq (isExtended : schema.Extends extended)
    (isAfter : start ≤ id) (inUse : id < schema.size) :
    extended.definition id = schema.definition id := by
  induction id using children_induction schema with
  | step id ih =>
      obtain ⟨entry, isEntry⟩ := exists_get?_of_lt inUse
      have sameChildren : (schema.children id).map extended.definition =
          (schema.children id).map schema.definition := by
        refine List.map_congr_left fun child isChild => ih child isChild ?_ ?_
        · have isLater := parent?_lt (mem_children.1 isChild)
          omega
        · exact lt_size_of_parent? (mem_children.1 isChild)
      rw [Schema.definition_eq, Schema.definition_eq,
        keepsChildren id isAfter inUse, isEntry, isExtended id entry isEntry,
        sameChildren]

theorem subtree_eq (isAfter : start ≤ id) (inUse : id < schema.size) :
    extended.subtree id = schema.subtree id := by
  induction id using children_induction schema with
  | step id ih =>
      rw [Schema.subtree_eq, Schema.subtree_eq,
        keepsChildren id isAfter inUse]
      refine congrArg _ (List.flatMap_congr fun child isChild =>
        ih child isChild ?_ ?_)
      · have isLater := parent?_lt (mem_children.1 isChild)
        omega
      · exact lt_size_of_parent? (mem_children.1 isChild)

end KeepsChildren

namespace AddsSiblings

variable {definitions : List NodeDefinition} {added : List Nat}

theorem nil (schema : Schema) (place : Option Nat) :
    schema.AddsSiblings place [] schema [] where
  isExtended := Extends.refl schema
  siblings_eq := (List.append_nil _).symm
  others_eq := fun _ _ _ => rfl
  definitions_eq := rfl
  numbers_eq := by rw [Nat.sub_self]; rfl

theorem mem_bounds (adds : schema.AddsSiblings place definitions extended added)
    (isAdded : id ∈ added) : schema.size ≤ id ∧ id < extended.size := by
  have isListed : id ∈ added.flatMap extended.subtree :=
    List.mem_flatMap.2 ⟨id, isAdded, mem_subtree.2 (self_mem_ancestors _ _)⟩
  have isGrown := adds.isExtended.size_le
  rw [adds.numbers_eq, List.mem_range'_1] at isListed
  omega

/-- Definitions that are added one after the other stay next to each other. -/
theorem append {first second : List NodeDefinition}
    {firstAdded secondAdded : List Nat}
    (addsFirst : schema.AddsSiblings place first next firstAdded)
    (addsSecond : next.AddsSiblings place second extended secondAdded)
    (isPlace : schema.IsPlace place) :
    schema.AddsSiblings place (first ++ second) extended
      (firstAdded ++ secondAdded) := by
  have keepsChildren : next.KeepsChildren extended schema.size := by
    intro id isAfter inUse
    have isOther : some id ≠ place := fun isSame => by
      have isBefore := isPlace id isSame.symm
      omega
    refine addsSecond.others_eq (some id) ?_ isOther
    rintro _ ⟨⟩
    exact inUse
  have firstGrown := addsFirst.isExtended.size_le
  have secondGrown := addsSecond.isExtended.size_le
  refine ⟨addsFirst.isExtended.trans addsSecond.isExtended, ?_, ?_, ?_, ?_⟩
  · rw [addsSecond.siblings_eq, addsFirst.siblings_eq, List.append_assoc]
  · intro other isOther notPlace
    rw [addsSecond.others_eq other (addsFirst.isExtended.isPlace isOther)
      notPlace, addsFirst.others_eq other isOther notPlace]
  · rw [List.map_append, addsSecond.definitions_eq, ← addsFirst.definitions_eq]
    refine congrArg (· ++ second) (List.map_congr_left fun id isAdded => ?_)
    exact keepsChildren.definition_eq addsSecond.isExtended
      (addsFirst.mem_bounds isAdded).1 (addsFirst.mem_bounds isAdded).2
  · have sameSubtrees : firstAdded.flatMap extended.subtree =
        firstAdded.flatMap next.subtree :=
      List.flatMap_congr fun id isAdded =>
        keepsChildren.subtree_eq (addsFirst.mem_bounds isAdded).1
          (addsFirst.mem_bounds isAdded).2
    have isNext : next.size = schema.size + (next.size - schema.size) := by
      omega
    have isTotal : next.size - schema.size + (extended.size - next.size) =
        extended.size - schema.size := by
      omega
    rw [List.flatMap_append, sameSubtrees, addsFirst.numbers_eq,
      addsSecond.numbers_eq, ← isTotal, ← List.range'_append_1, ← isNext]

end AddsSiblings

/-- An entry that is added together with its children lists a definition with
these children. -/
theorem AddsEntry.addsSiblings {entry : Entry}
    {definitions : List NodeDefinition} {added : List Nat}
    (addsEntry : schema.AddsEntry entry next)
    (addsChildren :
      next.AddsSiblings (some schema.size) definitions extended added)
    (isPlace : schema.IsPlace entry.parent?) :
    schema.AddsSiblings entry.parent?
      [⟨entry.name, entry.key?, definitions⟩] extended [schema.size] := by
  have isEntry := addsChildren.isExtended _ entry addsEntry.isEntry
  have notNew : ∀ other, schema.IsPlace other → other ≠ some schema.size :=
    fun other isOther isNew => Nat.lt_irrefl _ (isOther schema.size isNew)
  have keepsOthers : ∀ other, schema.IsPlace other →
      extended.siblings other = next.siblings other := fun other isOther =>
    addsChildren.others_eq other (addsEntry.isExtended.isPlace isOther)
      (notNew other isOther)
  have isChildren : extended.children schema.size = added := by
    rw [← siblings_some, addsChildren.siblings_eq, addsEntry.siblings_eq,
      if_neg (notNew _ isPlace), siblings_some, children_size]
    rfl
  have isTotal : extended.size - schema.size =
      extended.size - next.size + 1 := by
    have isGrown := addsChildren.isExtended.size_le
    have isNext := addsEntry.size_eq
    omega
  refine ⟨addsEntry.isExtended.trans addsChildren.isExtended, ?_, ?_, ?_, ?_⟩
  · rw [keepsOthers _ isPlace, addsEntry.siblings_eq, if_pos rfl]
  · intro other isOther notParent
    rw [keepsOthers _ isOther, addsEntry.siblings_eq,
      if_neg notParent.symm, List.append_nil]
  · rw [List.map_singleton, definition_eq, isEntry, isChildren,
      addsChildren.definitions_eq]
    rfl
  · rw [List.flatMap_singleton, subtree_eq, isChildren,
      addsChildren.numbers_eq, isTotal, List.range'_succ, addsEntry.size_eq]

mutual

theorem addsSiblings_addNode {schema extended : Schema} {parent : Nat}
    {parentName : String} : (node : NodeDefinition) → parent < schema.size →
      addNode schema parent parentName node = .ok extended →
        ∃ added, schema.AddsSiblings (some parent) [node] extended added
  | ⟨name, key, children⟩, parentInUse, isAdded => by
      rw [addNode] at isAdded
      split at isAdded
      next => cases isAdded
      next =>
        obtain ⟨next, isNext, isRun⟩ := bind_eq_ok_iff.1 isAdded
        have addsChild := (addsEntry_addChild isNext).2
        obtain ⟨added, addsChildren⟩ :=
          addsSiblings_addNodes children addsChild.lt_size isRun
        refine ⟨_, addsChild.addsSiblings addsChildren ?_⟩
        rintro _ ⟨⟩
        exact parentInUse

theorem addsSiblings_addNodes {schema extended : Schema} {parent : Nat}
    {parentName : String} : (definitions : List NodeDefinition) →
      parent < schema.size →
        addNodes schema parent parentName definitions = .ok extended →
          ∃ added,
            schema.AddsSiblings (some parent) definitions extended added
  | [], _, isAdded => by
      rw [addNodes] at isAdded
      cases isAdded
      exact ⟨[], .nil schema _⟩
  | node :: rest, parentInUse, isAdded => by
      rw [addNodes] at isAdded
      obtain ⟨next, isNext, isRun⟩ := bind_eq_ok_iff.1 isAdded
      obtain ⟨first, addsNode⟩ := addsSiblings_addNode node parentInUse isNext
      obtain ⟨second, addsRest⟩ := addsSiblings_addNodes rest
        (addsNode.isExtended.lt_size parentInUse) isRun
      refine ⟨first ++ second, addsNode.append addsRest ?_⟩
      rintro _ ⟨⟩
      exact parentInUse

end

/-- A definition as the schema keeps it when it becomes a root. -/
def rootDefinition (root : NodeDefinition) : NodeDefinition :=
  { root with key := none }

theorem addsSiblings_addTree {root : NodeDefinition}
    (isAdded : addTree schema root = .ok extended) :
    ∃ added,
      schema.AddsSiblings none [rootDefinition root] extended added := by
  have addsRoot := addsEntry_addRoot schema root.name
  obtain ⟨added, addsChildren⟩ :=
    addsSiblings_addNodes root.children addsRoot.lt_size isAdded
  exact ⟨_, addsRoot.addsSiblings addsChildren (by rintro _ ⟨⟩)⟩

theorem addsSiblings_foldlM_addTree {roots : List NodeDefinition}
    (isAdded : roots.foldlM addTree schema = .ok extended) :
    ∃ added,
      schema.AddsSiblings none (roots.map rootDefinition) extended added := by
  induction roots generalizing schema with
  | nil =>
      cases isAdded
      exact ⟨[], .nil _ _⟩
  | cons root roots ih =>
      obtain ⟨next, isNext, isRun⟩ := foldlM_cons_eq_ok_iff.1 isAdded
      obtain ⟨first, addsTree⟩ := addsSiblings_addTree isNext
      obtain ⟨second, addsRest⟩ := ih isRun
      exact ⟨_, addsTree.append addsRest (by rintro _ ⟨⟩)⟩

section OfDefinitions

variable {roots : List NodeDefinition}
  (isLoaded : ofDefinitions roots = .ok schema)

include isLoaded

theorem definitions_of_ofDefinitions :
    schema.definitions = roots.map rootDefinition := by
  obtain ⟨added, addsAll⟩ := addsSiblings_foldlM_addTree isLoaded
  rw [definitions_eq, ← siblings_none, addsAll.siblings_eq,
    ← addsAll.definitions_eq]
  rfl

/-- Building adds the entries in pre-order. -/
theorem preorder_of_ofDefinitions : schema.preorder = schema.ids := by
  obtain ⟨added, addsAll⟩ := addsSiblings_foldlM_addTree isLoaded
  have allNumbers := addsAll.numbers_eq
  rw [size_empty, Nat.sub_zero, ← List.range_eq_range'] at allNumbers
  rw [preorder, ← siblings_none, addsAll.siblings_eq]
  exact allNumbers

end OfDefinitions

/-- Definitions in which no node below a root has the empty name make a schema,
from a stack of pending nodes as well, and the sweep over its entries lists them
again: the same nodes in the same places with the same names and key
specifications, but for the key specifications of the roots. -/
theorem definitions_restored {roots : List NodeDefinition}
    (areNamed : ∀ below ∈ nodesBelow roots, below.name ≠ "") :
    ∃ schema, ofDefinitions roots = .ok schema ∧
      roots.foldlM addTreePending empty = .ok schema ∧
      schema.definitions = roots.map fun root => { root with key := none } := by
  obtain ⟨schema, isLoaded⟩ := (exists_ofDefinitions_iff roots).2 areNamed
  have isBuilt := (foldlM_addTreePending roots).trans isLoaded
  exact ⟨schema, isLoaded, isBuilt, definitions_of_ofDefinitions isLoaded⟩

/-- Two roots with key specifications, and below them nodes of one name, some
with blank key specifications and one with a key specification and children. -/
def keyedRoots : List NodeDefinition :=
  [⟨"r", some "k", [⟨"a", some " ", []⟩,
      ⟨"list", some "k  id", [⟨"a", none, []⟩, ⟨"a", some "", []⟩]⟩]⟩,
    ⟨"", some "", [⟨"list", none, []⟩]⟩]

theorem keyedRoots_restored :
    (∀ below ∈ nodesBelow keyedRoots, below.name ≠ "") ∧
      ∃ schema, ofDefinitions keyedRoots = .ok schema ∧
        keyedRoots.foldlM addTreePending empty = .ok schema ∧
        schema.definitions =
          [⟨"r", none, [⟨"a", some " ", []⟩,
              ⟨"list", some "k  id", [⟨"a", none, []⟩, ⟨"a", some "", []⟩]⟩]⟩,
            ⟨"", none, [⟨"list", none, []⟩]⟩] := by
  have areNamed : ∀ below ∈ nodesBelow keyedRoots, below.name ≠ "" := by
    decide +kernel
  exact ⟨areNamed, definitions_restored areNamed⟩

end Schema

end KeyedPaths
