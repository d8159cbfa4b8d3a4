import KeyedPaths.Proofs.Restoration

/-!
# Rebuilding a schema from its definitions

A schema that is built from the definitions of another one has the same entries,
numbered anew in pre-order.  It is the same schema exactly if the entries of the
other one were added in pre-order already.
-/

namespace KeyedPaths

/-- An entry that names its parent by another number. -/
def Entry.renumber (number : Nat → Nat) : Entry → Entry
  | .root name => .root name
  | .child parent name key => .child (number parent) name key

/-- The items get consecutive numbers from the given one on. -/
def Consecutive (number : Nat → Nat) (items : List Nat) (start : Nat) : Prop :=
  items.map number = List.range' start items.length

section Consecutive

variable {number : Nat → Nat} {start : Nat}

theorem consecutive_cons_iff {item : Nat} {items : List Nat} :
    Consecutive number (item :: items) start ↔
      number item = start ∧ Consecutive number items (start + 1) := by
  rw [Consecutive, List.map_cons, List.length_cons, List.range'_succ,
    List.cons.injEq, Consecutive]

theorem consecutive_append_iff {first second : List Nat} :
    Consecutive number (first ++ second) start ↔
      Consecutive number first start ∧
        Consecutive number second (start + first.length) := by
  induction first generalizing start with
  | nil => simp [Consecutive]
  | cons item items ih =>
      have isNext : start + 1 + items.length =
          start + (item :: items).length := by
        rw [List.length_cons]
        omega
      rw [List.cons_append, consecutive_cons_iff, consecutive_cons_iff, ih,
        isNext, and_assoc]

theorem consecutive_idxOf {items : List Nat} (nodup : items.Nodup) :
    Consecutive items.idxOf items 0 := by
  apply List.ext_getElem
  · simp
  · intro place inItems _
    simp [nodup.idxOf_getElem]

end Consecutive

namespace Schema

open NodeDefinition

variable {schema rebuilt : Schema} {id : Nat}

theorem children_definition (schema : Schema) (id : Nat) :
    (schema.definition id).children =
      (schema.children id).map schema.definition := by
  rw [definition_eq]

/-- The definition of an entry and all below it are those of the entries below
it, in pre-order. -/
theorem nodes_definition (schema : Schema) (id : Nat) :
    (schema.definition id).nodes =
      (schema.subtree id).map schema.definition := by
  induction id using children_induction schema with
  | step id ih =>
      rw [nodes_eq, children_definition, nodesOfAll_eq_flatMap,
        List.flatMap_map, subtree_eq, List.map_cons, List.map_flatMap,
        List.flatMap_congr fun child isChild => ih child isChild]

theorem nodesOfAll_map_definition (schema : Schema) (ids : List Nat) :
    nodesOfAll (ids.map schema.definition) =
      (ids.flatMap schema.subtree).map schema.definition := by
  rw [nodesOfAll_eq_flatMap, List.flatMap_map, List.map_flatMap]
  exact List.flatMap_congr fun id _ => nodes_definition schema id

/-- The entry with the given number, if its parent gets another one. -/
def renumbered? (schema : Schema) (number : Nat → Nat) (id : Nat) :
    Option Entry :=
  (schema.get? id).map (Entry.renumber number)

section Renumbering

variable {number : Nat → Nat} {start : Nat}

theorem number_eq_of_consecutive_subtree
    (consecutive : Consecutive number (schema.subtree id) start) :
    number id = start := by
  rw [subtree_eq, consecutive_cons_iff] at consecutive
  exact consecutive.1

/-- The definitions below an entry give the entries below it, numbered as the
pre-order numbers them. -/
def NumbersBelow (schema : Schema) (number : Nat → Nat) (id : Nat) : Prop :=
  Consecutive number (schema.subtree id) (number id) →
    (entriesOfAll (number id + 1) (number id)
        (schema.definition id).children).map some =
      ((schema.children id).flatMap schema.subtree).map
        (schema.renumbered? number)

theorem map_some_entriesOfAll {parent : Nat} {siblings : List Nat}
    (areChildren : ∀ sibling ∈ siblings, schema.parent? sibling = some parent)
    (numbersBelow : ∀ sibling ∈ siblings, schema.NumbersBelow number sibling)
    (consecutive : Consecutive number (siblings.flatMap schema.subtree) start) :
    (entriesOfAll start (number parent)
        (siblings.map schema.definition)).map some =
      (siblings.flatMap schema.subtree).map (schema.renumbered? number) := by
  induction siblings generalizing start with
  | nil => rfl
  | cons sibling siblings ih =>
      rw [List.forall_mem_cons] at areChildren numbersBelow
      rw [List.flatMap_cons, consecutive_append_iff] at consecutive
      obtain ⟨isConsecutive, laterConsecutive⟩ := consecutive
      obtain rfl := number_eq_of_consecutive_subtree isConsecutive
      obtain ⟨name, key, isEntry⟩ := exists_child_of_parent? areChildren.1
      have isRenumbered : schema.renumbered? number sibling =
          some (.child (number parent) name key) := by
        rw [renumbered?, isEntry]
        rfl
      have isDefinition : (schema.definition sibling).name = name ∧
          (schema.definition sibling).key = key := by
        rw [definition_eq, isEntry]
        exact ⟨rfl, rfl⟩
      rw [List.map_cons, entriesOfAll, List.map_append, List.flatMap_cons,
        List.map_append, nodes_definition, List.length_map,
        ih areChildren.2 numbersBelow.2 laterConsecutive, entries_eq,
        List.map_cons, numbersBelow.1 isConsecutive, subtree_eq, List.map_cons,
        isRenumbered, isDefinition.1, isDefinition.2]

theorem numbersBelow (schema : Schema) (number : Nat → Nat) (id : Nat) :
    schema.NumbersBelow number id := by
  induction id using children_induction schema with
  | step id ih =>
      intro consecutive
      rw [subtree_eq, consecutive_cons_iff] at consecutive
      rw [children_definition]
      exact map_some_entriesOfAll (fun _ isChild => mem_children.1 isChild) ih
        consecutive.2

theorem map_some_documentEntries {roots : List Nat}
    (areRoots : ∀ root ∈ roots, root ∈ schema.roots)
    (consecutive : Consecutive number (roots.flatMap schema.subtree) start) :
    (documentEntries start (roots.map schema.definition)).map some =
      (roots.flatMap schema.subtree).map (schema.renumbered? number) := by
  induction roots generalizing start with
  | nil => rfl
  | cons root roots ih =>
      rw [List.forall_mem_cons] at areRoots
      rw [List.flatMap_cons, consecutive_append_iff] at consecutive
      obtain ⟨isConsecutive, laterConsecutive⟩ := consecutive
      obtain rfl := number_eq_of_consecutive_subtree isConsecutive
      obtain ⟨name, isEntry⟩ := exists_root_of_mem_roots areRoots.1
      have isRenumbered : schema.renumbered? number root =
          some (.root name) := by
        rw [renumbered?, isEntry]
        rfl
      have isDefinition : (schema.definition root).name = name := by
        rw [definition_eq, isEntry]
        rfl
      rw [List.map_cons, documentEntries, List.map_append, List.flatMap_cons,
        List.map_append, nodes_definition, List.length_map,
        ih areRoots.2 laterConsecutive, treeEntries, List.map_cons,
        numbersBelow schema number root isConsecutive, subtree_eq,
        List.map_cons, isRenumbered, isDefinition]

end Renumbering

/-- The sweep neither loses an entry nor lists one twice. -/
theorem nodesOfAll_definitions_perm (schema : Schema) :
    (nodesOfAll schema.definitions).Perm
      (schema.ids.map schema.definition) := by
  rw [definitions_eq, nodesOfAll_map_definition, ← preorder]
  exact (preorder_perm_ids schema).map schema.definition

theorem map_definition_roots (schema : Schema) :
    schema.definitions.map rootDefinition = schema.definitions := by
  rw [definitions_eq, List.map_map]
  refine List.map_congr_left fun root isRoot => ?_
  obtain ⟨name, isEntry⟩ := exists_root_of_mem_roots isRoot
  rw [Function.comp_apply, definition_eq, isEntry]
  rfl

/-- The entries that are no roots, each before those below it. -/
theorem nodesBelow_definitions (schema : Schema) :
    nodesBelow schema.definitions =
      (schema.roots.flatMap fun root =>
        (schema.children root).flatMap schema.subtree).map
          schema.definition := by
  rw [nodesBelow, definitions_eq, List.flatMap_map, List.map_flatMap]
  refine List.flatMap_congr fun root _ => ?_
  rw [children_definition, nodesOfAll_map_definition]

theorem mem_below_roots_iff :
    (id ∈ schema.roots.flatMap fun root =>
        (schema.children root).flatMap schema.subtree) ↔
      ∃ parent, schema.parent? id = some parent := by
  simp only [List.mem_flatMap, mem_subtree]
  constructor
  · rintro ⟨root, -, child, isChild, isAbove⟩
    rcases mem_ancestors_iff.1 isAbove with rfl | ⟨parent, isParent, -⟩
    · exact ⟨root, mem_children.1 isChild⟩
    · exact ⟨parent, isParent⟩
  · rintro ⟨parent, isParent⟩
    obtain ⟨root, isRoot, isAbove⟩ :=
      exists_root_mem_ancestors (lt_size_of_parent? isParent)
    rcases mem_ancestors_iff_child.1 isAbove with
      rfl | ⟨child, isChild, isPassed⟩
    · rw [(mem_roots.1 isRoot).2] at isParent
      cases isParent
    · exact ⟨root, isRoot, child, isChild, isPassed⟩

theorem exists_rebuilt_iff (schema : Schema) :
    (∃ rebuilt, ofDefinitions schema.definitions = .ok rebuilt) ↔
      ∀ id entry, schema.get? id = some entry → entry.isRoot = false →
        entry.name ≠ "" := by
  rw [exists_ofDefinitions_iff, nodesBelow_definitions, List.forall_mem_map]
  simp only [mem_below_roots_iff]
  constructor
  · intro areNamed id entry isEntry notRoot
    cases entry with
    | root name => cases notRoot
    | child parent name key =>
        have isNamed := areNamed id ⟨parent, parent?_of_child isEntry⟩
        rwa [definition_eq, isEntry] at isNamed
  · rintro areNamed id ⟨parent, isParent⟩
    obtain ⟨name, key, isEntry⟩ := exists_child_of_parent? isParent
    rw [definition_eq, isEntry]
    exact areNamed id _ isEntry rfl

theorem eq_of_get?_eq {first second : Schema}
    (sameSize : first.size = second.size)
    (sameEntries : ∀ id < second.size, first.get? id = second.get? id) :
    first = second := by
  refine ext_entries (Array.ext_getElem? fun id => ?_)
  by_cases inUse : id < second.size
  · exact sameEntries id inUse
  · have firstUnused : first.entries.size ≤ id := by
      rw [← size, sameSize]
      exact Nat.not_lt.1 inUse
    rw [Array.getElem?_eq_none firstUnused,
      Array.getElem?_eq_none (Nat.not_lt.1 inUse)]

theorem InOrder.idxOf_preorder (inOrder : schema.InOrder)
    (inUse : id < schema.size) : schema.preorder.idxOf id = id := by
  have inRange : id < (List.range schema.size).length := by
    rwa [List.length_range]
  have isNumber := List.nodup_range.idxOf_getElem id inRange
  rwa [List.getElem_range, ← ids, ← preorder_eq_ids_iff.2 inOrder] at isNumber

section Rebuilt

variable (isRebuilt : ofDefinitions schema.definitions = .ok rebuilt)

include isRebuilt

theorem map_some_rebuilt :
    rebuilt.entries.toList.map some =
      schema.preorder.map (schema.renumbered? schema.preorder.idxOf) := by
  rw [entries_ofDefinitions isRebuilt, definitions_eq]
  exact map_some_documentEntries (fun _ isRoot => isRoot)
    (consecutive_idxOf (nodup_preorder schema))

theorem size_rebuilt : rebuilt.size = schema.size := by
  have sameLength := congrArg List.length (map_some_rebuilt isRebuilt)
  rwa [List.length_map, List.length_map, Array.length_toList,
    length_preorder] at sameLength

theorem get?_rebuilt {number : Nat}
    (isPlace : schema.preorder[number]? = some id) :
    rebuilt.get? number =
      (schema.get? id).map (Entry.renumber schema.preorder.idxOf) := by
  have sameEntry := congrArg (·[number]?) (map_some_rebuilt isRebuilt)
  simp only [List.getElem?_map, isPlace, Option.map_some,
    Array.getElem?_toList, Option.map_eq_some_iff] at sameEntry
  obtain ⟨entry, isEntry, isRenumbered⟩ := sameEntry
  rw [get?, isEntry, isRenumbered]
  rfl

theorem definitions_rebuilt : rebuilt.definitions = schema.definitions := by
  rw [definitions_of_ofDefinitions isRebuilt, map_definition_roots]

theorem rebuilt_eq_iff : rebuilt = schema ↔ schema.InOrder := by
  constructor
  · rintro rfl
    exact preorder_eq_ids_iff.1 (preorder_of_ofDefinitions isRebuilt)
  · intro inOrder
    have inIds := preorder_eq_ids_iff.2 inOrder
    refine eq_of_get?_eq (size_rebuilt isRebuilt) fun id inUse => ?_
    have isPlace : schema.preorder[id]? = some id := by
      rw [inIds, ids, List.getElem?_range inUse]
    obtain ⟨entry, isEntry⟩ := exists_get?_of_lt inUse
    rw [get?_rebuilt isRebuilt isPlace, isEntry, Option.map_some]
    cases entry with
    | root name => rfl
    | child parent name key =>
        have isBefore := parent?_lt (parent?_of_child isEntry)
        rw [Entry.renumber,
          inOrder.idxOf_preorder (Nat.lt_trans isBefore inUse)]

end Rebuilt

/-- The sweep over a schema lists the definition of every entry once.  A schema
can be built from the listed definitions, from a stack or by recursion, exactly
if no entry but a root has the empty name.  It then has the same entries, each of
them once, under the numbers that the pre-order gives to them and to their
parents, and it lists the same definitions.  It is the same schema exactly if the
parent of every entry is found above the entry that was added before. -/
theorem rebuilt_from_definitions (schema : Schema) :
    (nodesOfAll schema.definitions).Perm (schema.ids.map schema.definition) ∧
      schema.definitions.foldlM addTreePending empty =
        ofDefinitions schema.definitions ∧
      ((∃ rebuilt, ofDefinitions schema.definitions = .ok rebuilt) ↔
        ∀ id entry, schema.get? id = some entry → entry.isRoot = false →
          entry.name ≠ "") ∧
      ∀ rebuilt, ofDefinitions schema.definitions = .ok rebuilt →
        (schema.preorder.Perm schema.ids ∧ rebuilt.size = schema.size ∧
          ∀ number id, schema.preorder[number]? = some id →
            rebuilt.get? number =
              (schema.get? id).map (Entry.renumber schema.preorder.idxOf)) ∧
        rebuilt.definitions = schema.definitions ∧
        (rebuilt = schema ↔
          ∀ id parent, schema.parent? id = some parent →
            parent ∈ schema.ancestors (id - 1)) := by
  refine ⟨nodesOfAll_definitions_perm schema,
    foldlM_addTreePending schema.definitions, exists_rebuilt_iff schema,
    fun rebuilt isRebuilt => ⟨⟨?_, ?_, ?_⟩, definitions_rebuilt isRebuilt,
      rebuilt_eq_iff isRebuilt⟩⟩
  · exact preorder_perm_ids schema
  · exact size_rebuilt isRebuilt
  · exact fun number id => get?_rebuilt isRebuilt

/-- Two trees whose entries have been added by turns. -/
def interleavedSchema : Schema :=
  ((((empty.addRoot "r").addRoot "s").push (.child 0 "a" none)
    (by rintro _ ⟨⟩; decide)).push (.child 1 "b" (some "k"))
    (by rintro _ ⟨⟩; decide)).push (.child 0 "c" (some "id"))
    (by rintro _ ⟨⟩; decide)

theorem interleavedSchema_rebuilt :
    ∃ rebuilt, ofDefinitions interleavedSchema.definitions = .ok rebuilt ∧
      rebuilt.get? 2 = some (.child 0 "c" (some "id")) ∧
      rebuilt.get? 4 = some (.child 3 "b" (some "k")) ∧
      rebuilt.definitions = interleavedSchema.definitions ∧
      rebuilt ≠ interleavedSchema := by
  have inPreorder : interleavedSchema.preorder = [0, 2, 4, 1, 3] := by
    decide +kernel
  have isBuilt :
      (ofDefinitions interleavedSchema.definitions).isOk = true := by
    decide +kernel
  obtain ⟨rebuilt, isRebuilt⟩ := isOk_iff.1 isBuilt
  obtain ⟨⟨-, -, renumbered⟩, sameDefinitions, same_iff⟩ :=
    (rebuilt_from_definitions interleavedSchema).2.2.2 rebuilt isRebuilt
  rw [inPreorder] at renumbered
  refine ⟨rebuilt, isRebuilt, renumbered 2 4 rfl, renumbered 4 3 rfl,
    sameDefinitions, fun isSame => ?_⟩
  have isAbove := same_iff.1 isSame 2 0 (by decide)
  exact absurd isAbove (by decide +kernel)

end Schema

end KeyedPaths
