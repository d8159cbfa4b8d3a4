import KeyedPaths.Proofs.DocumentRules
import KeyedPaths.Proofs.Rebuilding

/-!
# The order of entries

A rule table depends on the rules of the entries that it is built from, but
neither on the order nor on the numbers of these entries.  It can therefore be
built from any permutation of them, and a schema that is rebuilt from its own
definitions keeps its table although its entries get new numbers.
-/

namespace KeyedPaths

namespace NodeDefinition

theorem placedNodes_eq (above : List String) (node : NodeDefinition) :
    node.placedNodes above =
      ⟨above ++ [node.name], node.key⟩ ::
        placedNodesOfAll (above ++ [node.name]) node.children := by
  cases node
  rw [placedNodes]

theorem placedNodesOfAll_eq_flatMap (above : List String)
    (nodes : List NodeDefinition) :
    placedNodesOfAll above nodes = nodes.flatMap (placedNodes above) := by
  induction nodes with
  | nil => rfl
  | cons node rest ih => rw [placedNodesOfAll, ih, List.flatMap_cons]

end NodeDefinition

namespace Schema

open NodeDefinition

variable {schema : Schema}

/-- The rules of the nodes below a definition are those of the entries below the
entry that it lists, if this is so for each of its children. -/
theorem filterMap_placedNodesOfAll_children {id : Nat}
    (sameRules : ∀ child ∈ schema.children id,
      ((schema.definition child).placedNodes
          (schema.pathNames id)).filterMap PlacedNode.rule? =
        schema.rules (schema.subtree child)) :
    (placedNodesOfAll (schema.pathNames id)
        (schema.definition id).children).filterMap PlacedNode.rule? =
      schema.rules ((schema.children id).flatMap schema.subtree) := by
  rw [children_definition, placedNodesOfAll_eq_flatMap, List.flatMap_map,
    List.filterMap_flatMap, rules, List.filterMap_flatMap]
  exact List.flatMap_congr sameRules

theorem filterMap_placedNodes_definition {id parent : Nat}
    (isParent : schema.parent? id = some parent) :
    ((schema.definition id).placedNodes (schema.pathNames parent)).filterMap
        PlacedNode.rule? =
      schema.rules (schema.subtree id) := by
  induction id using children_induction schema generalizing parent with
  | step id ih =>
      obtain ⟨name, key, isEntry⟩ := exists_child_of_parent? isParent
      have isDefinition : (schema.definition id).name = name ∧
          (schema.definition id).key = key := by
        rw [definition_eq, isEntry]
        exact ⟨rfl, rfl⟩
      have laterRules := filterMap_placedNodesOfAll_children
        fun child isChild => ih child isChild (mem_children.1 isChild)
      rw [placedNodes_eq, isDefinition.1, isDefinition.2,
        ← pathNames_of_child isEntry, subtree_eq, rules, List.filterMap_cons,
        List.filterMap_cons, rule?_of_child isEntry, laterRules, rules]

/-- The definitions of a schema hold the rules of its entries in pre-order. -/
theorem documentRules_definitions (schema : Schema) :
    documentRules schema.definitions = schema.rules schema.preorder := by
  rw [documentRules, definitions_eq, List.flatMap_map, rules, preorder,
    List.filterMap_flatMap]
  refine List.flatMap_congr fun root isRoot => ?_
  obtain ⟨name, isEntry⟩ := exists_root_of_mem_roots isRoot
  have belowRoot := @filterMap_placedNodesOfAll_children schema root
    fun child isChild =>
      filterMap_placedNodes_definition (mem_children.1 isChild)
  rw [pathNames_of_root isEntry] at belowRoot
  rw [belowRoot, subtree_eq, rules,
    List.filterMap_cons_none (rule?_of_root isEntry)]

theorem rules_rebuilt_perm {rebuilt : Schema}
    (isRebuilt : ofDefinitions schema.definitions = .ok rebuilt) :
    (rebuilt.rules rebuilt.ids).Perm (schema.rules schema.ids) := by
  rw [rules_ofDefinitions isRebuilt, documentRules_definitions]
  exact (preorder_perm_ids schema).filterMap _

end Schema

namespace RuleTable

variable {schema other : Schema} {ids otherIds : List Nat}
  {table : RuleTable}

theorem ext_keyNames? {first second : RuleTable}
    (agree : ∀ path, first.keyNames? path = second.keyNames? path) :
    first = second := by
  have sameRules : first.rules = second.rules := StringMap.ext_get? agree
  cases first
  cases second
  cases sameRules
  rfl

/-- Known entries with the same rules make the same table, in whatever order and
under whatever numbers they are listed. -/
theorem build_of_perm_rules (isBuilt : build schema ids = .ok table)
    (areKnown : ∀ id ∈ otherIds, (other.get? id).isSome)
    (sameRules : (schema.rules ids).Perm (other.rules otherIds)) :
    build other otherIds = .ok table := by
  have distinct := (exists_build_iff.1 ⟨table, isBuilt⟩).2
  obtain ⟨otherTable, isOtherBuilt⟩ := exists_build_iff.2
    ⟨areKnown, (sameRules.map Prod.fst).nodup_iff.1 distinct⟩
  have sameTable : otherTable = table := by
    refine ext_keyNames? fun path => Option.ext fun keyNames => ?_
    rw [keyNames?_eq_some_iff_of_build isOtherBuilt,
      keyNames?_eq_some_iff_of_build isBuilt, sameRules.mem_iff]
  rw [isOtherBuilt, sameTable]

theorem build_of_perm (isBuilt : build schema ids = .ok table)
    (sameEntries : ids.Perm otherIds) : build schema otherIds = .ok table := by
  refine build_of_perm_rules isBuilt (fun id isListed => ?_)
    (sameEntries.filterMap _)
  exact (exists_build_iff.1 ⟨table, isBuilt⟩).1 id
    (sameEntries.mem_iff.2 isListed)

theorem ofSchema_of_perm_rules (isBuilt : ofSchema schema = .ok table)
    (sameRules : (schema.rules schema.ids).Perm (other.rules other.ids)) :
    ofSchema other = .ok table :=
  build_of_perm_rules isBuilt (fun _ isId => isSome_get?_of_mem_ids isId)
    sameRules

/-- Entries that are listed in another order make the same table, or none in
either order.  The same holds of a schema and of the one that is rebuilt from
its definitions, in which the entries have other numbers; if they make no table,
some path is taken twice in both. -/
theorem independent_of_entry_order (schema : Schema) :
    (∀ ids otherIds : List Nat, ids.Perm otherIds →
        (∃ table, build schema ids = .ok table ∧
            build schema otherIds = .ok table) ∨
          ∃ failure otherFailure, build schema ids = .error failure ∧
            build schema otherIds = .error otherFailure) ∧
      ((∀ id entry, schema.get? id = some entry → entry.isRoot = false →
          entry.name ≠ "") →
        ∃ rebuilt, Schema.ofDefinitions schema.definitions = .ok rebuilt ∧
          ((∃ table, ofSchema schema = .ok table ∧
              ofSchema rebuilt = .ok table) ∨
            ∃ path otherPath,
              ofSchema schema = .error (.duplicatePath path) ∧
                ofSchema rebuilt = .error (.duplicatePath otherPath))) := by
  constructor
  · intro ids otherIds sameEntries
    exact both_ok_or_both_error
      (fun _ isBuilt => build_of_perm isBuilt sameEntries)
      (fun _ isBuilt => build_of_perm isBuilt sameEntries.symm)
  · intro areNamed
    obtain ⟨rebuilt, isRebuilt⟩ :=
      (Schema.exists_rebuilt_iff schema).2 areNamed
    have sameRules := Schema.rules_rebuilt_perm isRebuilt
    have sameOutcome := both_ok_or_both_error
      (fun _ isBuilt => ofSchema_of_perm_rules isBuilt sameRules.symm)
      (fun _ isBuilt => ofSchema_of_perm_rules isBuilt sameRules)
    refine ⟨rebuilt, isRebuilt, sameOutcome.imp_right ?_⟩
    rintro ⟨failure, otherFailure, isError, isOtherError⟩
    obtain ⟨path, rfl⟩ := exists_eq_duplicatePath isError
    obtain ⟨otherPath, rfl⟩ := exists_eq_duplicatePath isOtherError
    exact ⟨path, otherPath, isError, isOtherError⟩

/-- Listed in one order, an entry that is unknown and one that is listed twice
give another error than in the other order. -/
theorem interleavedSchema_order :
    (∃ table, build Schema.interleavedSchema [3, 4, 2] = .ok table ∧
        build Schema.interleavedSchema [4, 2, 3] = .ok table) ∧
      (build Schema.interleavedSchema [3, 3, 9] =
          .error (.duplicatePath "/b") ∧
        build Schema.interleavedSchema [9, 3, 3] =
          .error (.unknownEntry 9)) ∧
      ∃ rebuilt table,
        Schema.ofDefinitions Schema.interleavedSchema.definitions =
            .ok rebuilt ∧
          rebuilt ≠ Schema.interleavedSchema ∧
          ofSchema Schema.interleavedSchema = .ok table ∧
          ofSchema rebuilt = .ok table := by
  obtain ⟨permuted, renumbered⟩ :=
    independent_of_entry_order Schema.interleavedSchema
  have listedNamed : ∀ entry ∈ Schema.interleavedSchema.entries,
      entry.isRoot = false → entry.name ≠ "" := by
    decide +kernel
  obtain ⟨rebuilt, isRebuilt, sameOutcome⟩ :=
    renumbered fun _ entry isEntry =>
      listedNamed entry (Array.mem_of_getElem? isEntry)
  have isMoved : rebuilt ≠ Schema.interleavedSchema := by
    intro isSame
    have inOrder := (Schema.rebuilt_eq_iff isRebuilt).1 isSame
    exact absurd (inOrder 2 0 (by decide)) (by decide +kernel)
  refine ⟨?_, by decide +kernel, ?_⟩
  · have isOk : (build Schema.interleavedSchema [3, 4, 2]).isOk = true := by
      decide +kernel
    rcases permuted [3, 4, 2] [4, 2, 3] (by decide) with
      isBuilt | ⟨failure, -, isError, -⟩
    · exact isBuilt
    · rw [isError] at isOk
      cases isOk
  · have isOk : (ofSchema Schema.interleavedSchema).isOk = true := by
      decide +kernel
    rcases sameOutcome with ⟨table, isBuilt, isOtherBuilt⟩ |
      ⟨path, -, isError, -⟩
    · exact ⟨rebuilt, table, isRebuilt, isMoved, isBuilt, isOtherBuilt⟩
    · rw [isError] at isOk
      cases isOk

end RuleTable

end KeyedPaths
