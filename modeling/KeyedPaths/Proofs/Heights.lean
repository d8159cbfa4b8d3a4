import KeyedPaths.Proofs.DefinitionSweep
import KeyedPaths.Proofs.Preorder

/-!
# Heights

The height of a schema is the greatest number of steps from an entry to its
root.  It is one less than the number of levels of the definitions that the
schema lists.
-/

namespace KeyedPaths

namespace NodeDefinition

/-- What holds of a definition if it holds of its children holds of all
definitions. -/
theorem children_induction {motive : NodeDefinition → Prop}
    (step : ∀ name key children, (∀ child ∈ children, motive child) →
      motive ⟨name, key, children⟩) (node : NodeDefinition) : motive node :=
  node.rec step (List.forall_mem_nil _)
    fun _ _ first later => List.forall_mem_cons.2 ⟨first, later⟩

mutual

/-- The number of definitions on the longest way down, the upper one
included. -/
def levels : NodeDefinition → Nat
  | ⟨_, _, children⟩ => levelsOfAll children + 1

def levelsOfAll : List NodeDefinition → Nat
  | [] => 0
  | node :: rest => max node.levels (levelsOfAll rest)

end

theorem levelsOfAll_le_iff {nodes : List NodeDefinition} {bound : Nat} :
    levelsOfAll nodes ≤ bound ↔ ∀ node ∈ nodes, node.levels ≤ bound := by
  induction nodes with
  | nil => simp [levelsOfAll]
  | cons node rest ih =>
      rw [levelsOfAll, Nat.max_le, ih, List.forall_mem_cons]

theorem levels_pos (node : NodeDefinition) : 0 < node.levels := by
  cases node
  exact Nat.succ_pos _

end NodeDefinition

namespace Schema

open NodeDefinition

/-- The number of steps from an entry to its root. -/
def depth (schema : Schema) (id : Nat) : Nat :=
  (schema.ancestors id).length - 1

/-- The greatest number of steps from an entry to its root, and zero if there
are no entries. -/
def height (schema : Schema) : Nat :=
  (schema.ids.map schema.depth).foldr max 0

variable {schema : Schema} {id bound : Nat}

theorem height_le_iff :
    schema.height ≤ bound ↔ ∀ id < schema.size, schema.depth id ≤ bound := by
  have foldr_max_le : ∀ ids : List Nat,
      (ids.map schema.depth).foldr max 0 ≤ bound ↔
        ∀ id ∈ ids, schema.depth id ≤ bound := by
    intro ids
    induction ids with
    | nil => simp
    | cons id ids ih =>
        rw [List.map_cons, List.foldr_cons, Nat.max_le, ih,
          List.forall_mem_cons]
  rw [height, foldr_max_le, ids]
  simp only [List.mem_range]

theorem length_ancestors_child {parent : Nat}
    (isParent : schema.parent? id = some parent) :
    (schema.ancestors id).length = (schema.ancestors parent).length + 1 := by
  rw [ancestors_of_parent?_eq_some isParent, List.length_cons]

theorem length_ancestors_pos (schema : Schema) (id : Nat) :
    0 < (schema.ancestors id).length :=
  List.length_pos_of_mem (self_mem_ancestors schema id)

/-- The levels of the definition of an entry, counted from the top of the
schema, are those of the entries below it. -/
theorem levels_definition_le_iff :
    (schema.definition id).levels ≤ bound ↔
      ∀ below ∈ schema.subtree id, (schema.ancestors below).length + 1 ≤
        (schema.ancestors id).length + bound := by
  induction id using children_induction schema generalizing bound with
  | step id ih =>
      rw [definition_eq, levels, subtree_eq, List.forall_mem_cons,
        List.forall_mem_flatMap]
      cases bound with
      | zero =>
          have tooMany : ¬ levelsOfAll
              ((schema.children id).map schema.definition) + 1 ≤ 0 := by
            omega
          have tooLong : ¬ (schema.ancestors id).length + 1 ≤
              (schema.ancestors id).length + 0 := by
            omega
          exact iff_of_false tooMany fun below => tooLong below.1
      | succ bound =>
          have isShort : (schema.ancestors id).length + 1 ≤
              (schema.ancestors id).length + (bound + 1) := by
            omega
          rw [Nat.succ_le_succ_iff, levelsOfAll_le_iff, List.forall_mem_map,
            and_iff_right isShort]
          refine forall₂_congr fun child isChild => ?_
          rw [ih child isChild, length_ancestors_child (mem_children.1 isChild),
            Nat.add_right_comm, Nat.add_assoc]

theorem levelsOfAll_definitions_le_iff :
    levelsOfAll schema.definitions ≤ bound ↔
      ∀ id < schema.size, (schema.ancestors id).length ≤ bound := by
  have levels_root_le_iff : ∀ root ∈ schema.roots,
      (schema.definition root).levels ≤ bound ↔
        ∀ below ∈ schema.subtree root,
          (schema.ancestors below).length ≤ bound := by
    intro root isRoot
    have isTop := ancestors_of_parent?_eq_none (mem_roots.1 isRoot).2
    rw [levels_definition_le_iff, isTop]
    refine forall₂_congr fun below _ => ?_
    rw [List.length_singleton]
    omega
  calc levelsOfAll schema.definitions ≤ bound
    _ ↔ ∀ root ∈ schema.roots, (schema.definition root).levels ≤ bound := by
      rw [levelsOfAll_le_iff, definitions_eq, List.forall_mem_map]
    _ ↔ ∀ id ∈ schema.preorder, (schema.ancestors id).length ≤ bound := by
      rw [preorder, List.forall_mem_flatMap]
      exact forall₂_congr levels_root_le_iff
    _ ↔ ∀ id < schema.size, (schema.ancestors id).length ≤ bound := by
      simp only [mem_preorder]

theorem levelsOfAll_definitions_le_succ_iff :
    levelsOfAll schema.definitions ≤ bound + 1 ↔ schema.height ≤ bound := by
  rw [levelsOfAll_definitions_le_iff, height_le_iff]
  refine forall₂_congr fun id inUse => ?_
  have isPositive := length_ancestors_pos schema id
  rw [depth]
  omega

end Schema

end KeyedPaths
