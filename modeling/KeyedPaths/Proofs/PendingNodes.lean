import KeyedPaths.Proofs.DocumentEntries

/-!
# Pending nodes

A schema can also be built without a recursion into the nodes: the nodes that
are still to be added stand on a stack, each with the number of the entry that
it goes below, and a node that has been added leaves its children on the stack.
The outcome is the same.
-/

namespace KeyedPaths

namespace NodeDefinition

/-- The definitions as pending nodes below an entry, the first one on top. -/
def pendingBelow (parent : Nat) (definitions : List NodeDefinition) :
    List (Nat × NodeDefinition) :=
  definitions.map fun node => (parent, node)

/-- All nodes that are pending or below pending nodes. -/
def pendingNodes (pending : List (Nat × NodeDefinition)) :
    List NodeDefinition :=
  pending.flatMap fun item => item.2.nodes

theorem pendingNodes_pendingBelow (parent : Nat)
    (definitions : List NodeDefinition) :
    pendingNodes (pendingBelow parent definitions) =
      nodesOfAll definitions := by
  rw [pendingNodes, pendingBelow, List.flatMap_map, nodesOfAll_eq_flatMap]

/-- A node is worth more than its children. -/
theorem length_pendingNodes_lt (parent number : Nat) (node : NodeDefinition)
    (rest : List (Nat × NodeDefinition)) :
    (pendingNodes (pendingBelow number node.children ++ rest)).length <
      (pendingNodes ((parent, node) :: rest)).length := by
  rw [pendingNodes, pendingNodes, List.flatMap_append, List.flatMap_cons,
    nodes_eq, ← pendingNodes, pendingNodes_pendingBelow, List.cons_append,
    List.length_cons]
  exact Nat.lt_succ_self _

end NodeDefinition

namespace Schema

open NodeDefinition

/-- Add the pending nodes, the one on top first. -/
def addPending (schema : Schema) :
    List (Nat × NodeDefinition) → Except SchemaError Schema
  | [] => .ok schema
  | (parent, node) :: rest =>
      if node.name.isEmpty then .error (.emptyName (schema.entryName parent))
      else
        match schema.addChild parent node.name node.key with
        | .error error => .error error
        | .ok extended =>
            extended.addPending
              (pendingBelow schema.size node.children ++ rest)
termination_by pending => (pendingNodes pending).length
decreasing_by exact length_pendingNodes_lt _ _ _ _

/-- Add a definition as a new root, and all below it from a stack. -/
def addTreePending (schema : Schema) (root : NodeDefinition) :
    Except SchemaError Schema :=
  (schema.addRoot root.name).addPending
    (pendingBelow schema.size root.children)

variable {schema extended : Schema}

theorem entryName_addChild {parent : Nat} {name : String} {key : Option String}
    (isAdded : schema.addChild parent name key = .ok extended) :
    extended.entryName schema.size = name :=
  entryName_of_get? (addsEntry_addChild isAdded).2.isEntry

mutual

theorem addPending_node {schema : Schema} {parent : Nat}
    (parentInUse : parent < schema.size) (rest : List (Nat × NodeDefinition)) :
    (node : NodeDefinition) →
      schema.addPending ((parent, node) :: rest) =
        (do
          let extended ←
            addNode schema parent (schema.entryName parent) node
          extended.addPending rest)
  | ⟨name, key, children⟩ => by
      rw [addPending, addNode]
      split
      next => rfl
      next =>
        obtain ⟨next, isNext⟩ := exists_addChild parentInUse name key
        have childInUse := (addsEntry_addChild isNext).2.lt_size
        rw [isNext]
        dsimp only
        rw [addPending_nodes childInUse rest children,
          entryName_addChild isNext]
        rfl

/-- The nodes of a list are added before what is pending behind them. -/
theorem addPending_nodes {schema : Schema} {parent : Nat}
    (parentInUse : parent < schema.size) (rest : List (Nat × NodeDefinition)) :
    (definitions : List NodeDefinition) →
      schema.addPending (pendingBelow parent definitions ++ rest) =
        (do
          let extended ←
            addNodes schema parent (schema.entryName parent) definitions
          extended.addPending rest)
  | [] => by
      rw [addNodes]
      rfl
  | node :: definitions => by
      rw [pendingBelow, List.map_cons, List.cons_append, ← pendingBelow,
        addPending_node parentInUse _ node, addNodes]
      cases isAdded : addNode schema parent (schema.entryName parent) node with
      | error error => rfl
      | ok next =>
          have addsNode := addsEntries_addNode node isAdded
          have sameName := addsNode.isExtended.entryName_eq parentInUse
          -- The parent has kept its name, which an error behind would give.
          have areAdded := addPending_nodes (addsNode.lt_size parentInUse) rest
            definitions
          rw [sameName] at areAdded
          exact areAdded

end

theorem addTreePending_eq (schema : Schema) (root : NodeDefinition) :
    schema.addTreePending root = schema.addTree root := by
  have addsRoot := addsEntry_addRoot schema root.name
  have isName : (schema.addRoot root.name).entryName schema.size =
      root.name := entryName_of_get? addsRoot.isEntry
  have areAdded := addPending_nodes addsRoot.lt_size [] root.children
  rw [List.append_nil, isName] at areAdded
  rw [addTreePending, areAdded, addTree]
  cases addNodes (schema.addRoot root.name) schema.size root.name
      root.children with
  | error error => rfl
  | ok extended =>
      change extended.addPending [] = .ok extended
      rw [addPending]

/-- A stack of pending nodes builds the same schema, or fails with the same
error. -/
theorem foldlM_addTreePending (roots : List NodeDefinition) :
    roots.foldlM addTreePending empty = ofDefinitions roots := by
  have sameStep : addTreePending = addTree :=
    funext fun schema => funext fun root => addTreePending_eq schema root
  rw [sameStep, ofDefinitions]

end Schema

end KeyedPaths
