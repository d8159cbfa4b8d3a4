import KeyedPaths.NodeDefinition
import KeyedPaths.Proofs.EntryPaths
import KeyedPaths.Proofs.Outcomes

/-!
# The entries of nested definitions

Building a schema from nested definitions numbers the nodes in document order.
The entries that come of it can be written down without building a schema: a
node stands before those below its children, and a child names its parent by
the number of the node that holds it.  The building succeeds exactly if no node
below a root has the empty name.
-/

namespace KeyedPaths

namespace NodeDefinition

mutual

/-- A definition and all below it in document order. -/
def nodes : NodeDefinition → List NodeDefinition
  | ⟨name, key, children⟩ => ⟨name, key, children⟩ :: nodesOfAll children

def nodesOfAll : List NodeDefinition → List NodeDefinition
  | [] => []
  | node :: rest => node.nodes ++ nodesOfAll rest

end

theorem nodes_eq (node : NodeDefinition) :
    node.nodes = node :: nodesOfAll node.children := by
  cases node
  rw [nodes]

theorem nodesOfAll_eq_flatMap (definitions : List NodeDefinition) :
    nodesOfAll definitions = definitions.flatMap nodes := by
  induction definitions with
  | nil => rfl
  | cons node rest ih => rw [nodesOfAll, ih, List.flatMap_cons]

/-- The nodes below the roots of a document. -/
def nodesBelow (roots : List NodeDefinition) : List NodeDefinition :=
  roots.flatMap fun root => nodesOfAll root.children

mutual

/-- The entries of a definition, which gets the given number, and of all below
it. -/
def entries (number parent : Nat) : NodeDefinition → List Entry
  | ⟨name, key, children⟩ =>
      .child parent name key :: entriesOfAll (number + 1) number children

def entriesOfAll (number parent : Nat) : List NodeDefinition → List Entry
  | [] => []
  | node :: rest =>
      entries number parent node ++
        entriesOfAll (number + node.nodes.length) parent rest

end

theorem entries_eq (number parent : Nat) (node : NodeDefinition) :
    node.entries number parent =
      .child parent node.name node.key ::
        entriesOfAll (number + 1) number node.children := by
  cases node
  rw [entries]

/-- The entries of a definition that becomes a root, and of all below it. -/
def treeEntries (number : Nat) (root : NodeDefinition) : List Entry :=
  .root root.name :: entriesOfAll (number + 1) number root.children

def documentEntries (number : Nat) : List NodeDefinition → List Entry
  | [] => []
  | root :: rest =>
      treeEntries number root ++
        documentEntries (number + root.nodes.length) rest

mutual

theorem length_entries (number parent : Nat) : (node : NodeDefinition) →
    (node.entries number parent).length = node.nodes.length
  | ⟨name, key, children⟩ => by
      rw [entries, nodes, List.length_cons, List.length_cons,
        length_entriesOfAll]

theorem length_entriesOfAll (number parent : Nat) :
    (definitions : List NodeDefinition) →
      (entriesOfAll number parent definitions).length =
        (nodesOfAll definitions).length
  | [] => rfl
  | node :: rest => by
      rw [entriesOfAll, nodesOfAll, List.length_append, List.length_append,
        length_entries, length_entriesOfAll]

end

theorem length_treeEntries (number : Nat) (root : NodeDefinition) :
    (treeEntries number root).length = root.nodes.length := by
  rw [treeEntries, nodes_eq, List.length_cons, List.length_cons,
    length_entriesOfAll]

end NodeDefinition

namespace Schema

open NodeDefinition

/-- The given entries have been added to a schema, in their order. -/
def AddsEntries (schema : Schema) (added : List Entry) (extended : Schema) :
    Prop :=
  extended.entries.toList = schema.entries.toList ++ added

variable {schema extended further : Schema}

theorem AddsEntries.nil (schema : Schema) : schema.AddsEntries [] schema :=
  (List.append_nil _).symm

theorem AddsEntries.append {first second : List Entry}
    (addsFirst : schema.AddsEntries first extended)
    (addsSecond : extended.AddsEntries second further) :
    schema.AddsEntries (first ++ second) further := by
  rw [AddsEntries, addsSecond, addsFirst, List.append_assoc]

theorem AddsEntries.size_eq {added : List Entry}
    (addsEntries : schema.AddsEntries added extended) :
    extended.size = schema.size + added.length := by
  have sameLength := congrArg List.length addsEntries
  rwa [List.length_append, Array.length_toList, Array.length_toList]
    at sameLength

theorem AddsEntries.isExtended {added : List Entry}
    (addsEntries : schema.AddsEntries added extended) :
    schema.Extends extended := by
  intro id entry isEntry
  have inEntries : id < schema.entries.toList.length := lt_size_of_get? isEntry
  rw [← getElem?_toList_entries, addsEntries,
    List.getElem?_append_left inEntries, getElem?_toList_entries, isEntry]

theorem AddsEntries.lt_size {added : List Entry} {id : Nat}
    (addsEntries : schema.AddsEntries added extended)
    (inUse : id < schema.size) : id < extended.size :=
  addsEntries.isExtended.lt_size inUse

theorem addsEntries_addRoot (schema : Schema) (name : String) :
    schema.AddsEntries [.root name] (schema.addRoot name) :=
  Array.toList_push

theorem addsEntries_addChild {parent : Nat} {name : String}
    {key : Option String}
    (isAdded : schema.addChild parent name key = .ok extended) :
    schema.AddsEntries [.child parent name key] extended := by
  rw [AddsEntries, (addChild_eq_ok_iff.1 isAdded).2, Array.toList_push]

theorem exists_addChild {parent : Nat} (parentInUse : parent < schema.size)
    (name : String) (key : Option String) :
    ∃ extended, schema.addChild parent name key = .ok extended := by
  rw [addChild, dif_pos parentInUse]
  exact ⟨_, rfl⟩

mutual

theorem addsEntries_addNode {schema extended : Schema} {parent : Nat}
    {parentName : String} : (node : NodeDefinition) →
      addNode schema parent parentName node = .ok extended →
        schema.AddsEntries (node.entries schema.size parent) extended
  | ⟨name, key, children⟩, isAdded => by
      rw [addNode] at isAdded
      split at isAdded
      next => cases isAdded
      next =>
        obtain ⟨next, isNext, isRun⟩ := bind_eq_ok_iff.1 isAdded
        have addsChild := addsEntries_addChild isNext
        have addsChildren := addsEntries_addNodes children isRun
        rw [addsChild.size_eq, List.length_singleton] at addsChildren
        rw [NodeDefinition.entries]
        exact addsChild.append addsChildren

theorem addsEntries_addNodes {schema extended : Schema} {parent : Nat}
    {parentName : String} : (definitions : List NodeDefinition) →
      addNodes schema parent parentName definitions = .ok extended →
        schema.AddsEntries (entriesOfAll schema.size parent definitions)
          extended
  | [], isAdded => by
      rw [addNodes] at isAdded
      cases isAdded
      exact AddsEntries.nil schema
  | node :: rest, isAdded => by
      rw [addNodes] at isAdded
      obtain ⟨next, isNext, isRun⟩ := bind_eq_ok_iff.1 isAdded
      have addsNode := addsEntries_addNode node isNext
      have addsRest := addsEntries_addNodes rest isRun
      rw [addsNode.size_eq, length_entries] at addsRest
      rw [entriesOfAll]
      exact addsNode.append addsRest

end

mutual

/-- Below an entry that is present a definition can be added exactly if neither
its name nor any below it is empty. -/
theorem exists_addNode_iff {schema : Schema} {parent : Nat}
    {parentName : String} : (node : NodeDefinition) → parent < schema.size →
      ((∃ extended, addNode schema parent parentName node = .ok extended) ↔
        ∀ below ∈ node.nodes, below.name ≠ "")
  | ⟨name, key, children⟩, parentInUse => by
      rw [addNode, nodes, List.forall_mem_cons]
      split
      next isEmpty => simp_all
      next notEmpty =>
        obtain ⟨next, isNext⟩ := exists_addChild parentInUse name key
        have childInUse : schema.size < next.size := by
          rw [(addsEntries_addChild isNext).size_eq]
          exact Nat.lt_succ_self _
        have isNamed : name ≠ "" := by simpa using notEmpty
        rw [isNext]
        exact (exists_addNodes_iff children childInUse).trans
          (and_iff_right isNamed).symm

theorem exists_addNodes_iff {schema : Schema} {parent : Nat}
    {parentName : String} : (definitions : List NodeDefinition) →
      parent < schema.size →
        ((∃ extended,
            addNodes schema parent parentName definitions = .ok extended) ↔
          ∀ below ∈ nodesOfAll definitions, below.name ≠ "")
  | [], _ => by simp [addNodes, nodesOfAll]
  | node :: rest, parentInUse => by
      rw [addNodes, nodesOfAll, List.forall_mem_append,
        ← @exists_addNode_iff schema parent parentName node parentInUse]
      constructor
      · rintro ⟨extended, isAdded⟩
        obtain ⟨next, isNext, isRun⟩ := bind_eq_ok_iff.1 isAdded
        have stillInUse := (addsEntries_addNode node isNext).lt_size parentInUse
        exact ⟨⟨next, isNext⟩,
          (exists_addNodes_iff rest stillInUse).1 ⟨extended, isRun⟩⟩
      · rintro ⟨⟨next, isNext⟩, restNamed⟩
        have stillInUse := (addsEntries_addNode node isNext).lt_size parentInUse
        obtain ⟨extended, isRun⟩ :=
          (exists_addNodes_iff rest stillInUse).2 restNamed
        exact ⟨extended, bind_eq_ok_iff.2 ⟨next, isNext, isRun⟩⟩

end

mutual

/-- Below an entry that is present only empty names are an error. -/
theorem exists_emptyName_of_addNode {schema : Schema} {parent : Nat}
    {parentName : String} {error : SchemaError} : (node : NodeDefinition) →
      parent < schema.size →
        addNode schema parent parentName node = .error error →
          ∃ name, error = .emptyName name
  | ⟨name, key, children⟩, parentInUse, isError => by
      rw [addNode] at isError
      split at isError
      next =>
        cases isError
        exact ⟨parentName, rfl⟩
      next =>
        obtain ⟨next, isNext⟩ := exists_addChild parentInUse name key
        have childInUse : schema.size < next.size := by
          rw [(addsEntries_addChild isNext).size_eq]
          exact Nat.lt_succ_self _
        rw [isNext] at isError
        exact exists_emptyName_of_addNodes children childInUse isError

theorem exists_emptyName_of_addNodes {schema : Schema} {parent : Nat}
    {parentName : String} {error : SchemaError} :
    (definitions : List NodeDefinition) → parent < schema.size →
      addNodes schema parent parentName definitions = .error error →
        ∃ name, error = .emptyName name
  | [], _, isError => by
      rw [addNodes] at isError
      cases isError
  | node :: rest, parentInUse, isError => by
      rw [addNodes, bind_eq_error_iff] at isError
      rcases isError with isFirst | ⟨next, isNext, isLater⟩
      · exact exists_emptyName_of_addNode node parentInUse isFirst
      · have stillInUse := (addsEntries_addNode node isNext).lt_size parentInUse
        exact exists_emptyName_of_addNodes rest stillInUse isLater

end

theorem addsEntries_addTree {root : NodeDefinition}
    (isAdded : addTree schema root = .ok extended) :
    schema.AddsEntries (treeEntries schema.size root) extended := by
  have addsRoot := addsEntries_addRoot schema root.name
  have addsChildren := addsEntries_addNodes root.children isAdded
  rw [size_addRoot] at addsChildren
  exact addsRoot.append addsChildren

theorem exists_addTree_iff (schema : Schema) (root : NodeDefinition) :
    (∃ extended, addTree schema root = .ok extended) ↔
      ∀ below ∈ nodesOfAll root.children, below.name ≠ "" := by
  have rootInUse : schema.size < (schema.addRoot root.name).size := by
    rw [size_addRoot]
    exact Nat.lt_succ_self _
  exact exists_addNodes_iff root.children rootInUse

theorem addsEntries_foldlM_addTree {roots : List NodeDefinition}
    (isAdded : roots.foldlM addTree schema = .ok extended) :
    schema.AddsEntries (documentEntries schema.size roots) extended := by
  induction roots generalizing schema with
  | nil =>
      cases isAdded
      exact AddsEntries.nil _
  | cons root roots ih =>
      obtain ⟨next, isNext, isRun⟩ := foldlM_cons_eq_ok_iff.1 isAdded
      have addsTree := addsEntries_addTree isNext
      have addsRest := ih isRun
      rw [addsTree.size_eq, length_treeEntries] at addsRest
      exact addsTree.append addsRest

theorem exists_foldlM_addTree_iff (schema : Schema)
    (roots : List NodeDefinition) :
    (∃ extended, roots.foldlM addTree schema = .ok extended) ↔
      ∀ below ∈ nodesBelow roots, below.name ≠ "" := by
  induction roots generalizing schema with
  | nil => simp [nodesBelow, pure, Except.pure]
  | cons root roots ih =>
      rw [nodesBelow, List.flatMap_cons, List.forall_mem_append,
        ← exists_addTree_iff schema root]
      constructor
      · rintro ⟨extended, isAdded⟩
        obtain ⟨next, isNext, isRun⟩ := foldlM_cons_eq_ok_iff.1 isAdded
        exact ⟨⟨next, isNext⟩, (ih next).1 ⟨extended, isRun⟩⟩
      · rintro ⟨⟨next, isNext⟩, restNamed⟩
        obtain ⟨extended, isRun⟩ := (ih next).2 restNamed
        exact ⟨extended, foldlM_cons_eq_ok_iff.2 ⟨next, isNext, isRun⟩⟩

/-- The entries of a schema that has been built from definitions. -/
theorem entries_ofDefinitions {roots : List NodeDefinition}
    (isLoaded : ofDefinitions roots = .ok schema) :
    schema.entries.toList = documentEntries 0 roots :=
  addsEntries_foldlM_addTree isLoaded

/-- A schema can be built from definitions exactly if no node below a root has
the empty name. -/
theorem exists_ofDefinitions_iff (roots : List NodeDefinition) :
    (∃ schema, ofDefinitions roots = .ok schema) ↔
      ∀ below ∈ nodesBelow roots, below.name ≠ "" :=
  exists_foldlM_addTree_iff empty roots

theorem exists_emptyName_of_ofDefinitions {roots : List NodeDefinition}
    {error : SchemaError} (isError : ofDefinitions roots = .error error) :
    ∃ name, error = .emptyName name := by
  obtain ⟨before, root, after, reached, -, -, isRoot⟩ :=
    foldlM_eq_error_iff.1 isError
  have rootInUse : reached.size < (reached.addRoot root.name).size := by
    rw [size_addRoot]
    exact Nat.lt_succ_self _
  exact exists_emptyName_of_addNodes root.children rootInUse isRoot

end Schema

end KeyedPaths
