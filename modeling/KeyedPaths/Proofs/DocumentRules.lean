import KeyedPaths.NodeDefinition
import KeyedPaths.Proofs.EntryPaths
import KeyedPaths.Proofs.TableConstruction

/-!
# The rules of nested definitions

The rules of a schema that has been built from nested definitions can be read
off the definitions: they are those of the nodes below the roots, in document
order, each for the names that lead to its node.  A rule table can be built
exactly if their paths are all different, and otherwise the construction stops
at the first path that has occurred before.
-/

namespace KeyedPaths

open StructuralPath

/-- A node below a root: the names from just below the root down to it, and its
key specification. -/
structure PlacedNode where
  names : List String
  key : Option String

namespace PlacedNode

def keyNames (node : PlacedNode) : List String :=
  match node.key with
  | none => []
  | some specification => words specification

def rule? (node : PlacedNode) : Option (String × List String) :=
  if node.keyNames = [] then none
  else some (ofNames node.names, node.keyNames)

end PlacedNode

namespace NodeDefinition

mutual

/-- A definition that stands below the given names and all below it, in document
order. -/
def placedNodes (above : List String) : NodeDefinition → List PlacedNode
  | ⟨name, key, children⟩ =>
      ⟨above ++ [name], key⟩ :: placedNodesOfAll (above ++ [name]) children

def placedNodesOfAll (above : List String) :
    List NodeDefinition → List PlacedNode
  | [] => []
  | node :: nodes => placedNodes above node ++ placedNodesOfAll above nodes

end

/-- The rules of all nodes below the roots, in document order. -/
def documentRules (roots : List NodeDefinition) :
    List (String × List String) :=
  roots.flatMap fun root =>
    (placedNodesOfAll [] root.children).filterMap PlacedNode.rule?

end NodeDefinition

namespace Schema

open NodeDefinition

variable {schema extended : Schema} {id parent : Nat}

theorem rule?_of_root {name : String}
    (isRoot : schema.get? id = some (.root name)) :
    schema.rule? id = none := by
  rw [rule?, isRoot]
  rfl

theorem rule?_of_child {name : String} {key : Option String}
    (isChild : schema.get? id = some (.child parent name key)) :
    schema.rule? id = PlacedNode.rule? ⟨schema.pathNames id, key⟩ := by
  rw [rule?, isChild]
  rfl

theorem Extends.rule?_eq (isExtended : schema.Extends extended)
    (inUse : id < schema.size) : extended.rule? id = schema.rule? id := by
  rw [rule?, rule?, isExtended.get?_eq inUse, structuralPath,
    structuralPath, isExtended.pathNames_eq inUse]

/-- Entries have been added to a schema whose rules are the given ones. -/
structure AddsRules (schema : Schema) (added : List (String × List String))
    (extended : Schema) : Prop where
  isExtended : schema.Extends extended
  rules_eq : extended.rules extended.ids = schema.rules schema.ids ++ added

theorem AddsRules.nil (schema : Schema) : schema.AddsRules [] schema where
  isExtended := Extends.refl schema
  rules_eq := (List.append_nil _).symm

theorem AddsRules.append {further : Schema}
    {first second : List (String × List String)}
    (addsFirst : schema.AddsRules first extended)
    (addsSecond : extended.AddsRules second further) :
    schema.AddsRules (first ++ second) further where
  isExtended := addsFirst.isExtended.trans addsSecond.isExtended
  rules_eq := by
    rw [addsSecond.rules_eq, addsFirst.rules_eq, List.append_assoc]

theorem AddsEntry.addsRules {entry : Entry}
    (addsEntry : schema.AddsEntry entry extended) :
    schema.AddsRules (extended.rule? schema.size).toList extended where
  isExtended := addsEntry.isExtended
  rules_eq := by
    have sameRules : schema.ids.filterMap extended.rule? =
        schema.ids.filterMap schema.rule? :=
      List.filterMap_congr fun id isId =>
        addsEntry.isExtended.rule?_eq (mem_ids.1 isId)
    rw [rules, ids, addsEntry.size_eq, List.range_succ, List.filterMap_append,
      ← ids, sameRules, rules]
    rfl

mutual

/-- Adding a definition below an entry adds the rules of its nodes. -/
theorem addsRules_addNode {schema extended : Schema} {parent : Nat}
    {parentName : String} : (node : NodeDefinition) → parent < schema.size →
      addNode schema parent parentName node = .ok extended →
        schema.AddsRules
          ((placedNodes (schema.pathNames parent) node).filterMap
            PlacedNode.rule?) extended
  | ⟨name, key, children⟩, parentInUse, isAdded => by
      rw [addNode] at isAdded
      split at isAdded
      next => cases isAdded
      next =>
        obtain ⟨next, isNext, isRun⟩ := bind_eq_ok_iff.1 isAdded
        have addsChild := (addsEntry_addChild isNext).2
        have addsChildren := addsRules_addNodes children addsChild.lt_size isRun
        have addsAll := addsChild.addsRules.append addsChildren
        rw [rule?_of_child addsChild.isEntry,
          addsChild.pathNames_child parentInUse] at addsAll
        rw [placedNodes, List.filterMap_cons]
        cases isRule : PlacedNode.rule?
            ⟨schema.pathNames parent ++ [name], key⟩ with
        | none => rwa [isRule] at addsAll
        | some rule => rwa [isRule] at addsAll

theorem addsRules_addNodes {schema extended : Schema} {parent : Nat}
    {parentName : String} : (nodes : List NodeDefinition) →
      parent < schema.size →
        addNodes schema parent parentName nodes = .ok extended →
          schema.AddsRules
            ((placedNodesOfAll (schema.pathNames parent) nodes).filterMap
              PlacedNode.rule?) extended
  | [], _, isAdded => by
      rw [addNodes] at isAdded
      cases isAdded
      exact AddsRules.nil schema
  | node :: nodes, parentInUse, isAdded => by
      rw [addNodes] at isAdded
      obtain ⟨next, isNext, isRun⟩ := bind_eq_ok_iff.1 isAdded
      have addsNode := addsRules_addNode node parentInUse isNext
      have stillInUse := addsNode.isExtended.lt_size parentInUse
      have addsNodes := addsRules_addNodes nodes stillInUse isRun
      rw [addsNode.isExtended.pathNames_eq parentInUse] at addsNodes
      rw [placedNodesOfAll, List.filterMap_append]
      exact addsNode.append addsNodes

end

/-- The root of a definition has no rule of its own. -/
theorem addsRules_addTree {root : NodeDefinition}
    (isAdded : addTree schema root = .ok extended) :
    schema.AddsRules
      ((placedNodesOfAll [] root.children).filterMap PlacedNode.rule?)
      extended := by
  have addsRoot := addsEntry_addRoot schema root.name
  have addsNodes :=
    addsRules_addNodes root.children addsRoot.lt_size isAdded
  rw [pathNames_of_root addsRoot.isEntry] at addsNodes
  have addsAll := addsRoot.addsRules.append addsNodes
  rwa [rule?_of_root addsRoot.isEntry] at addsAll

theorem addsRules_foldlM_addTree {roots : List NodeDefinition}
    (isAdded : roots.foldlM addTree schema = .ok extended) :
    schema.AddsRules (documentRules roots) extended := by
  induction roots generalizing schema with
  | nil =>
      cases isAdded
      exact AddsRules.nil _
  | cons root roots ih =>
      obtain ⟨next, isNext, isRun⟩ := foldlM_cons_eq_ok_iff.1 isAdded
      exact (addsRules_addTree isNext).append (ih isRun)

theorem rules_ofDefinitions {roots : List NodeDefinition}
    (isLoaded : ofDefinitions roots = .ok schema) :
    schema.rules schema.ids = documentRules roots :=
  (addsRules_foldlM_addTree isLoaded).rules_eq

end Schema

namespace RuleTable

open NodeDefinition

section OfDefinitions

variable {roots : List NodeDefinition} {schema : Schema}
  (isLoaded : Schema.ofDefinitions roots = .ok schema)

include isLoaded

theorem exists_ofSchema_iff_nodup :
    (∃ table, ofSchema schema = .ok table) ↔
      ((documentRules roots).map Prod.fst).Nodup := by
  rw [ofSchema, exists_build_iff, Schema.rules_ofDefinitions isLoaded]
  exact and_iff_right fun _ isId => isSome_get?_of_mem_ids isId

/-- A construction that fails does so at the first path of the document that has
occurred before. -/
theorem exists_first_repetition {failure : RuleError}
    (isError : ofSchema schema = .error failure) :
    ∃ before path after,
      (documentRules roots).map Prod.fst = before ++ path :: after ∧
        before.Nodup ∧ path ∈ before ∧ failure = .duplicatePath path := by
  obtain ⟨before, id, after, path, keyNames, isSplit, distinct, isRule,
    isEarlier, rfl⟩ := ofSchema_error_cases isError
  refine ⟨_, path, (schema.rules after).map Prod.fst, ?_, distinct,
    isEarlier, rfl⟩
  rw [← Schema.rules_ofDefinitions isLoaded, isSplit, Schema.rules,
    List.filterMap_append, List.filterMap_cons_some isRule, List.map_append,
    List.map_cons]
  rfl

/-- A schema that has been built from definitions has a rule table exactly if no
path occurs twice among the rules of the document, and the table holds these
rules and no others.  Otherwise the error names the path at the first position
whose path occurs before it as well. -/
theorem ofSchema_of_ofDefinitions :
    ((∃ table, ofSchema schema = .ok table) ↔
        ((documentRules roots).map Prod.fst).Nodup) ∧
      (∀ table, ofSchema schema = .ok table →
        table.rules.bindings.Perm (documentRules roots)) ∧
      (¬ ((documentRules roots).map Prod.fst).Nodup →
        ∃ before path after,
          (documentRules roots).map Prod.fst = before ++ path :: after ∧
            before.Nodup ∧ path ∈ before ∧
              ofSchema schema = .error (.duplicatePath path)) := by
  have succeeds := exists_ofSchema_iff_nodup isLoaded
  refine ⟨succeeds, fun table isBuilt => ?_, fun notDistinct => ?_⟩
  · rw [← Schema.rules_ofDefinitions isLoaded]
    exact perm_rules_of_build isBuilt
  · cases isBuilt : ofSchema schema with
    | ok table => exact absurd (succeeds.1 ⟨table, isBuilt⟩) notDistinct
    | error failure =>
        obtain ⟨before, path, after, isSplit, distinct, isEarlier, rfl⟩ :=
          exists_first_repetition isLoaded isBuilt
        exact ⟨before, path, after, isSplit, distinct, isEarlier, rfl⟩

end OfDefinitions

/-- Two roots with keyed lists of one name at different places.  The key of a
root does not count, nor does a blank one. -/
def nestedRoots : List NodeDefinition :=
  [⟨"first", some "k", [⟨"list", some "k id k", [⟨"inner", some " ",
      [⟨"list", some "name", []⟩]⟩]⟩]⟩,
    ⟨"second", none, [⟨"inner", none, [⟨"list", some "id", []⟩]⟩]⟩]

/-- Two roots with a keyed list at one structural path. -/
def collidingRoots : List NodeDefinition :=
  [⟨"first", none, [⟨"a", none, [⟨"list", some "k", []⟩]⟩]⟩,
    ⟨"second", none, [⟨"a/list", some "id", []⟩]⟩]

theorem ofSchema_of_nestedRoots :
    (∃ schema table, Schema.ofDefinitions nestedRoots = .ok schema ∧
        ofSchema schema = .ok table ∧
          table.rules.bindings.Perm [("/list", ["k", "id", "k"]),
            ("/list/inner/list", ["name"]), ("/inner/list", ["id"])]) ∧
      ∃ schema, Schema.ofDefinitions collidingRoots = .ok schema ∧
        ofSchema schema = .error (.duplicatePath "/a/list") := by
  constructor
  · obtain ⟨schema, isLoaded⟩ : ∃ schema,
        Schema.ofDefinitions nestedRoots = .ok schema :=
      isOk_iff.1 (by decide +kernel)
    obtain ⟨succeeds, holdsRules, -⟩ := ofSchema_of_ofDefinitions isLoaded
    obtain ⟨table, isBuilt⟩ := succeeds.2 (by decide +kernel)
    exact ⟨schema, table, isLoaded, isBuilt, holdsRules table isBuilt⟩
  · obtain ⟨schema, isLoaded⟩ : ∃ schema,
        Schema.ofDefinitions collidingRoots = .ok schema :=
      isOk_iff.1 (by decide +kernel)
    obtain ⟨before, path, after, isSplit, -, -, isError⟩ :=
      (ofSchema_of_ofDefinitions isLoaded).2.2 (by decide +kernel)
    have isListed : path ∈ (documentRules collidingRoots).map Prod.fst := by
      rw [isSplit]
      exact List.mem_append_right before List.mem_cons_self
    have allOne : ∀ path ∈ (documentRules collidingRoots).map Prod.fst,
        path = "/a/list" := by
      decide +kernel
    exact ⟨schema, isLoaded, allOne path isListed ▸ isError⟩

end RuleTable

end KeyedPaths
