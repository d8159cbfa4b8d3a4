import Mathlib.Data.List.Forall2
import KeyedPaths.Proofs.PendingNodes

/-!
# The order of nested definitions

The place of a node in nested definitions is the list of the positions that lead
to it from the roots downwards.  Listing the nodes in the order of their places
puts a node before everything below it, and all below it before its next
sibling.  Building a schema numbers the nodes in this order.  It fails exactly
if a node below a root has the empty name, with the name of the node that holds
the first such node.
-/

namespace KeyedPaths

namespace NodeDefinition

/-- The node that is reached from a node by taking the children at the given
positions. -/
def nodeBelow? : NodeDefinition → List Nat → Option NodeDefinition
  | node, [] => some node
  | node, index :: place =>
      node.children[index]?.bind fun child => child.nodeBelow? place

/-- The node at a place of a document.  No node has the empty place. -/
def nodeAt? (roots : List NodeDefinition) : List Nat → Option NodeDefinition
  | [] => none
  | index :: place => roots[index]?.bind fun root => root.nodeBelow? place

mutual

/-- A node with its place, and all nodes below it with theirs. -/
def located (place : List Nat) :
    NodeDefinition → List (List Nat × NodeDefinition)
  | ⟨name, key, children⟩ =>
      (place, ⟨name, key, children⟩) :: locatedFrom place 0 children

/-- The nodes of a list, whose places continue a place from a position on, and
all nodes below them. -/
def locatedFrom (above : List Nat) (index : Nat) :
    List NodeDefinition → List (List Nat × NodeDefinition)
  | [] => []
  | node :: rest =>
      node.located (above ++ [index]) ++ locatedFrom above (index + 1) rest

end

/-- The nodes of a document in pre-order, each with its place. -/
def documentNodes (roots : List NodeDefinition) :
    List (List Nat × NodeDefinition) :=
  locatedFrom [] 0 roots

/-- The entry that a node of a list becomes: at the top a root, and otherwise a
child, which names the node that holds it by its number in the list. -/
inductive BecomesEntry (listed : List (List Nat × NodeDefinition)) :
    List Nat → NodeDefinition → Entry → Prop where
  | root (index : Nat) (node : NodeDefinition) :
      BecomesEntry listed [index] node (.root node.name)
  | child {above : List Nat} {parent : Nat} {holder : NodeDefinition}
      (index : Nat) (node : NodeDefinition)
      (isHolder : listed[parent]? = some (above, holder)) :
      BecomesEntry listed (above ++ [index]) node
        (.child parent node.name node.key)

/-- Whether a node stands below a root and has the empty name. -/
def isUnnamed (item : List Nat × NodeDefinition) : Bool :=
  1 < item.1.length && item.2.name.isEmpty

section Listing

variable {place above : List Nat} {index : Nat} {node : NodeDefinition}

theorem located_eq (place : List Nat) (node : NodeDefinition) :
    node.located place =
      (place, node) :: locatedFrom place 0 node.children := by
  cases node
  rw [located]

mutual

theorem map_snd_located (place : List Nat) : (node : NodeDefinition) →
    (node.located place).map Prod.snd = node.nodes
  | ⟨name, key, children⟩ => by
      rw [located, nodes, List.map_cons, map_snd_locatedFrom]

theorem map_snd_locatedFrom (above : List Nat) (index : Nat) :
    (definitions : List NodeDefinition) →
      (locatedFrom above index definitions).map Prod.snd =
        nodesOfAll definitions
  | [] => rfl
  | node :: rest => by
      rw [locatedFrom, nodesOfAll, List.map_append, map_snd_located,
        map_snd_locatedFrom]

end

theorem length_located (place : List Nat) (node : NodeDefinition) :
    (node.located place).length = node.nodes.length := by
  rw [← map_snd_located place, List.length_map]

mutual

/-- The nodes below a node have the places that continue its place. -/
theorem mem_located {place sought : List Nat} {found : NodeDefinition} :
    (node : NodeDefinition) →
      ((sought, found) ∈ node.located place ↔
        ∃ below, sought = place ++ below ∧
          node.nodeBelow? below = some found)
  | ⟨name, key, children⟩ => by
      rw [located, List.mem_cons, mem_locatedFrom children, Prod.mk.injEq]
      constructor
      · rintro (⟨rfl, rfl⟩ | ⟨offset, below, rfl, isFound⟩)
        · exact ⟨[], (List.append_nil _).symm, rfl⟩
        · rw [Nat.zero_add]
          exact ⟨offset :: below, rfl, isFound⟩
      · rintro ⟨below, rfl, isFound⟩
        cases below with
        | nil => exact .inl ⟨List.append_nil _, (Option.some.inj isFound).symm⟩
        | cons offset below =>
            refine .inr ⟨offset, below, ?_, isFound⟩
            rw [Nat.zero_add]

theorem mem_locatedFrom {above sought : List Nat} {index : Nat}
    {found : NodeDefinition} : (definitions : List NodeDefinition) →
      ((sought, found) ∈ locatedFrom above index definitions ↔
        ∃ offset below, sought = above ++ (index + offset) :: below ∧
          (definitions[offset]?.bind fun node => node.nodeBelow? below) =
            some found)
  | [] => by simp [locatedFrom]
  | node :: rest => by
      rw [locatedFrom, List.mem_append, mem_located node, mem_locatedFrom rest]
      constructor
      · rintro (⟨below, rfl, isFound⟩ | ⟨offset, below, rfl, isFound⟩)
        · exact ⟨0, below, by simp, isFound⟩
        · refine ⟨offset + 1, below, ?_, isFound⟩
          rw [Nat.add_assoc, Nat.add_comm 1]
      · rintro ⟨offset, below, rfl, isFound⟩
        cases offset with
        | zero => exact .inl ⟨below, by simp, isFound⟩
        | succ offset =>
            refine .inr ⟨offset, below, ?_, isFound⟩
            rw [Nat.add_assoc, Nat.add_comm 1]

end

theorem mem_documentNodes {roots : List NodeDefinition} :
    (place, node) ∈ documentNodes roots ↔ nodeAt? roots place = some node := by
  rw [documentNodes, mem_locatedFrom]
  constructor
  · rintro ⟨offset, below, rfl, isFound⟩
    rw [Nat.zero_add]
    exact isFound
  · intro isFound
    cases place with
    | nil => cases isFound
    | cons index below => exact ⟨index, below, by simp, isFound⟩

mutual

theorem ascending_located (place : List Nat) : (node : NodeDefinition) →
    (node.located place).Pairwise fun earlier later => earlier.1 < later.1
  | ⟨name, key, children⟩ => by
      rw [located, List.pairwise_cons]
      refine ⟨?_, ascending_locatedFrom place 0 children⟩
      rintro ⟨sought, found⟩ isBelow
      obtain ⟨offset, below, rfl, -⟩ := (mem_locatedFrom children).1 isBelow
      have isLater : place ++ [] < place ++ (0 + offset) :: below :=
        List.append_left_lt (List.nil_lt_cons _ _)
      rwa [List.append_nil] at isLater

theorem ascending_locatedFrom (above : List Nat) (index : Nat) :
    (definitions : List NodeDefinition) →
      (locatedFrom above index definitions).Pairwise
        fun earlier later => earlier.1 < later.1
  | [] => List.Pairwise.nil
  | node :: rest => by
      rw [locatedFrom, List.pairwise_append]
      refine ⟨ascending_located _ node, ascending_locatedFrom _ _ rest, ?_⟩
      rintro ⟨first, _⟩ isFirst ⟨second, _⟩ isSecond
      obtain ⟨below, rfl, -⟩ := (mem_located node).1 isFirst
      obtain ⟨offset, later, rfl, -⟩ := (mem_locatedFrom rest).1 isSecond
      rw [List.append_assoc]
      refine List.append_left_lt (List.cons_lt_cons_iff.2 (.inl ?_))
      omega

end

theorem isUnnamed_iff :
    isUnnamed (place, node) = true ↔ 1 < place.length ∧ node.name = "" := by
  simp [isUnnamed]

end Listing

section Entries

variable {listed : List (List Nat × NodeDefinition)} {number : Nat}

/-- Two parts of a list that stand behind each other from a number on. -/
theorem isPrefix_drop_append {first second : List (List Nat × NodeDefinition)}
    (isPart : first ++ second <+: listed.drop number) :
    first <+: listed.drop number ∧
      second <+: listed.drop (number + first.length) := by
  obtain ⟨rest, isSplit⟩ := isPart
  refine ⟨⟨second ++ rest, by rw [← isSplit, List.append_assoc]⟩, rest, ?_⟩
  rw [← List.drop_drop, ← isSplit, List.append_assoc, List.drop_left]

theorem isPrefix_drop_cons {first : List Nat × NodeDefinition}
    {second : List (List Nat × NodeDefinition)}
    (isPart : first :: second <+: listed.drop number) :
    listed[number]? = some first ∧ second <+: listed.drop (number + 1) := by
  have areParts : [first] ++ second <+: listed.drop number := isPart
  refine ⟨?_, (isPrefix_drop_append areParts).2⟩
  obtain ⟨rest, isSplit⟩ := isPart
  rw [← Nat.add_zero number, ← List.getElem?_drop, ← isSplit]
  rfl

/-- The entries of listed nodes, one for each. -/
abbrev BecomeEntries (listed : List (List Nat × NodeDefinition)) :
    List (List Nat × NodeDefinition) → List Entry → Prop :=
  List.Forall₂ fun item entry => BecomesEntry listed item.1 item.2 entry

mutual

/-- A node that is listed under the number that it gets, below a node that is
listed as well, becomes an entry below that node. -/
theorem becomeEntries_located {above : List Nat} {index number parent : Nat}
    {holder : NodeDefinition}
    (isHolder : listed[parent]? = some (above, holder)) :
    (node : NodeDefinition) →
      node.located (above ++ [index]) <+: listed.drop number →
        BecomeEntries listed (node.located (above ++ [index]))
          (node.entries number parent)
  | ⟨name, key, children⟩, isPart => by
      rw [located] at isPart ⊢
      obtain ⟨isListed, isRest⟩ := isPrefix_drop_cons isPart
      rw [entries]
      exact .cons (.child index ⟨name, key, children⟩ isHolder)
        (becomeEntries_locatedFrom isListed children isRest)

theorem becomeEntries_locatedFrom {above : List Nat}
    {index number parent : Nat} {holder : NodeDefinition}
    (isHolder : listed[parent]? = some (above, holder)) :
    (definitions : List NodeDefinition) →
      locatedFrom above index definitions <+: listed.drop number →
        BecomeEntries listed (locatedFrom above index definitions)
          (entriesOfAll number parent definitions)
  | [], _ => .nil
  | node :: rest, isPart => by
      rw [locatedFrom] at isPart ⊢
      obtain ⟨isFirst, isRest⟩ := isPrefix_drop_append isPart
      rw [length_located] at isRest
      rw [entriesOfAll]
      exact List.rel_append (becomeEntries_located isHolder node isFirst)
        (becomeEntries_locatedFrom isHolder rest isRest)

end

theorem becomeEntries_documentEntries {index : Nat}
    {roots : List NodeDefinition}
    (isPart : locatedFrom [] index roots <+: listed.drop number) :
    BecomeEntries listed (locatedFrom [] index roots)
      (documentEntries number roots) := by
  induction roots generalizing index number with
  | nil => exact .nil
  | cons root roots ih =>
      rw [locatedFrom] at isPart ⊢
      obtain ⟨isFirst, isRest⟩ := isPrefix_drop_append isPart
      rw [length_located] at isRest
      rw [located_eq] at isFirst ⊢
      obtain ⟨isListed, isBelow⟩ := isPrefix_drop_cons isFirst
      rw [documentEntries, treeEntries]
      exact List.rel_append
        (.cons (.root index root)
          (becomeEntries_locatedFrom isListed root.children isBelow))
        (ih isRest)

end Entries

end NodeDefinition

namespace Schema

open NodeDefinition

/-- What adding listed nodes leads to: a schema if all of them have names, and
otherwise the name of the node that holds the one that was found without. -/
def Reports (listed : List (List Nat × NodeDefinition))
    (outcome : Except SchemaError Schema) :
    Option (List Nat × NodeDefinition) → Prop
  | none => ∃ schema, outcome = .ok schema
  | some item => ∃ holder, (item.1.dropLast, holder) ∈ listed ∧
      outcome = .error (.emptyName holder.name)

section Failures

variable {listed : List (List Nat × NodeDefinition)}

theorem Reports.bind {outcome : Except SchemaError Schema}
    {rest : Schema → Except SchemaError Schema}
    {found laterFound : Option (List Nat × NodeDefinition)}
    (reports : Reports listed outcome found)
    (laterReports : ∀ next, outcome = .ok next →
      Reports listed (rest next) laterFound) :
    Reports listed (outcome >>= rest) (found.or laterFound) := by
  cases found with
  | some item =>
      obtain ⟨holder, isHolder, rfl⟩ := reports
      exact ⟨holder, isHolder, rfl⟩
  | none =>
      obtain ⟨next, rfl⟩ := reports
      exact laterReports next rfl

mutual

theorem reports_addNode {schema : Schema} {above : List Nat}
    {index parent : Nat} {holder : NodeDefinition}
    (parentInUse : parent < schema.size) (notTop : above ≠ [])
    (isHolder : (above, holder) ∈ listed) : (node : NodeDefinition) →
      node.located (above ++ [index]) ⊆ listed →
        Reports listed (addNode schema parent holder.name node)
          ((node.located (above ++ [index])).find? isUnnamed)
  | ⟨name, key, children⟩, areListed => by
      have isDeep : 1 < (above ++ [index]).length := by
        have isLong := List.length_pos_iff.2 notTop
        rw [List.length_append, List.length_singleton]
        omega
      rw [located] at areListed ⊢
      obtain ⟨isListed, restListed⟩ := List.cons_subset.1 areListed
      rw [addNode]
      -- A node without a name is found before all that is below it.
      split
      next isEmpty =>
        rw [List.find?_cons_of_pos
          (isUnnamed_iff.2 ⟨isDeep, String.isEmpty_iff.1 isEmpty⟩)]
        refine ⟨holder, ?_, rfl⟩
        rwa [List.dropLast_concat]
      next notEmpty =>
        obtain ⟨next, isNext⟩ := exists_addChild parentInUse name key
        have childInUse := (addsEntry_addChild isNext).2.lt_size
        have isNamed : ¬ isUnnamed
            (above ++ [index], ⟨name, key, children⟩) = true :=
          fun isFound =>
            notEmpty (String.isEmpty_iff.2 (isUnnamed_iff.1 isFound).2)
        rw [List.find?_cons_of_neg isNamed, isNext]
        exact reports_addNodes childInUse
          (List.append_ne_nil_of_right_ne_nil _ (List.cons_ne_nil _ _))
          isListed children restListed

theorem reports_addNodes {schema : Schema} {above : List Nat}
    {index parent : Nat} {holder : NodeDefinition}
    (parentInUse : parent < schema.size) (notTop : above ≠ [])
    (isHolder : (above, holder) ∈ listed) :
    (definitions : List NodeDefinition) →
      locatedFrom above index definitions ⊆ listed →
        Reports listed (addNodes schema parent holder.name definitions)
          ((locatedFrom above index definitions).find? isUnnamed)
  | [], _ => ⟨schema, by rw [addNodes]⟩
  | node :: rest, areListed => by
      rw [locatedFrom] at areListed ⊢
      obtain ⟨firstListed, restListed⟩ := List.append_subset.1 areListed
      rw [addNodes, List.find?_append]
      refine (reports_addNode parentInUse notTop isHolder node
        firstListed).bind fun next isNext => ?_
      have stillInUse := (addsEntries_addNode node isNext).lt_size parentInUse
      exact reports_addNodes stillInUse notTop isHolder rest restListed

end

theorem reports_addTree (schema : Schema) {index : Nat}
    {root : NodeDefinition} (areListed : root.located [index] ⊆ listed) :
    Reports listed (addTree schema root)
      ((root.located [index]).find? isUnnamed) := by
  rw [located_eq] at areListed ⊢
  obtain ⟨isListed, belowListed⟩ := List.cons_subset.1 areListed
  have notBelow : ¬ isUnnamed ([index], root) = true := by
    simp [isUnnamed_iff]
  rw [List.find?_cons_of_neg notBelow]
  exact reports_addNodes (addsEntry_addRoot schema root.name).lt_size
    (List.cons_ne_nil _ _) isListed root.children belowListed

theorem reports_foldlM_addTree (schema : Schema) {index : Nat}
    {roots : List NodeDefinition}
    (areListed : locatedFrom [] index roots ⊆ listed) :
    Reports listed (roots.foldlM addTree schema)
      ((locatedFrom [] index roots).find? isUnnamed) := by
  induction roots generalizing schema index with
  | nil => exact ⟨schema, rfl⟩
  | cons root roots ih =>
      rw [locatedFrom] at areListed ⊢
      obtain ⟨firstListed, restListed⟩ := List.append_subset.1 areListed
      rw [List.foldlM_cons, List.find?_append]
      exact (reports_addTree schema firstListed).bind
        fun next _ => ih next restListed

end Failures

theorem reports_ofDefinitions (roots : List NodeDefinition) :
    Reports (documentNodes roots) (ofDefinitions roots)
      ((documentNodes roots).find? isUnnamed) :=
  reports_foldlM_addTree empty (List.Subset.refl _)

theorem ofDefinitions_eq_error_iff {roots : List NodeDefinition}
    {error : SchemaError} :
    ofDefinitions roots = .error error ↔
      ∃ place node holder,
        (documentNodes roots).find? isUnnamed = some (place, node) ∧
          nodeAt? roots place.dropLast = some holder ∧
            error = .emptyName holder.name := by
  have reports := reports_ofDefinitions roots
  constructor
  · intro isError
    cases isFound : (documentNodes roots).find? isUnnamed with
    | none =>
        rw [isFound] at reports
        obtain ⟨schema, isLoaded⟩ := reports
        rw [isLoaded] at isError
        cases isError
    | some item =>
        rw [isFound] at reports
        obtain ⟨holder, isHolder, isReported⟩ := reports
        rw [isReported] at isError
        cases isError
        exact ⟨item.1, item.2, holder, rfl, mem_documentNodes.1 isHolder, rfl⟩
  · rintro ⟨place, node, holder, isFound, isHolder, rfl⟩
    rw [isFound] at reports
    obtain ⟨other, isOther, isReported⟩ := reports
    cases isHolder.symm.trans (mem_documentNodes.1 isOther)
    exact isReported

theorem exists_ofDefinitions_iff_nodeAt? (roots : List NodeDefinition) :
    (∃ schema, ofDefinitions roots = .ok schema) ↔
      ∀ place node, nodeAt? roots place = some node → 1 < place.length →
        node.name ≠ "" := by
  have reports := reports_ofDefinitions roots
  constructor
  · rintro ⟨schema, isLoaded⟩ place node isNode isBelow isEmpty
    have isUnnamedNode := isUnnamed_iff.2 ⟨isBelow, isEmpty⟩
    have someFound := List.find?_isSome.2
      ⟨_, mem_documentNodes.2 isNode, isUnnamedNode⟩
    obtain ⟨item, isFound⟩ := Option.isSome_iff_exists.1 someFound
    rw [isFound] at reports
    obtain ⟨holder, -, isError⟩ := reports
    rw [isLoaded] at isError
    cases isError
  · intro areNamed
    have noneFound : (documentNodes roots).find? isUnnamed = none := by
      refine List.find?_eq_none.2 ?_
      rintro ⟨place, node⟩ isListed isFound
      obtain ⟨isBelow, isEmpty⟩ := isUnnamed_iff.1 isFound
      exact areNamed place node (mem_documentNodes.1 isListed) isBelow isEmpty
    rwa [noneFound] at reports

section Loaded

variable {roots : List NodeDefinition} {schema : Schema}
  (isLoaded : ofDefinitions roots = .ok schema)

include isLoaded

theorem becomeEntries_ofDefinitions :
    BecomeEntries (documentNodes roots) (documentNodes roots)
      schema.entries.toList := by
  rw [entries_ofDefinitions isLoaded]
  exact becomeEntries_documentEntries (List.prefix_refl _)

theorem size_eq_length_documentNodes :
    schema.size = (documentNodes roots).length :=
  (becomeEntries_ofDefinitions isLoaded).length_eq.symm

theorem exists_becomesEntry {number : Nat} {place : List Nat}
    {node : NodeDefinition}
    (isListed : (documentNodes roots)[number]? = some (place, node)) :
    ∃ entry, schema.get? number = some entry ∧
      BecomesEntry (documentNodes roots) place node entry := by
  obtain ⟨inBounds, isItem⟩ := List.getElem?_eq_some_iff.1 isListed
  have inUse : number < schema.size := by
    rwa [size_eq_length_documentNodes isLoaded]
  obtain ⟨entry, isEntry⟩ := exists_get?_of_lt inUse
  have isListedEntry : schema.entries.toList[number]? = some entry := by
    rwa [getElem?_toList_entries]
  obtain ⟨inEntries, rfl⟩ := List.getElem?_eq_some_iff.1 isListedEntry
  have becomes := (becomeEntries_ofDefinitions isLoaded).get inBounds inEntries
  simp only [List.get_eq_getElem, isItem] at becomes
  exact ⟨_, isEntry, becomes⟩

end Loaded

/-- What is built from definitions.  Their nodes stand in the order of their
places.  A schema is built exactly if no node below a root has the empty name.
It then has an entry for each node, under the number of the node in this order:
a root for a root, and else a child of the entry of the node that holds it.
Otherwise the error names the node that holds the first node below a root with
the empty name.  A stack of pending nodes leads to the same. -/
theorem ofDefinitions_in_document_order (roots : List NodeDefinition) :
    ((∀ place node, (place, node) ∈ documentNodes roots ↔
          nodeAt? roots place = some node) ∧
        (documentNodes roots).Pairwise
          fun earlier later => earlier.1 < later.1) ∧
      ((∃ schema, ofDefinitions roots = .ok schema) ↔
        ∀ place node, nodeAt? roots place = some node → 1 < place.length →
          node.name ≠ "") ∧
      (∀ schema, ofDefinitions roots = .ok schema →
        schema.size = (documentNodes roots).length ∧
          ∀ number place node,
            (documentNodes roots)[number]? = some (place, node) →
              ∃ entry, schema.get? number = some entry ∧
                BecomesEntry (documentNodes roots) place node entry) ∧
      (∀ error, ofDefinitions roots = .error error ↔
        ∃ place node holder,
          (documentNodes roots).find? isUnnamed = some (place, node) ∧
            nodeAt? roots place.dropLast = some holder ∧
              error = .emptyName holder.name) ∧
      roots.foldlM addTreePending empty = ofDefinitions roots := by
  refine ⟨⟨fun place node => mem_documentNodes,
      ascending_locatedFrom [] 0 roots⟩,
    exists_ofDefinitions_iff_nodeAt? roots, fun schema isLoaded => ?_,
    fun error => ofDefinitions_eq_error_iff, foldlM_addTreePending roots⟩
  exact ⟨size_eq_length_documentNodes isLoaded,
    fun number place node => exists_becomesEntry isLoaded⟩

/-- Two roots, the second one without a name, and a node whose child stands
before its next sibling. -/
def branchedRoots : List NodeDefinition :=
  [⟨"r", some "k", [⟨"a", some "id", [⟨"b", none, []⟩]⟩, ⟨"c", none, []⟩]⟩,
    ⟨"", none, [⟨"d", some "x y", []⟩]⟩]

/-- Two nodes that have no names, the deeper one first. -/
def unnamedRoots : List NodeDefinition :=
  [⟨"r", none, [⟨"a", none, [⟨"b", none, []⟩, ⟨"", none, []⟩]⟩,
    ⟨"", none, []⟩]⟩]

theorem branchedRoots_in_document_order :
    (documentNodes branchedRoots).map Prod.fst =
        [[0], [0, 0], [0, 0, 0], [0, 1], [1], [1, 0]] ∧
      (∃ schema, ofDefinitions branchedRoots = .ok schema ∧ schema.size = 6 ∧
        ∃ entry, schema.get? 5 = some entry ∧
          BecomesEntry (documentNodes branchedRoots) [1, 0]
            ⟨"d", some "x y", []⟩ entry) ∧
      ofDefinitions unnamedRoots = .error (.emptyName "a") := by
  have isBuilt : (ofDefinitions branchedRoots).isOk = true := by
    decide +kernel
  obtain ⟨schema, isLoaded⟩ := isOk_iff.1 isBuilt
  obtain ⟨-, -, loaded, -, -⟩ := ofDefinitions_in_document_order branchedRoots
  obtain ⟨-, -, -, failed, -⟩ := ofDefinitions_in_document_order unnamedRoots
  obtain ⟨isSize, becomes⟩ := loaded schema isLoaded
  refine ⟨rfl, ⟨schema, isLoaded, isSize, becomes 5 _ _ rfl⟩, ?_⟩
  exact (failed _).2 ⟨[0, 0, 1], ⟨"", none, []⟩, _, rfl, rfl, rfl⟩

end Schema

end KeyedPaths
