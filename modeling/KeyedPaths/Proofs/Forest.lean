import Mathlib.Logic.Relation
import KeyedPaths.Proofs.Growth
import KeyedPaths.Proofs.DocumentEntries
import KeyedPaths.Proofs.Preorder

/-!
# The forest of entries

However entries are added, they form a forest.  Lists of plain entries, of which
nothing is required, grow in the same way as schemas do, and therefore a parent
always has a smaller number than its children.  The walk towards the root ends
after descending steps at the only root that it passes.  It passes exactly the
entries from which steps to children lead back, so that every entry lies below
one root, and all names of its structural path are there to be read.
-/

namespace KeyedPaths

open StructuralPath

/-- The data of an entry, whatever they are. -/
structure PlainEntry where
  name : String
  key : Option String
  parent? : Option Nat
deriving DecidableEq

def Entry.plain (entry : Entry) : PlainEntry :=
  ⟨entry.name, entry.key?, entry.parent?⟩

/-- The plain entries after a request.  A child whose parent is not listed is
not added. -/
def addPlain (entries : List PlainEntry) : Addition → List PlainEntry
  | .root name => entries ++ [⟨name, none, none⟩]
  | .child parent name key =>
      if parent < entries.length then entries ++ [⟨name, key, some parent⟩]
      else entries

/-- The request that an entry comes from. -/
def Entry.addition : Entry → Addition
  | .root name => .root name
  | .child parent name key => .child parent name key

/-- Every parent stands before its entry, and roots have no key. -/
def IsForest (entries : List PlainEntry) : Prop :=
  ∀ (id : Nat) (entry : PlainEntry), entries[id]? = some entry →
    (∀ parent, entry.parent? = some parent → parent < id) ∧
      (entry.parent? = none → entry.key = none)

namespace Schema

def plainEntries (schema : Schema) : List PlainEntry :=
  schema.entries.toList.map Entry.plain

/-- The entry that is reached after a number of steps to the parent. -/
def walk (schema : Schema) : Nat → Nat → Option Nat
  | 0, id => some id
  | steps + 1, id => (schema.parent? id).bind (schema.walk steps)

/-- Steps to children lead from an entry to another one. -/
def LeadsTo (schema : Schema) : Nat → Nat → Prop :=
  Relation.ReflTransGen fun parent child => child ∈ schema.children parent

/-- The structural path of an entry, if all entries on the way to the root can
be read. -/
def structuralPath? (schema : Schema) (id : Nat) : Option String :=
  ((schema.ancestors id).mapM schema.get?).map fun passed =>
    ofNames (passed.filterMap Entry.pathName?).reverse

/-- The numbers passed on a walk from an entry to its root: they descend from
the entry, all of them are in use, and the last one is the only root. -/
structure IsLineage (schema : Schema) (id : Nat) (passed : List Nat) :
    Prop where
  isDescending : passed.Pairwise (· > ·)
  startsAtEntry : passed.head? = some id
  inUse : ∀ above ∈ passed, above < schema.size
  endsAtOnlyRoot : ∃ root, passed.getLast? = some root ∧
    ∀ above ∈ passed, above ∈ schema.roots ↔ above = root

variable {schema extended : Schema} {id above : Nat}

section Additions

theorem addsEntries_add_root (schema : Schema) (name : String) :
    schema.AddsEntries [.root name] (schema.add (.root name)) :=
  addsEntries_addRoot schema name

theorem addsEntries_add_child {parent : Nat}
    (parentInUse : parent < schema.size) (name : String) (key : Option String) :
    schema.AddsEntries [.child parent name key]
      (schema.add (.child parent name key)) := by
  obtain ⟨extended, isAdded⟩ := exists_addChild parentInUse name key
  rw [add, isAdded]
  exact addsEntries_addChild isAdded

theorem add_child_of_not_lt {parent : Nat} (notInUse : ¬ parent < schema.size)
    (name : String) (key : Option String) :
    schema.add (.child parent name key) = schema := by
  rw [add, addChild, dif_neg notInUse]

theorem length_plainEntries (schema : Schema) :
    schema.plainEntries.length = schema.size := by
  rw [plainEntries, List.length_map, Array.length_toList, size]

theorem AddsEntries.plainEntries_eq {added : List Entry}
    (addsEntries : schema.AddsEntries added extended) :
    extended.plainEntries = schema.plainEntries ++ added.map Entry.plain := by
  rw [plainEntries, addsEntries, List.map_append, plainEntries]

theorem plainEntries_add (schema : Schema) (addition : Addition) :
    (schema.add addition).plainEntries =
      addPlain schema.plainEntries addition := by
  cases addition with
  | root name => exact (addsEntries_add_root schema name).plainEntries_eq
  | child parent name key =>
      rw [addPlain, length_plainEntries]
      split
      next parentInUse =>
        exact (addsEntries_add_child parentInUse name key).plainEntries_eq
      next notInUse => rw [add_child_of_not_lt notInUse]

/-- Plain entries grow as the entries of a schema do. -/
theorem plainEntries_addAll (schema : Schema) (additions : List Addition) :
    (schema.addAll additions).plainEntries =
      additions.foldl addPlain schema.plainEntries := by
  induction additions generalizing schema with
  | nil => rfl
  | cons addition additions ih =>
      rw [addAll, List.foldl_cons, ← addAll, ih, plainEntries_add,
        List.foldl_cons]

theorem isForest_plainEntries (schema : Schema) :
    IsForest schema.plainEntries := by
  intro id plain isListed
  rw [plainEntries, List.getElem?_map, getElem?_toList_entries,
    Option.map_eq_some_iff] at isListed
  obtain ⟨entry, isEntry, rfl⟩ := isListed
  constructor
  · intro parent isParent
    apply schema.parent?_lt
    rw [parent?, isEntry]
    exact isParent
  · intro noParent
    cases entry with
    | root name => rfl
    | child parent name key => cases noParent

theorem addsEntries_add_addition {entry : Entry}
    (parentInUse : ∀ parent, entry.parent? = some parent →
      parent < schema.size) :
    schema.AddsEntries [entry] (schema.add entry.addition) := by
  cases entry with
  | root name => exact addsEntries_add_root schema name
  | child parent name key =>
      exact addsEntries_add_child (parentInUse parent rfl) name key

theorem addAll_append (schema : Schema) (first second : List Addition) :
    schema.addAll (first ++ second) = (schema.addAll first).addAll second :=
  List.foldl_append

theorem toList_addAll_take {number : Nat} (inBounds : number ≤ schema.size) :
    (empty.addAll ((schema.entries.toList.take number).map
      Entry.addition)).entries.toList = schema.entries.toList.take number := by
  induction number with
  | zero => rfl
  | succ number ih =>
      obtain ⟨entry, isEntry⟩ := exists_get?_of_lt inBounds
      have isReached := ih (Nat.le_of_lt inBounds)
      rw [List.take_add_one, getElem?_toList_entries, isEntry,
        Option.toList_some, List.map_append, List.map_singleton, addAll_append]
      generalize empty.addAll
        ((schema.entries.toList.take number).map Entry.addition) = earlier
        at isReached ⊢
      have isSize : earlier.size = number := by
        rw [size, ← Array.length_toList, isReached]
        exact List.length_take_of_le (Nat.le_of_lt inBounds)
      -- The parent of the next entry is among those that are rebuilt already.
      have parentInUse (parent : Nat) (isParent : entry.parent? = some parent) :
          parent < earlier.size := by
        rw [isSize]
        apply schema.parent?_lt
        rw [parent?, isEntry, Option.bind_some, isParent]
      have addsEntry := addsEntries_add_addition parentInUse
      rw [AddsEntries, isReached] at addsEntry
      exact addsEntry

/-- Every schema is what its own requests make of the empty one. -/
theorem addAll_additions (schema : Schema) :
    empty.addAll (schema.entries.toList.map Entry.addition) = schema := by
  have isReached := toList_addAll_take (Nat.le_refl schema.size)
  rw [size, ← Array.length_toList, List.take_length] at isReached
  exact ext_entries (Array.toList_inj.1 isReached)

end Additions

section Walks

theorem getElem?_ancestors (schema : Schema) (id steps : Nat) :
    (schema.ancestors id)[steps]? = schema.walk steps id := by
  induction steps generalizing id with
  | zero =>
      cases isParent : schema.parent? id with
      | none => rw [ancestors_of_parent?_eq_none isParent]; rfl
      | some parent => rw [ancestors_of_parent?_eq_some isParent]; rfl
  | succ steps ih =>
      rw [walk]
      cases isParent : schema.parent? id with
      | none => rw [ancestors_of_parent?_eq_none isParent]; rfl
      | some parent =>
          rw [ancestors_of_parent?_eq_some isParent,
            List.getElem?_cons_succ, ih]
          rfl

theorem ancestors_descending (schema : Schema) (id : Nat) :
    (schema.ancestors id).Pairwise (· > ·) := by
  induction id using Nat.strongRecOn with
  | ind id ih =>
      cases isParent : schema.parent? id with
      | none =>
          rw [ancestors_of_parent?_eq_none isParent]
          exact List.pairwise_singleton _ _
      | some parent =>
          have isBefore := parent?_lt isParent
          rw [ancestors_of_parent?_eq_some isParent]
          refine List.pairwise_cons.2
            ⟨fun other isAbove => ?_, ih parent isBefore⟩
          exact Nat.lt_of_le_of_lt (le_of_mem_ancestors isAbove) isBefore

theorem head?_ancestors (schema : Schema) (id : Nat) :
    (schema.ancestors id).head? = some id := by
  rw [List.head?_eq_getElem?, getElem?_ancestors]
  rfl

theorem exists_getLast?_ancestors (schema : Schema) (id : Nat) :
    ∃ last, (schema.ancestors id).getLast? = some last ∧
      schema.parent? last = none := by
  induction id using Nat.strongRecOn with
  | ind id ih =>
      cases isParent : schema.parent? id with
      | none =>
          rw [ancestors_of_parent?_eq_none isParent]
          exact ⟨id, rfl, isParent⟩
      | some parent =>
          obtain ⟨last, isLast, noParent⟩ := ih parent (parent?_lt isParent)
          rw [ancestors_of_parent?_eq_some isParent, List.getLast?_cons, isLast]
          exact ⟨last, rfl, noParent⟩

theorem length_ancestors_le (schema : Schema) (id : Nat) :
    (schema.ancestors id).length ≤ id + 1 := by
  induction id using Nat.strongRecOn with
  | ind id ih =>
      cases isParent : schema.parent? id with
      | none =>
          rw [ancestors_of_parent?_eq_none isParent, List.length_singleton]
          exact Nat.le_add_left 1 id
      | some parent =>
          have isBefore := parent?_lt isParent
          have parentLength := ih parent isBefore
          rw [ancestors_of_parent?_eq_some isParent, List.length_cons]
          omega

theorem lt_size_of_mem_ancestors_of_lt (inUse : id < schema.size) :
    ∀ above ∈ schema.ancestors id, above < schema.size :=
  fun _ isAbove => Nat.lt_of_le_of_lt (le_of_mem_ancestors isAbove) inUse

theorem isLineage_ancestors (inUse : id < schema.size) :
    schema.IsLineage id (schema.ancestors id) where
  isDescending := ancestors_descending schema id
  startsAtEntry := head?_ancestors schema id
  inUse := lt_size_of_mem_ancestors_of_lt inUse
  endsAtOnlyRoot := by
    obtain ⟨root, isLast, noParent⟩ := exists_getLast?_ancestors schema id
    have isPassed := List.mem_of_getLast? isLast
    refine ⟨root, isLast, fun above isAbove => ?_⟩
    constructor
    · intro isRoot
      have sameParent := (mem_roots.1 isRoot).2.trans noParent.symm
      exact eq_of_parent?_eq sameParent isAbove isPassed
    · rintro rfl
      exact mem_roots.2
        ⟨lt_size_of_mem_ancestors_of_lt inUse _ isPassed, noParent⟩

theorem mem_ancestors_iff_leadsTo :
    above ∈ schema.ancestors id ↔ schema.LeadsTo above id := by
  constructor
  · intro isAbove
    induction id using Nat.strongRecOn with
    | ind id ih =>
        rcases mem_ancestors_iff.1 isAbove with
          rfl | ⟨parent, isParent, isLater⟩
        · exact .refl
        · exact .tail (ih parent (parent?_lt isParent) isLater)
            (mem_children.2 isParent)
  · intro leads
    induction leads with
    | refl => exact self_mem_ancestors schema above
    | tail _ isChild ih =>
        exact mem_ancestors_of_parent? (mem_children.1 isChild) ih

theorem existsUnique_root_leadsTo (inUse : id < schema.size) :
    ∃! root, root ∈ schema.roots ∧ schema.LeadsTo root id := by
  obtain ⟨root, isRoot, isAbove⟩ := exists_root_mem_ancestors inUse
  refine ⟨root, ⟨isRoot, mem_ancestors_iff_leadsTo.1 isAbove⟩, ?_⟩
  rintro other ⟨isOther, leads⟩
  exact eq_of_parent?_eq (parent?_eq_of_mem_roots isOther isRoot)
    (mem_ancestors_iff_leadsTo.2 leads) isAbove

theorem mapM_get?_eq_some {ids : List Nat}
    (inUse : ∀ id ∈ ids, id < schema.size) :
    ids.mapM schema.get? = some (ids.filterMap schema.get?) := by
  induction ids with
  | nil => rfl
  | cons id ids ih =>
      rw [List.forall_mem_cons] at inUse
      obtain ⟨entry, isEntry⟩ := exists_get?_of_lt inUse.1
      rw [List.mapM_cons, isEntry, ih inUse.2,
        List.filterMap_cons_some isEntry]
      rfl

theorem structuralPath?_eq (schema : Schema) (id : Nat) :
    schema.structuralPath? id =
      if id < schema.size then some (schema.structuralPath id) else none := by
  rw [structuralPath?]
  split
  next inUse =>
    rw [mapM_get?_eq_some (lt_size_of_mem_ancestors_of_lt inUse),
      Option.map_some, List.filterMap_filterMap, ← List.filterMap_reverse]
    rfl
  next notInUse =>
    have noEntry : schema.get? id = none :=
      Array.getElem?_eq_none (Nat.le_of_not_lt notInUse)
    have noParent : schema.parent? id = none := by
      rw [parent?, noEntry]
      rfl
    rw [ancestors_of_parent?_eq_none noParent, List.mapM_cons, noEntry]
    rfl

end Walks

/-- Every schema comes from requests, and plain entries stay a forest on further
requests.  From every entry the walk to the parents ends after descending steps
at the only root on it.  It passes exactly the entries from which steps to
children lead back, so exactly one root leads to an entry, and the structural
path of an entry can be read. -/
theorem entries_form_forest (schema : Schema) :
    (∃ additions, empty.addAll additions = schema) ∧
      (∀ additions : List Addition,
        (schema.addAll additions).plainEntries =
            additions.foldl addPlain schema.plainEntries ∧
          IsForest (additions.foldl addPlain schema.plainEntries)) ∧
      (∀ id < schema.size,
        (∀ steps, (schema.ancestors id)[steps]? = schema.walk steps id) ∧
          (schema.ancestors id).length ≤ id + 1 ∧
          schema.IsLineage id (schema.ancestors id)) ∧
      (∀ above id, above ∈ schema.ancestors id ↔ schema.LeadsTo above id) ∧
      (∀ id < schema.size, ∃! root, root ∈ schema.roots ∧
        schema.LeadsTo root id) ∧
      ∀ id, schema.structuralPath? id =
        if id < schema.size then some (schema.structuralPath id) else none := by
  refine ⟨⟨_, addAll_additions schema⟩, fun additions => ?_, fun id inUse => ?_,
    fun above id => mem_ancestors_iff_leadsTo,
    fun id => existsUnique_root_leadsTo, structuralPath?_eq schema⟩
  · have isGrown := plainEntries_addAll schema additions
    exact ⟨isGrown, isGrown ▸ isForest_plainEntries _⟩
  · exact ⟨getElem?_ancestors schema id, length_ancestors_le schema id,
      isLineage_ancestors inUse⟩

/-- Requests for two trees whose entries alternate.  The second one fails. -/
def alternatingAdditions : List Addition :=
  [.root "east", .child 1 "early" none, .root "west",
    .child 0 "dock" (some "bay"), .child 1 "" none, .child 2 "crane" none]

theorem alternatingAdditions_form_forest :
    let schema := empty.addAll alternatingAdditions
    schema.size = 5 ∧ schema.walk 2 4 = some 0 ∧
      IsForest (alternatingAdditions.foldl addPlain []) ∧
      schema.IsLineage 4 [4, 2, 0] ∧
      schema.LeadsTo 1 3 ∧
      (∃! root, root ∈ schema.roots ∧ schema.LeadsTo root 4) ∧
      schema.structuralPath? 4 = some "/dock/crane" ∧
      schema.structuralPath? 5 = none := by
  intro schema
  have isSize : schema.size = 5 := by decide +kernel
  have isWalk : schema.ancestors 4 = [4, 2, 0] := by decide +kernel
  have isPath : schema.structuralPath 4 = "/dock/crane" := by decide +kernel
  obtain ⟨-, -, haveLineage, leadsIff, haveRoot, havePath⟩ :=
    entries_form_forest schema
  have isLast : 4 < schema.size := by rw [isSize]; decide
  have pathOfLast := havePath 4
  rw [if_pos isLast, isPath] at pathOfLast
  refine ⟨isSize, ?_, ?_, ?_, ?_, haveRoot 4 isLast, pathOfLast, ?_⟩
  · rw [← (haveLineage 4 isLast).1, isWalk]
    rfl
  · exact ((entries_form_forest empty).2.1 alternatingAdditions).2
  · rw [← isWalk]
    exact (haveLineage 4 isLast).2.2
  · exact (leadsIff 1 3).1 (by decide +kernel)
  · rw [havePath 5, if_neg (by rw [isSize]; decide)]

end Schema

end KeyedPaths
