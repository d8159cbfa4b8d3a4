import KeyedPaths.Proofs.DocumentRules
import KeyedPaths.Proofs.SegmentBlocks

/-!
# Growing schemas

Entries are added to a schema one after the other.  What is added leaves the
structural paths and the key names of the earlier entries alone, so the rule
table of the grown schema has the earlier rules and those of the added keyed
entries.

A walk along a path depends on a rule table only at the structural paths that it
visits.  As long as none of them is that of an added keyed entry, all walks give
the same results before and after the growth, errors included.
-/

namespace KeyedPaths

open StructuralPath

/-- A request to add an entry to a schema. -/
inductive Addition where
  | root (name : String)
  | child (parent : Nat) (name : String) (key : Option String)

namespace Schema

/-- The schema after a request.  One that fails leaves it as it is. -/
def add (schema : Schema) : Addition → Schema
  | .root name => schema.addRoot name
  | .child parent name key =>
      match schema.addChild parent name key with
      | .ok extended => extended
      | .error _ => schema

def addAll (schema : Schema) (additions : List Addition) : Schema :=
  additions.foldl add schema

/-- The structural paths of the keyed entries that an extended schema has got
beyond those of the original one. -/
def addedPaths (schema extended : Schema) : List String :=
  (extended.keyedIds.filter fun id => schema.size ≤ id).map
    extended.structuralPath

variable {schema extended : Schema}

theorem extends_add (schema : Schema) (addition : Addition) :
    schema.Extends (schema.add addition) := by
  cases addition with
  | root name => exact (addsEntry_addRoot schema name).isExtended
  | child parent name key =>
      rw [add]
      split
      next extended isAdded => exact (addsEntry_addChild isAdded).2.isExtended
      next => exact Extends.refl schema

theorem extends_addAll (schema : Schema) (additions : List Addition) :
    schema.Extends (schema.addAll additions) := by
  induction additions generalizing schema with
  | nil => exact Extends.refl schema
  | cons addition additions ih =>
      exact (extends_add schema addition).trans (ih (schema.add addition))

/-- The rules of an extended schema are those of the original one and those of
the added entries. -/
theorem Extends.exists_rule?_iff (isExtended : schema.Extends extended)
    {path : String} {keyNames : List String}
    (notAdded : path ∉ schema.addedPaths extended) :
    (∃ id, extended.rule? id = some (path, keyNames)) ↔
      ∃ id, schema.rule? id = some (path, keyNames) := by
  refine exists_congr fun id => ?_
  by_cases inUse : id < schema.size
  · rw [isExtended.rule?_eq inUse]
  · have isNew : schema.size ≤ id := Nat.le_of_not_lt inUse
    constructor
    · intro isRule
      obtain ⟨isKeyed, rfl⟩ := mem_keyedIds_of_rule? isRule
      refine absurd (List.mem_map_of_mem (List.mem_filter.2 ⟨isKeyed, ?_⟩))
        notAdded
      exact decide_eq_true isNew
    · intro isRule
      have isKeyed := (mem_keyedIds_of_rule? isRule).1
      exact absurd (mem_ids.1 (mem_ids_of_mem_keyedIds isKeyed)) inUse

end Schema

/-- The structural paths through the names of a path up to each element. -/
def Path.passedPaths (path : Path) : List String :=
  (locate PathElement.name path).map Prod.fst

namespace RuleTable

/-- The structural paths at which resolving looks for a rule: that of every
name, up to the one whose values are missing if there is such a name. -/
def visitedPaths (table : RuleTable) (segments : List String) : List String :=
  (locate Block.name (table.blocks segments)).map Prod.fst

section Agreement

variable {table other : RuleTable}

theorem keyNamesAt_eq_of_keyNames?_eq {path : String}
    (sameRule : other.keyNames? path = table.keyNames? path) :
    other.keyNamesAt path = table.keyNamesAt path := by
  rw [keyNamesAt, keyNamesAt, sameRule]

theorem resolveBelow_eq_of_agree {path : String} {segments : List String}
    (agree : ∀ located ∈ locateBelow Block.name path
        (table.blocksBelow path segments),
      other.keyNames? located.1 = table.keyNames? located.1) :
    other.resolveBelow path segments = table.resolveBelow path segments := by
  fun_induction blocksBelow table path segments with
  | case1 path => rw [resolveBelow, resolveBelow]
  | case2 path name rest ih =>
      rw [locateBelow, List.forall_mem_cons] at agree
      obtain ⟨sameRule, laterAgree⟩ := agree
      rw [resolveBelow_cons, resolveBelow_cons,
        keyNamesAt_eq_of_keyNames?_eq sameRule, ih laterAgree]

theorem annotateBelow_eq_of_agree {path : String} {changed : Bool}
    {elements : Path}
    (agree : ∀ located ∈ locateBelow PathElement.name path elements,
      other.keyNames? located.1 = table.keyNames? located.1) :
    other.annotateBelow path changed elements =
      table.annotateBelow path changed elements := by
  induction elements generalizing path changed with
  | nil => rfl
  | cons element rest ih =>
      rw [locateBelow, List.forall_mem_cons] at agree
      obtain ⟨sameRule, laterAgree⟩ := agree
      dsimp only at sameRule
      rw [annotateBelow, annotateBelow, sameRule]
      simp only [ih laterAgree]

theorem flattenBelow_eq_of_agree {path : String} {elements : Path}
    (agree : ∀ located ∈ locateBelow PathElement.name path elements,
      other.keyNames? located.1 = table.keyNames? located.1) :
    other.flattenBelow path elements = table.flattenBelow path elements := by
  induction elements generalizing path with
  | nil => rfl
  | cons element rest ih =>
      rw [locateBelow, List.forall_mem_cons] at agree
      obtain ⟨sameRule, laterAgree⟩ := agree
      dsimp only at sameRule
      rw [flattenBelow, flattenBelow, keyValues, keyValues, sameRule,
        ih laterAgree]

end Agreement

section Growth

variable {schema extended : Schema} {table grown : RuleTable}
  (isExtended : schema.Extends extended)
  (isBuilt : ofSchema schema = .ok table)
  (isGrown : ofSchema extended = .ok grown)

include isExtended isBuilt isGrown

/-- Away from the added keyed entries the grown table has the same rules. -/
theorem keyNames?_eq_of_extends {path : String}
    (notAdded : path ∉ schema.addedPaths extended) :
    grown.keyNames? path = table.keyNames? path := by
  refine Option.ext fun keyNames => ?_
  rw [keyNames?_eq_some_iff_of_ofSchema isGrown,
    keyNames?_eq_some_iff_of_ofSchema isBuilt]
  exact isExtended.exists_rule?_iff notAdded

theorem forall_located_keyNames?_eq {Item : Type}
    {places : List (String × Item)}
    (notAdded : ∀ path ∈ places.map Prod.fst,
      path ∉ schema.addedPaths extended) :
    ∀ located ∈ places, grown.keyNames? located.1 = table.keyNames? located.1 :=
  fun _ isPlace => keyNames?_eq_of_extends isExtended isBuilt isGrown
    (notAdded _ (List.mem_map_of_mem isPlace))

end Growth

/-- Whatever is added to a schema, segments resolve as before, with the same
error if there is one, unless resolving them has visited the structural path of
an added keyed entry.  Paths are annotated and flattened as before unless some
names at their beginning lead to such a structural path. -/
theorem growth_is_local {schema : Schema} {additions : List Addition}
    {table grown : RuleTable} (isBuilt : ofSchema schema = .ok table)
    (isGrown : ofSchema (schema.addAll additions) = .ok grown) :
    (∀ segments : List String,
        (∀ path ∈ table.visitedPaths segments,
          path ∉ schema.addedPaths (schema.addAll additions)) →
        grown.resolve segments = table.resolve segments) ∧
      ∀ path : Path,
        (∀ passed ∈ path.passedPaths,
          passed ∉ schema.addedPaths (schema.addAll additions)) →
        grown.annotate path = table.annotate path ∧
          grown.flatten path = table.flatten path := by
  have isExtended := Schema.extends_addAll schema additions
  constructor
  · intro segments notAdded
    exact resolveBelow_eq_of_agree
      (forall_located_keyNames?_eq isExtended isBuilt isGrown notAdded)
  · intro path notAdded
    have agree :=
      forall_located_keyNames?_eq isExtended isBuilt isGrown notAdded
    exact ⟨annotateBelow_eq_of_agree agree, flattenBelow_eq_of_agree agree⟩

/-- A root with a keyed list. -/
def shelfSchema : Schema :=
  (Schema.empty.addRoot "r").push (.child 0 "shelf" (some "row id"))
    (by rintro _ ⟨⟩; decide)

def shelfTable : RuleTable :=
  empty.insert "/shelf" ["row", "id"] (by decide)

/-- A keyed list below the first one, one below another root, and a child that
cannot be added. -/
def shelfAdditions : List Addition :=
  [.child 1 "box" (some "slot"), .child 9 "lost" (some "y"), .root "s",
    .child 3 "rack" (some "z")]

def shelvesTable : RuleTable :=
  (shelfTable.insert "/shelf/box" ["slot"] (by decide)).insert
    "/rack" ["z"] (by decide)

theorem shelvesTable_growth :
    (ofSchema shelfSchema = .ok shelfTable ∧
        ofSchema (shelfSchema.addAll shelfAdditions) = .ok shelvesTable) ∧
      shelvesTable.resolve ["shelf", "1", "2", "leaf", "rack", "box"] =
        shelfTable.resolve ["shelf", "1", "2", "leaf", "rack", "box"] ∧
      shelvesTable.resolve ["shelf", "1"] = shelfTable.resolve ["shelf", "1"] ∧
      shelvesTable.annotate [.ofName "shelf", .ofName "leaf"] =
        shelfTable.annotate [.ofName "shelf", .ofName "leaf"] ∧
      shelvesTable.flatten [.withKeys "shelf" [("id", "2"), ("row", "1")]] =
        shelfTable.flatten [.withKeys "shelf" [("id", "2"), ("row", "1")]] ∧
      shelvesTable.resolve ["shelf", "1", "2", "box"] ≠
        shelfTable.resolve ["shelf", "1", "2", "box"] := by
  have isBuilt : ofSchema shelfSchema = .ok shelfTable := by decide +kernel
  have isGrown :
      ofSchema (shelfSchema.addAll shelfAdditions) = .ok shelvesTable := by
    decide +kernel
  obtain ⟨sameResolved, sameWalks⟩ := growth_is_local isBuilt isGrown
  exact ⟨⟨isBuilt, isGrown⟩, sameResolved _ (by decide +kernel),
    sameResolved _ (by decide +kernel), (sameWalks _ (by decide +kernel)).1,
    (sameWalks _ (by decide +kernel)).2, by decide +kernel⟩

end RuleTable

end KeyedPaths
