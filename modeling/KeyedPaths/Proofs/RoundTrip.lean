import Mathlib.Control.Monad.Basic
import KeyedPaths.Proofs.SegmentBlocks

/-!
# Resolving and flattening

Flattening takes back what resolving has made of segments, as long as the values
that a key name is given more than once agree: of such values an element keeps
only the last.  Resolving takes back what flattening has made of a path, as long
as the keys of every element are the key names of its rule.  These paths are
also the only ones to which segments resolve.
-/

namespace KeyedPaths

open StructuralPath

/-- Positions with one key name hold one value. -/
def Agree (keyNames values : List String) : Prop :=
  ∀ (first second : Nat) (keyName : String),
    keyNames[first]? = some keyName → keyNames[second]? = some keyName →
      values[first]? = values[second]?

theorem agree_of_nodup {keyNames : List String} (nodup : keyNames.Nodup)
    (values : List String) : Agree keyNames values := by
  intro first second keyName isFirst isSecond
  have inBounds : first < keyNames.length :=
    (List.getElem?_eq_some_iff.1 isFirst).1
  have sameIndex : first = second :=
    (List.getElem?_inj inBounds nodup).1 (isFirst.trans isSecond.symm)
  rw [sameIndex]

theorem consistent_zip_iff {keyNames values : List String}
    (sameLength : values.length = keyNames.length) :
    Consistent (keyNames.zip values) ↔ Agree keyNames values := by
  constructor
  · intro consistent first second keyName isFirst isSecond
    have firstBound := (List.getElem?_eq_some_iff.1 isFirst).1
    have secondBound := (List.getElem?_eq_some_iff.1 isSecond).1
    rw [← sameLength] at firstBound secondBound
    have firstListed : (keyName, values[first]) ∈ keyNames.zip values :=
      List.mem_of_getElem? (List.getElem?_zip_eq_some.2
        ⟨isFirst, List.getElem?_eq_getElem firstBound⟩)
    have secondListed : (keyName, values[second]) ∈ keyNames.zip values :=
      List.mem_of_getElem? (List.getElem?_zip_eq_some.2
        ⟨isSecond, List.getElem?_eq_getElem secondBound⟩)
    have sameValue : values[first] = values[second] :=
      consistent _ firstListed _ secondListed rfl
    rw [List.getElem?_eq_getElem firstBound,
      List.getElem?_eq_getElem secondBound, sameValue]
  · intro agree first isFirst second isSecond sameKey
    obtain ⟨firstIndex, firstAt⟩ := List.mem_iff_getElem?.1 isFirst
    obtain ⟨secondIndex, secondAt⟩ := List.mem_iff_getElem?.1 isSecond
    obtain ⟨firstKey, firstValue⟩ := List.getElem?_zip_eq_some.1 firstAt
    obtain ⟨secondKey, secondValue⟩ := List.getElem?_zip_eq_some.1 secondAt
    have sameValue := agree firstIndex secondIndex first.1 firstKey
      (sameKey ▸ secondKey)
    rw [firstValue, secondValue] at sameValue
    exact Option.some.inj sameValue

/-- Values bound to key names position by position can be read back exactly when
those of repeated key names agree. -/
theorem filterMap_get?_zip_eq_iff {keyNames values : List String}
    (sameLength : values.length = keyNames.length) :
    keyNames.filterMap (StringMap.ofList (keyNames.zip values)).get? = values ↔
      Agree keyNames values := by
  have firsts : (keyNames.zip values).map Prod.fst = keyNames :=
    List.map_fst_zip (Nat.le_of_eq sameLength.symm)
  have seconds : (keyNames.zip values).map Prod.snd = values :=
    List.map_snd_zip (Nat.le_of_eq sameLength)
  have lookups :=
    StringMap.filterMap_get?_ofList_eq_iff (keyNames.zip values)
  rwa [firsts, seconds, consistent_zip_iff sameLength] at lookups

namespace RuleTable

variable (table : RuleTable)

section Block

variable {table} {located : String × Block}

theorem map_fst_zip_values (isComplete : table.IsComplete located) :
    ((table.keyNamesAt located.1).zip located.2.values).map Prod.fst =
      table.keyNamesAt located.1 :=
  List.map_fst_zip (Nat.le_of_eq isComplete.symm)

theorem mem_keys_blockElement (isComplete : table.IsComplete located)
    {key : String} :
    key ∈ (table.blockElement located).keys.keys ↔
      key ∈ table.keyNamesAt located.1 := by
  rw [blockElement, PathElement.withKeys, StringMap.mem_keys_ofList,
    map_fst_zip_values isComplete]

theorem keyValues_blockElement (isComplete : table.IsComplete located) :
    table.keyValues located.1 (table.blockElement located).keys =
      (table.keyNamesAt located.1).filterMap
        (table.blockElement located).keys.get? :=
  table.keyValues_of_keys_subset fun _ isKey =>
    (mem_keys_blockElement isComplete).1 isKey

theorem length_keyValues_blockElement (isComplete : table.IsComplete located) :
    (table.keyValues located.1 (table.blockElement located).keys).length =
      located.2.values.length := by
  rw [keyValues_blockElement isComplete, length_filterMap, isComplete]
  intro key isListed
  exact StringMap.mem_keys.1 ((mem_keys_blockElement isComplete).2 isListed)

/-- The element of a block gives back the values of the block exactly when
the values of repeated key names agree. -/
theorem keyValues_blockElement_eq_iff (isComplete : table.IsComplete located) :
    table.keyValues located.1 (table.blockElement located).keys =
        located.2.values ↔
      Agree (table.keyNamesAt located.1) located.2.values := by
  rw [keyValues_blockElement isComplete]
  exact filterMap_get?_zip_eq_iff isComplete

end Block

/-- Flattening the elements of complete blocks gives the segments of the blocks
exactly when the values of repeated key names agree in every block. -/
theorem flattenBelow_blockElements_eq_iff {path : String}
    {blocks : List Block}
    (complete : ∀ located ∈ locateBelow Block.name path blocks,
      table.IsComplete located) :
    table.flattenBelow path
          ((locateBelow Block.name path blocks).map table.blockElement) =
        blocks.flatMap Block.segments ↔
      ∀ located ∈ locateBelow Block.name path blocks,
        Agree (table.keyNamesAt located.1) located.2.values := by
  induction blocks generalizing path with
  | nil => simp [locateBelow, flattenBelow]
  | cons block blocks ih =>
      rw [locateBelow, List.forall_mem_cons] at complete
      obtain ⟨isComplete, laterComplete⟩ := complete
      have sameLength := length_keyValues_blockElement isComplete
      rw [locateBelow, List.map_cons, flattenBelow, List.forall_mem_cons,
        ← keyValues_blockElement_eq_iff isComplete, ← ih laterComplete,
        List.flatMap_cons, Block.segments, List.cons_append]
      -- Both runs of values are equally long, so the equation can be cut
      -- behind them.
      constructor
      · intro sameSegments
        exact List.append_inj (List.cons.inj sameSegments).2 sameLength
      · rintro ⟨sameValues, sameLater⟩
        dsimp only at sameValues
        rw [blockElement_name, sameValues, sameLater]

/-- Flattening gives back the segments that were resolved exactly when the
values of repeated key names agree in every run of key values, and always when
no rule repeats a key name. -/
theorem flatten_resolve_eq_iff :
    (∀ (segments : List String) (path : Path),
        table.resolve segments = .ok path →
          (table.flatten path = segments ↔
            ∀ located ∈ locate Block.name (table.blocks segments),
              Agree (table.keyNamesAt located.1) located.2.values)) ∧
      ((∀ (path : String) (keyNames : List String),
          table.keyNames? path = some keyNames → keyNames.Nodup) →
        ∀ (segments : List String) (path : Path),
          table.resolve segments = .ok path →
            table.flatten path = segments) := by
  have exactly (segments : List String) (path : Path)
      (isResolved : table.resolve segments = .ok path) :
      table.flatten path = segments ↔
        ∀ located ∈ locate Block.name (table.blocks segments),
          Agree (table.keyNamesAt located.1) located.2.values := by
    obtain ⟨complete, rfl⟩ := table.resolve_eq_ok_iff.1 isResolved
    have blockwise := table.flattenBelow_blockElements_eq_iff complete
    rw [flatMap_blocks] at blockwise
    exact blockwise
  refine ⟨exactly, fun noRepetition segments path isResolved => ?_⟩
  refine (exactly segments path isResolved).2 fun located _ => ?_
  cases isRule : table.keyNames? located.1 with
  | none =>
      rw [keyNamesAt_of_none table isRule]
      exact agree_of_nodup List.nodup_nil _
  | some keyNames =>
      rw [keyNamesAt_of_some table isRule]
      exact agree_of_nodup (noRepetition _ _ isRule) _

/-- A table whose rule lists a key name twice. -/
def repeatedKeyTable : RuleTable :=
  empty.insert "/list" ["k", "id", "k"] (by decide)

def distinctKeyTable : RuleTable :=
  empty.insert "/list" ["k", "id"] (by decide)

theorem repeatedKeyTable_flatten_resolve :
    (repeatedKeyTable.resolve ["list", "1", "2", "3"] =
          .ok [.withKeys "list" [("k", "3"), ("id", "2")]] ∧
        repeatedKeyTable.flatten [.withKeys "list" [("k", "3"), ("id", "2")]] ≠
          ["list", "1", "2", "3"]) ∧
      ((∀ (path : String) (keyNames : List String),
          distinctKeyTable.keyNames? path = some keyNames → keyNames.Nodup) ∧
        distinctKeyTable.resolve ["list", "1", "2", "list", "3"] =
          .ok [.withKeys "list" [("k", "1"), ("id", "2")], .ofName "list",
            .ofName "3"] ∧
        distinctKeyTable.flatten [.withKeys "list" [("k", "1"), ("id", "2")],
            .ofName "list", .ofName "3"] =
          ["list", "1", "2", "list", "3"]) := by
  have repeatedResolved : repeatedKeyTable.resolve ["list", "1", "2", "3"] =
      .ok [.withKeys "list" [("k", "3"), ("id", "2")]] := by
    decide +kernel
  have distinctResolved :
      distinctKeyTable.resolve ["list", "1", "2", "list", "3"] =
        .ok [.withKeys "list" [("k", "1"), ("id", "2")], .ofName "list",
          .ofName "3"] := by
    decide +kernel
  have noRepetition (path : String) (keyNames : List String)
      (isRule : distinctKeyTable.keyNames? path = some keyNames) :
      keyNames.Nodup := by
    rw [distinctKeyTable, keyNames?_insert, keyNames?_empty] at isRule
    split at isRule
    · cases isRule
      decide
    · cases isRule
  refine ⟨⟨repeatedResolved, fun sameSegments => ?_⟩, noRepetition,
    distinctResolved,
    (flatten_resolve_eq_iff _).2 noRepetition _ _ distinctResolved⟩
  have agree := (repeatedKeyTable.flatten_resolve_eq_iff.1 _ _
    repeatedResolved).1 sameSegments
  have sameValue := agree ("/list", ⟨"list", ["1", "2", "3"]⟩)
    (by decide +kernel) 0 2 "k" (by decide +kernel) (by decide +kernel)
  exact absurd sameValue (by decide)

/-- The keys of every element are the key names of its rule.  Elements without
a rule have no keys. -/
def WellKeyed (path : Path) : Prop :=
  ∀ located ∈ locate PathElement.name path,
    match table.keyNames? located.1 with
    | some keyNames => ∀ key, key ∈ located.2.keys.keys ↔ key ∈ keyNames
    | none => located.2.keys = .empty

theorem wellKeyed_iff {path : Path} :
    table.WellKeyed path ↔
      ∀ located ∈ locate PathElement.name path, ∀ key,
        key ∈ located.2.keys.keys ↔ key ∈ table.keyNamesAt located.1 := by
  refine forall₂_congr fun located _ => ?_
  cases isRule : table.keyNames? located.1 with
  | none =>
      rw [keyNamesAt_of_none table isRule]
      constructor
      · intro noKeys key
        rw [noKeys]
        rfl
      · intro sameKeys
        refine StringMap.ext_get? fun key => ?_
        have notBound : key ∉ located.2.keys.keys :=
          mt (sameKeys key).1 List.not_mem_nil
        rw [StringMap.mem_keys, Option.not_isSome_iff_eq_none] at notBound
        rw [notBound, StringMap.get?_empty]
  | some keyNames => rw [keyNamesAt_of_some table isRule]

/-- The block to which an element with its structural path is flattened. -/
def elementBlock (located : String × PathElement) : Block where
  name := located.2.name
  values := table.keyValues located.1 located.2.keys

section Element

variable {table} {located : String × PathElement}
  (sameKeys : ∀ key,
    key ∈ located.2.keys.keys ↔ key ∈ table.keyNamesAt located.1)

include sameKeys

theorem elementBlock_values :
    (table.elementBlock located).values =
      (table.keyNamesAt located.1).filterMap located.2.keys.get? :=
  table.keyValues_of_keys_subset fun key => (sameKeys key).1

theorem isComplete_elementBlock :
    table.IsComplete (located.1, table.elementBlock located) := by
  rw [IsComplete, elementBlock_values sameKeys, length_filterMap]
  intro key isListed
  exact StringMap.mem_keys.1 ((sameKeys key).2 isListed)

theorem blockElement_elementBlock :
    table.blockElement (located.1, table.elementBlock located) =
      located.2 := by
  rw [blockElement, elementBlock_values sameKeys, PathElement.withKeys,
    StringMap.ofList_zip_filterMap_get? sameKeys]
  rfl

end Element

/-- What elements below a path are flattened to resolves to the elements
themselves, if the keys of each are the key names at its path. -/
theorem resolveBelow_flattenBelow {path : String} {elements : Path}
    (wellKeyed : ∀ located ∈ locateBelow PathElement.name path elements, ∀ key,
      key ∈ located.2.keys.keys ↔ key ∈ table.keyNamesAt located.1) :
    table.resolveBelow path (table.flattenBelow path elements) =
      .ok elements := by
  induction elements generalizing path with
  | nil => rw [flattenBelow, resolveBelow]
  | cons element elements ih =>
      rw [locateBelow, List.forall_mem_cons] at wellKeyed
      obtain ⟨sameKeys, laterWellKeyed⟩ := wellKeyed
      calc
        table.resolveBelow path (table.flattenBelow path (element :: elements))
        _ = (table.resolveBelow (extend path element.name)
              (table.flattenBelow (extend path element.name) elements)).map
              (table.blockElement (extend path element.name,
                table.elementBlock (extend path element.name, element)) :: ·) :=
          table.resolveBelow_block (isComplete_elementBlock sameKeys) _
        _ = .ok (element :: elements) := by
          rw [ih laterWellKeyed, blockElement_elementBlock sameKeys]
          rfl

theorem mem_keys_iff_of_resolve {segments : List String} {path : Path}
    (isResolved : table.resolve segments = .ok path) :
    ∀ located ∈ locate PathElement.name path, ∀ key,
      key ∈ located.2.keys.keys ↔ key ∈ table.keyNamesAt located.1 := by
  obtain ⟨complete, rfl⟩ := table.resolve_eq_ok_iff.1 isResolved
  rw [locate, locate,
    locateBelow_map Block.name table.blockElement table.blockElement_name]
  intro located isLocated key
  obtain ⟨block, isBlock, rfl⟩ := List.mem_map.1 isLocated
  exact mem_keys_blockElement (complete block isBlock)

/-- The path through the given names that means every instance of the keyed
lists on it. -/
def wildcardPath (names : List String) : Path :=
  (locate id names).map fun located =>
    wildcardElement located.2 (table.keyNamesAt located.1)

theorem map_name_wildcardPath (names : List String) :
    (table.wildcardPath names).map PathElement.name = names := by
  rw [wildcardPath, List.map_map]
  exact map_snd_locateBelow id "" names

theorem resolve_flatten_wildcardPath (names : List String) :
    table.resolve (table.flatten (table.wildcardPath names)) =
      .ok (table.wildcardPath names) := by
  have sameName (located : String × String) :
      (wildcardElement located.2 (table.keyNamesAt located.1)).name =
        id located.2 := rfl
  refine table.resolveBelow_flattenBelow ?_
  intro located isLocated key
  rw [wildcardPath, locate, locateBelow_map id _ sameName] at isLocated
  obtain ⟨item, -, rfl⟩ := List.mem_map.1 isLocated
  rw [wildcardElement, PathElement.withKeys, StringMap.mem_keys_ofList,
    List.map_map]
  exact iff_of_eq (congrArg (key ∈ ·) (List.map_id _))

/-- Resolving gives back a flattened path exactly when the path is well keyed,
and segments resolve to the well keyed paths and to no others. -/
theorem resolve_flatten_eq_iff (path : Path) :
    (table.resolve (table.flatten path) = .ok path ↔ table.WellKeyed path) ∧
      ((∃ segments, table.resolve segments = .ok path) ↔
        table.WellKeyed path) := by
  have isInverse (wellKeyed : table.WellKeyed path) :
      table.resolve (table.flatten path) = .ok path :=
    table.resolveBelow_flattenBelow (table.wellKeyed_iff.1 wellKeyed)
  have isImage {segments : List String}
      (isResolved : table.resolve segments = .ok path) :
      table.WellKeyed path :=
    table.wellKeyed_iff.2 (table.mem_keys_iff_of_resolve isResolved)
  constructor
  · exact ⟨isImage, isInverse⟩
  · constructor
    · rintro ⟨segments, isResolved⟩
      exact isImage isResolved
    · intro wellKeyed
      exact ⟨table.flatten path, isInverse wellKeyed⟩

end RuleTable

end KeyedPaths
