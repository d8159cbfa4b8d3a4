import Mathlib.Data.List.Nodup
import KeyedPaths.Proofs.EntryPaths
import KeyedPaths.Proofs.EntryRules
import KeyedPaths.Proofs.RoundTrip

/-!
# Recovering segments from a path

Two lists of segments may resolve to one path only where a rule lists a key name
twice: of the values that are given for this name the element keeps the last
one.  As some segments lead to every keyed entry of a schema, segments can be
recovered from the path that they resolve to exactly if no entry of the schema
lists a key name twice.
-/

namespace KeyedPaths

open StructuralPath

/-- Values of which no two are the same. -/
def distinctValues (count : Nat) : List String :=
  (List.range count).map fun index => String.ofList (List.replicate index '*')

theorem length_distinctValues (count : Nat) :
    (distinctValues count).length = count := by
  rw [distinctValues, List.length_map, List.length_range]

theorem eq_of_getElem?_distinctValues {count first second : Nat}
    (inBounds : first < count)
    (sameValue : (distinctValues count)[first]? =
      (distinctValues count)[second]?) : first = second := by
  have nodup : (distinctValues count).Nodup := by
    refine List.Nodup.map (fun one other sameText => ?_) List.nodup_range
    have sameLength := congrArg String.length sameText
    simpa using sameLength
  rw [← length_distinctValues count] at inBounds
  exact (List.getElem?_inj inBounds nodup).1 sameValue

theorem nodup_of_forall_agree {keyNames : List String}
    (agree : ∀ values : List String, values.length = keyNames.length →
      Agree keyNames values) : keyNames.Nodup := by
  rw [List.nodup_iff_getElem?_ne_getElem?]
  intro first second isBefore inBounds sameKey
  have isKey : keyNames[second]? = some keyNames[second] :=
    List.getElem?_eq_getElem inBounds
  have sameValue := agree (distinctValues keyNames.length)
    (length_distinctValues _) first second _ (sameKey.trans isKey) isKey
  have sameIndex := eq_of_getElem?_distinctValues
    (Nat.lt_trans isBefore inBounds) sameValue
  exact Nat.ne_of_lt isBefore sameIndex

/-- Values bound to key names position by position are determined by the map
exactly if no key name is repeated. -/
theorem zip_determines_values_iff {keyNames : List String} :
    (∀ first second : List String, first.length = keyNames.length →
        second.length = keyNames.length →
          StringMap.ofList (keyNames.zip first) =
            StringMap.ofList (keyNames.zip second) → first = second) ↔
      keyNames.Nodup := by
  constructor
  · intro determined
    refine nodup_of_forall_agree fun values sameLength => ?_
    have sameKeys (key : String) :
        key ∈ (StringMap.ofList (keyNames.zip values)).keys ↔
          key ∈ keyNames := by
      rw [StringMap.mem_keys_ofList,
        List.map_fst_zip (Nat.le_of_eq sameLength.symm)]
    have isDefined : ∀ key ∈ keyNames,
        ((StringMap.ofList (keyNames.zip values)).get? key).isSome :=
      fun key isListed => StringMap.mem_keys.1 ((sameKeys key).2 isListed)
    -- The values that are read back give the same map, so they are the values.
    have sameMap := StringMap.ofList_zip_filterMap_get? sameKeys
    have readBack := determined _ values (length_filterMap isDefined)
      sameLength sameMap
    exact (filterMap_get?_zip_eq_iff sameLength).1 readBack
  · intro nodup first second firstLength secondLength sameMap
    have firstBack := (filterMap_get?_zip_eq_iff firstLength).2
      (agree_of_nodup nodup first)
    have secondBack := (filterMap_get?_zip_eq_iff secondLength).2
      (agree_of_nodup nodup second)
    rw [← firstBack, sameMap, secondBack]

namespace RuleTable

variable (table : RuleTable)

/-- Through any names there are segments that lead below them, with whatever
follows. -/
theorem exists_lead (names : List String) (path : String) :
    ∃ (lead : List String) (passed : Path), ∀ rest : List String,
      table.resolveBelow path (lead ++ rest) =
        (table.resolveBelow (names.foldl extend path) rest).map
          (passed ++ ·) := by
  induction names generalizing path with
  | nil =>
      refine ⟨[], [], fun rest => ?_⟩
      rw [List.nil_append, List.foldl_nil]
      cases table.resolveBelow path rest <;> rfl
  | cons name names ih =>
      obtain ⟨lead, passed, leads⟩ := ih (extend path name)
      let block : Block := ⟨name,
        distinctValues (table.keyNamesAt (extend path name)).length⟩
      have isComplete : table.IsComplete (extend path block.name, block) :=
        length_distinctValues _
      refine ⟨block.segments ++ lead,
        table.blockElement (extend path name, block) :: passed,
        fun rest => ?_⟩
      rw [List.append_assoc, table.resolveBelow_block isComplete, leads,
        List.foldl_cons]
      cases table.resolveBelow (names.foldl extend (extend path name)) rest <;>
        rfl

/-- Segments that lead to a name, then the name and its values. -/
theorem exists_resolve_block (names : List String) (name : String) :
    ∃ (lead : List String) (passed : Path), ∀ values : List String,
      values.length =
          (table.keyNamesAt (ofNames (names ++ [name]))).length →
        table.resolve (lead ++ name :: values) =
          .ok (passed ++ [.withKeys name
            ((table.keyNamesAt (ofNames (names ++ [name]))).zip values)]) := by
  obtain ⟨lead, passed, leads⟩ := table.exists_lead names ""
  refine ⟨lead, passed, fun values sameLength => ?_⟩
  rw [ofNames_append_singleton] at sameLength ⊢
  let block : Block := ⟨name, values⟩
  have isComplete :
      table.IsComplete (extend (ofNames names) block.name, block) := sameLength
  calc
    table.resolve (lead ++ block.segments)
    _ = (table.resolveBelow (ofNames names) (block.segments ++ [])).map
          (passed ++ ·) := by
      rw [resolve, leads, List.append_nil, ofNames]
    _ = .ok (passed ++ [table.blockElement
          (extend (ofNames names) name, block)]) := by
      rw [table.resolveBelow_block isComplete, resolveBelow]
      rfl

/-- If segments can be recovered, no rule that names lead to repeats a key
name. -/
theorem nodup_keyNamesAt_of_injective
    (injective : ∀ first second path, table.resolve first = .ok path →
      table.resolve second = .ok path → first = second)
    (names : List String) (name : String) :
    (table.keyNamesAt (ofNames (names ++ [name]))).Nodup := by
  obtain ⟨lead, passed, resolves⟩ := table.exists_resolve_block names name
  refine zip_determines_values_iff.1 ?_
  intro first second firstLength secondLength sameMap
  have firstResolved := resolves first firstLength
  have secondResolved := resolves second secondLength
  rw [PathElement.withKeys, ← sameMap] at secondResolved
  have sameSegments := injective _ _ _ firstResolved secondResolved
  exact (List.cons.inj (List.append_cancel_left sameSegments)).2

/-- A rule table whose rules repeat no key names loses no segments. -/
theorem flatten_of_nodup
    (nodup : ∀ path : String, (table.keyNamesAt path).Nodup)
    {segments : List String} {path : Path}
    (isResolved : table.resolve segments = .ok path) :
    table.flatten path = segments := by
  obtain ⟨complete, rfl⟩ := table.resolve_eq_ok_iff.1 isResolved
  have sameSegments := (table.flattenBelow_blockElements_eq_iff complete).2
    fun located _ => agree_of_nodup (nodup located.1) located.2.values
  exact sameSegments.trans (table.flatMap_blocks segments)

section OfSchema

variable {schema : Schema} {table : RuleTable}
  (isBuilt : ofSchema schema = .ok table)

include isBuilt

theorem nodup_keyNamesAt_iff :
    (∀ path : String, (table.keyNamesAt path).Nodup) ↔
      ∀ id entry, schema.get? id = some entry → entry.keyNames.Nodup := by
  constructor
  · intro nodup id entry isEntry
    by_cases isKeyed : entry.keyNames ≠ []
    · have isRule := keyNames?_structuralPath isBuilt isEntry isKeyed
      rw [← table.keyNamesAt_of_some isRule]
      exact nodup _
    · rw [not_not.1 isKeyed]
      exact List.nodup_nil
  · intro entriesNodup path
    cases isRule : table.keyNames? path with
    | none =>
        rw [table.keyNamesAt_of_none isRule]
        exact List.nodup_nil
    | some keyNames =>
        rw [table.keyNamesAt_of_some isRule]
        obtain ⟨id, isEntryRule⟩ :=
          (keyNames?_eq_some_iff_of_ofSchema isBuilt).1 isRule
        obtain ⟨entry, isEntry, -, -, rfl⟩ :=
          Schema.rule?_eq_some_iff.1 isEntryRule
        exact entriesNodup id entry isEntry

/-- Names lead to every path that has a rule. -/
theorem exists_names_of_isSome {path : String}
    (hasRule : (table.keyNames? path).isSome) :
    ∃ names name, ofNames (names ++ [name]) = path := by
  obtain ⟨id, isKeyed, samePath⟩ :=
    (isSome_keyNames?_iff_of_ofSchema isBuilt).1 hasRule
  obtain ⟨entry, isEntry, hasNames⟩ := Schema.mem_keyedIds.1 isKeyed
  cases entry with
  | root name => exact absurd rfl hasNames
  | child parent name key =>
      rw [Schema.structuralPath, Schema.pathNames_of_child isEntry] at samePath
      exact ⟨_, name, samePath⟩

/-- Different segments resolve to different paths exactly if no entry of the
schema lists a key name twice. -/
theorem resolve_injective_iff :
    (∀ first second path, table.resolve first = .ok path →
        table.resolve second = .ok path → first = second) ↔
      ∀ id entry, schema.get? id = some entry → entry.keyNames.Nodup := by
  rw [← nodup_keyNamesAt_iff isBuilt]
  constructor
  · intro injective path
    by_cases hasRule : (table.keyNames? path).isSome
    · obtain ⟨names, name, rfl⟩ := exists_names_of_isSome isBuilt hasRule
      exact table.nodup_keyNamesAt_of_injective injective names name
    · rw [table.keyNamesAt_of_none (Option.not_isSome_iff_eq_none.1 hasRule)]
      exact List.nodup_nil
  · intro nodup first second path firstResolved secondResolved
    rw [← table.flatten_of_nodup nodup firstResolved,
      table.flatten_of_nodup nodup secondResolved]

end OfSchema

/-- A schema with a keyed list that lists a key name twice. -/
def repeatedKeySchema : Schema :=
  (Schema.empty.addRoot "r").push (.child 0 "list" (some "k id k"))
    (by rintro _ ⟨⟩; decide)

def distinctKeySchema : Schema :=
  (Schema.empty.addRoot "r").push (.child 0 "list" (some "k id"))
    (by rintro _ ⟨⟩; decide)

theorem resolve_injective_distinctKeyTable :
    (ofSchema distinctKeySchema = .ok distinctKeyTable ∧
        ∀ first second path, distinctKeyTable.resolve first = .ok path →
          distinctKeyTable.resolve second = .ok path → first = second) ∧
      (ofSchema repeatedKeySchema = .ok repeatedKeyTable ∧
        ¬ ∀ first second path, repeatedKeyTable.resolve first = .ok path →
          repeatedKeyTable.resolve second = .ok path → first = second) := by
  have distinctBuilt : ofSchema distinctKeySchema = .ok distinctKeyTable := by
    decide +kernel
  have repeatedBuilt : ofSchema repeatedKeySchema = .ok repeatedKeyTable := by
    decide +kernel
  have listedNodup :
      ∀ entry ∈ distinctKeySchema.entries, entry.keyNames.Nodup := by
    decide +kernel
  refine ⟨⟨distinctBuilt, (resolve_injective_iff distinctBuilt).2 ?_⟩,
    repeatedBuilt, fun injective => ?_⟩
  · intro id entry isEntry
    exact listedNodup entry (Array.mem_of_getElem? isEntry)
  · have nodup := (resolve_injective_iff repeatedBuilt).1 injective 1
      (.child 0 "list" (some "k id k")) rfl
    exact absurd nodup (by decide +kernel)

theorem distinct_segments_with_one_path :
    ofSchema repeatedKeySchema = .ok repeatedKeyTable ∧
      ["list", "1", "2", "3"] ≠ ["list", "4", "2", "3"] ∧
      repeatedKeyTable.resolve ["list", "1", "2", "3"] =
        .ok [.withKeys "list" [("id", "2"), ("k", "3")]] ∧
      repeatedKeyTable.resolve ["list", "4", "2", "3"] =
        .ok [.withKeys "list" [("id", "2"), ("k", "3")]] :=
  ⟨by decide +kernel, by decide, by decide +kernel, by decide +kernel⟩

end RuleTable

end KeyedPaths
