import KeyedPaths.Proofs.Recognition
import KeyedPaths.Proofs.TableConstruction

/-!
# Tables from listed entries

A rule table is built from any list of numbers, in which entries may be repeated
and numbers may stand that are not in use.  The construction succeeds exactly if
the list has no fault: a number that is not in use, or an entry whose structural
path is that of a keyed entry listed before it.  It then holds one rule for each
keyed entry of the list.  Otherwise the first fault of the list is the error.
-/

namespace KeyedPaths

open StructuralPath

theorem StructuralPath.exists_ofNames_eq_slash_append {names : List String}
    (nonempty : names ≠ []) : ∃ below, ofNames names = "/" ++ below := by
  obtain ⟨name, samePath⟩ := exists_single_name nonempty
  refine ⟨name, ?_⟩
  rw [← samePath, ← List.nil_append [name], ofNames_append_singleton,
    ofNames_nil, extend, String.empty_append]

namespace Schema

/-- The key names of an entry in the order of its specification.  A number that
is not in use has none. -/
def keyNames (schema : Schema) (id : Nat) : List String :=
  ((schema.get? id).map Entry.keyNames).getD []

/-- The listed entries with a key name, in the order of the list and as often as
they stand in it. -/
def keyedAmong (schema : Schema) (ids : List Nat) : List Nat :=
  ids.filter fun id => schema.keyNames id ≠ []

/-- What is wrong with a listed number behind others: it is not in use, or its
entry and one of the others are keyed and stand at one structural path. -/
inductive FaultBehind (schema : Schema) (before : List Nat) (id : Nat) :
    RuleError → Prop where
  | unknown (notInUse : schema.size ≤ id) :
      FaultBehind schema before id (.unknownEntry id)
  | repeated (isKeyed : schema.keyNames id ≠ [])
      (isTaken : schema.structuralPath id ∈
        (schema.keyedAmong before).map schema.structuralPath) :
      FaultBehind schema before id (.duplicatePath (schema.structuralPath id))

/-- What is wrong at a position of a list of numbers. -/
def FaultAt (schema : Schema) (ids : List Nat) (position : Nat)
    (failure : RuleError) : Prop :=
  ∃ id, ids[position]? = some id ∧
    schema.FaultBehind (ids.take position) id failure

variable {schema : Schema} {ids : List Nat}

theorem rule?_eq (schema : Schema) (id : Nat) :
    schema.rule? id =
      if schema.keyNames id = [] then none
      else some (schema.structuralPath id, schema.keyNames id) := by
  rw [rule?, keyNames]
  cases schema.get? id <;> rfl

theorem rule?_eq_some_iff_keyNames {id : Nat} {path : String}
    {keyNames : List String} :
    schema.rule? id = some (path, keyNames) ↔
      schema.structuralPath id = path ∧ schema.keyNames id = keyNames ∧
        keyNames ≠ [] := by
  rw [rule?_eq]
  split
  next noNames => grind
  next isKeyed => grind

theorem keyedAmong_append (ids later : List Nat) :
    schema.keyedAmong (ids ++ later) =
      schema.keyedAmong ids ++ schema.keyedAmong later :=
  List.filter_append ids later

theorem mem_keyedAmong {id : Nat} :
    id ∈ schema.keyedAmong ids ↔ id ∈ ids ∧ schema.keyNames id ≠ [] := by
  rw [keyedAmong, List.mem_filter, decide_eq_true_eq]

theorem keyedAmong_ids (schema : Schema) :
    schema.keyedAmong schema.ids = schema.keyedIds := by
  refine List.filter_congr fun id isId => ?_
  obtain ⟨entry, isEntry⟩ := exists_get?_of_lt (mem_ids.1 isId)
  rw [keyNames, isEntry, Option.map_some, Option.getD_some, Option.any_some,
    Bool.eq_iff_iff, decide_eq_true_eq, Entry.isKeyed_iff]

theorem rules_eq_map_keyedAmong (schema : Schema) (ids : List Nat) :
    schema.rules ids = (schema.keyedAmong ids).map fun id =>
      (schema.structuralPath id, schema.keyNames id) := by
  rw [rules, keyedAmong, ← List.filterMap_eq_map, List.filterMap_filter]
  refine List.filterMap_congr fun id _ => ?_
  by_cases isKeyed : schema.keyNames id = [] <;> simp [rule?_eq, isKeyed]

theorem map_fst_rules (schema : Schema) (ids : List Nat) :
    (schema.rules ids).map Prod.fst =
      (schema.keyedAmong ids).map schema.structuralPath := by
  rw [rules_eq_map_keyedAmong, List.map_map]
  rfl

theorem isSome_get?_iff {id : Nat} :
    (schema.get? id).isSome ↔ id < schema.size := by
  rw [Option.isSome_iff_exists]
  constructor
  · rintro ⟨entry, isEntry⟩
    exact lt_size_of_get? isEntry
  · exact exists_get?_of_lt

theorem lt_size_of_keyNames_ne_nil {id : Nat}
    (isKeyed : schema.keyNames id ≠ []) : id < schema.size := by
  rw [← isSome_get?_iff]
  by_contra notInUse
  rw [Option.not_isSome_iff_eq_none] at notInUse
  rw [keyNames, notInUse] at isKeyed
  exact isKeyed rfl

theorem exists_structuralPath_eq_slash_append {id : Nat}
    (isKeyed : schema.keyNames id ≠ []) :
    ∃ below, schema.structuralPath id = "/" ++ below := by
  obtain ⟨entry, isEntry⟩ :=
    exists_get?_of_lt (lt_size_of_keyNames_ne_nil isKeyed)
  rw [keyNames, isEntry] at isKeyed
  exact exists_ofNames_eq_slash_append
    (pathNames_ne_nil (mem_keyedIds.2 ⟨entry, isEntry, isKeyed⟩))

theorem FaultBehind.unique {before : List Nat} {id : Nat}
    {failure other : RuleError}
    (isFault : schema.FaultBehind before id failure)
    (isOther : schema.FaultBehind before id other) : failure = other := by
  cases isFault with
  | unknown notInUse =>
      cases isOther with
      | unknown => rfl
      | repeated isKeyed =>
          exact absurd (lt_size_of_keyNames_ne_nil isKeyed)
            (Nat.not_lt_of_le notInUse)
  | repeated isKeyed =>
      cases isOther with
      | unknown notInUse =>
          exact absurd (lt_size_of_keyNames_ne_nil isKeyed)
            (Nat.not_lt_of_le notInUse)
      | repeated => rfl

namespace FaultAt

variable {position : Nat} {failure : RuleError}

theorem unique {other : RuleError}
    (isFault : schema.FaultAt ids position failure)
    (isOther : schema.FaultAt ids position other) : failure = other := by
  obtain ⟨id, isListed, isFaulty⟩ := isFault
  obtain ⟨otherId, isOtherListed, isOtherFaulty⟩ := isOther
  cases isListed.symm.trans isOtherListed
  exact isFaulty.unique isOtherFaulty

/-- A fault does not depend on what is listed behind it. -/
theorem of_append {later : List Nat}
    (isFault : schema.FaultAt (ids ++ later) position failure)
    (inBounds : position < ids.length) :
    schema.FaultAt ids position failure := by
  obtain ⟨id, isListed, isFaulty⟩ := isFault
  rw [List.getElem?_append_left inBounds] at isListed
  rw [List.take_append_of_le_length (Nat.le_of_lt inBounds)] at isFaulty
  exact ⟨id, isListed, isFaulty⟩

end FaultAt

end Schema

namespace RuleTable

variable {schema : Schema} {ids : List Nat} {table : RuleTable}

theorem exists_build_iff_nodup_keyedAmong :
    (∃ table, build schema ids = .ok table) ↔
      (∀ id ∈ ids, id < schema.size) ∧
        ((schema.keyedAmong ids).map schema.structuralPath).Nodup := by
  simp only [exists_build_iff, Schema.map_fst_rules, Schema.isSome_get?_iff]

theorem not_faultAt_of_build (isBuilt : build schema ids = .ok table)
    (position : Nat) (failure : RuleError) :
    ¬ schema.FaultAt ids position failure := by
  obtain ⟨inUse, distinct⟩ :=
    exists_build_iff_nodup_keyedAmong.1 ⟨table, isBuilt⟩
  rintro ⟨id, isListed, isFaulty⟩
  cases isFaulty with
  | unknown notInUse =>
      exact absurd (inUse id (List.mem_of_getElem? isListed))
        (Nat.not_lt_of_le notInUse)
  | repeated isKeyed isTaken =>
      obtain ⟨inBounds, rfl⟩ := List.getElem?_eq_some_iff.1 isListed
      rw [← List.take_append_drop position ids, Schema.keyedAmong_append,
        List.map_append] at distinct
      refine (List.nodup_append.1 distinct).2.2 _ isTaken _
        (List.mem_map_of_mem (Schema.mem_keyedAmong.2 ⟨?_, isKeyed⟩)) rfl
      rw [List.drop_eq_getElem_cons inBounds]
      exact List.mem_cons_self

theorem not_faultAt_append (isBuilt : build schema ids = .ok table)
    {position : Nat} (inBounds : position < ids.length) (later : List Nat)
    (failure : RuleError) :
    ¬ schema.FaultAt (ids ++ later) position failure := fun isFault =>
  not_faultAt_of_build isBuilt position failure (isFault.of_append inBounds)

/-- An entry that cannot be added to the table of the entries before it is
faulty. -/
theorem faultBehind_of_addEntry {before : List Nat} {id : Nat}
    {failure : RuleError} (isBuilt : build schema before = .ok table)
    (isError : addEntry schema table id = .error failure) :
    schema.FaultBehind before id failure := by
  rcases addEntry_error_cases_of_build isBuilt isError with
    ⟨isUnknown, rfl⟩ | ⟨path, keyNames, isRule, isEarlier, rfl⟩
  · refine .unknown (Nat.le_of_not_lt ?_)
    rw [← Schema.isSome_get?_iff, isUnknown]
    exact Bool.false_ne_true
  · obtain ⟨rfl, rfl, isKeyed⟩ := Schema.rule?_eq_some_iff_keyNames.1 isRule
    rw [Schema.map_fst_rules] at isEarlier
    exact .repeated isKeyed isEarlier

/-- The construction fails at a fault, and no fault stands before it. -/
theorem exists_first_fault {failure : RuleError}
    (isError : build schema ids = .error failure) :
    ∃ position, schema.FaultAt ids position failure ∧
      ∀ earlier < position, ∀ other, ¬ schema.FaultAt ids earlier other := by
  obtain ⟨before, id, after, reached, rfl, isRun, isStop⟩ :=
    foldlM_eq_error_iff.1 isError
  refine ⟨before.length, ⟨id, by simp, ?_⟩,
    fun earlier isEarlier => not_faultAt_append isRun isEarlier (id :: after)⟩
  rw [List.take_left]
  exact faultBehind_of_addEntry isRun isStop

theorem build_eq_error_iff {failure : RuleError} :
    build schema ids = .error failure ↔
      ∃ position, schema.FaultAt ids position failure ∧
        ∀ earlier < position, ∀ other,
          ¬ schema.FaultAt ids earlier other := by
  refine ⟨exists_first_fault, ?_⟩
  rintro ⟨position, isFault, isFirst⟩
  cases isBuilt : build schema ids with
  | ok table =>
      exact absurd isFault (not_faultAt_of_build isBuilt position failure)
  | error other =>
      obtain ⟨otherPosition, isOtherFault, isOtherFirst⟩ :=
        exists_first_fault isBuilt
      rcases Nat.lt_trichotomy position otherPosition with
        isBefore | rfl | isBehind
      · exact absurd isFault (isOtherFirst position isBefore failure)
      · rw [isFault.unique isOtherFault]
      · exact absurd isOtherFault (isFirst otherPosition isBehind other)

section Built

variable (isBuilt : build schema ids = .ok table)

include isBuilt

theorem keyNames?_eq_some_iff_keyedAmong {path : String}
    {keyNames : List String} :
    table.keyNames? path = some keyNames ↔
      ∃ id ∈ schema.keyedAmong ids,
        schema.structuralPath id = path ∧ schema.keyNames id = keyNames := by
  rw [keyNames?_eq_some_iff_of_build isBuilt, Schema.rules_eq_map_keyedAmong,
    List.mem_map]
  simp only [Prod.mk.injEq]

theorem size_eq_length_keyedAmong :
    table.size = (schema.keyedAmong ids).length := by
  have sameLength := (perm_rules_of_build isBuilt).length_eq
  rw [Schema.rules_eq_map_keyedAmong, List.length_map] at sameLength
  exact sameLength

end Built

/-- What is built from listed entries.  The construction succeeds exactly if all
numbers are in use and the keyed entries stand at different structural paths; the
table then has one rule for each of them, with its key names, below a root.
Otherwise the error is what is wrong at the first position at which something
is. -/
theorem build_from_listed_entries (schema : Schema) (ids : List Nat) :
    ((∃ table, build schema ids = .ok table) ↔
        (∀ id ∈ ids, id < schema.size) ∧
          ((schema.keyedAmong ids).map schema.structuralPath).Nodup) ∧
      (∀ table, build schema ids = .ok table →
        (∀ path keyNames, table.keyNames? path = some keyNames ↔
            ∃ id ∈ schema.keyedAmong ids,
              schema.structuralPath id = path ∧
                schema.keyNames id = keyNames) ∧
          table.size = (schema.keyedAmong ids).length ∧
          ∀ path keyNames, table.keyNames? path = some keyNames →
            keyNames ≠ [] ∧ ∃ below, path = "/" ++ below) ∧
      ∀ failure, build schema ids = .error failure ↔
        ∃ position, schema.FaultAt ids position failure ∧
          ∀ earlier < position, ∀ other,
            ¬ schema.FaultAt ids earlier other := by
  refine ⟨exists_build_iff_nodup_keyedAmong, fun table isBuilt => ?_,
    fun failure => build_eq_error_iff⟩
  refine ⟨fun path keyNames => keyNames?_eq_some_iff_keyedAmong isBuilt,
    size_eq_length_keyedAmong isBuilt, fun path keyNames isRule => ?_⟩
  obtain ⟨id, isListed, rfl, rfl⟩ :=
    (keyNames?_eq_some_iff_keyedAmong isBuilt).1 isRule
  have isKeyed := (Schema.mem_keyedAmong.1 isListed).2
  exact ⟨isKeyed, Schema.exists_structuralPath_eq_slash_append isKeyed⟩

/-- Two keyed lists at one structural path, and a leaf. -/
def laneSchema : Schema :=
  (((Schema.empty.addRoot "r").push (.child 0 "lane" (some "p q"))
      (by rintro _ ⟨⟩; decide)).push (.child 0 "lane" (some "q"))
      (by rintro _ ⟨⟩; decide)).push (.child 0 "leaf" none)
      (by rintro _ ⟨⟩; decide)

/-- The leaf is listed twice, which is no fault.  A number that is not in use and
the second keyed list are both faults, and the one that comes first is the
error. -/
theorem laneSchema_build_from_listed_entries :
    (∃ table, build laneSchema [3, 1, 3] = .ok table ∧
        table.keyNames? "/lane" = some ["p", "q"] ∧ table.size = 1) ∧
      build laneSchema [2, 7, 1] = .error (.unknownEntry 7) ∧
      build laneSchema [1, 3, 2, 7] = .error (.duplicatePath "/lane") := by
  obtain ⟨table, isBuilt⟩ :=
    (build_from_listed_entries laneSchema [3, 1, 3]).1.2
      ⟨by decide, by decide +kernel⟩
  obtain ⟨isRule, isSize, -⟩ :=
    (build_from_listed_entries laneSchema [3, 1, 3]).2.1 table isBuilt
  have shorter : build laneSchema [2] =
      .ok (empty.insert "/lane" ["q"] (by decide)) := by
    decide +kernel
  have longer : build laneSchema [1, 3] =
      .ok (empty.insert "/lane" ["p", "q"] (by decide)) := by
    decide +kernel
  have isRepeated : laneSchema.FaultBehind [1, 3] 2
      (.duplicatePath "/lane") := by
    have samePath : laneSchema.structuralPath 2 = "/lane" := by decide +kernel
    rw [← samePath]
    exact .repeated (by decide +kernel) (by decide +kernel)
  refine ⟨⟨table, isBuilt, (isRule _ _).2 ⟨1, by decide +kernel⟩, ?_⟩, ?_, ?_⟩
  · rw [isSize]
    decide +kernel
  · exact ((build_from_listed_entries laneSchema [2, 7, 1]).2.2 _).2
      ⟨1, ⟨7, rfl, .unknown (by decide)⟩,
        fun earlier isEarlier => not_faultAt_append shorter isEarlier [7, 1]⟩
  · exact ((build_from_listed_entries laneSchema [1, 3, 2, 7]).2.2 _).2
      ⟨2, ⟨2, rfl, isRepeated⟩,
        fun earlier isEarlier => not_faultAt_append longer isEarlier [2, 7]⟩

end RuleTable

end KeyedPaths
