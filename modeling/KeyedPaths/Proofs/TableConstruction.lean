import Mathlib.Data.List.Nodup
import KeyedPaths.Proofs.EntryRules

/-!
# Construction of rule tables

A table can be built from a list of entries exactly when all of them are known
and no two of them have rules for one path.  Otherwise the construction stops at
the first entry that is unknown or whose path has been taken before.
-/

namespace KeyedPaths

namespace RuleTable

variable {schema : Schema} {table : RuleTable} {ids : List Nat}

/-- Adding an entry fails only if the entry is unknown or the path of its rule
is taken. -/
theorem addEntry_error_cases {id : Nat} {failure : RuleError}
    (isError : addEntry schema table id = .error failure) :
    (schema.get? id = none ∧ failure = .unknownEntry id) ∨
      ∃ path keyNames, schema.rule? id = some (path, keyNames) ∧
        (table.keyNames? path).isSome ∧ failure = .duplicatePath path := by
  unfold addEntry at isError
  split at isError
  next isUnknown =>
    cases isError
    exact .inl ⟨isUnknown, rfl⟩
  next entry isEntry =>
    split at isError
    next isKeyed =>
      dsimp only at isError
      split at isError
      next isTaken =>
        cases isError
        exact .inr ⟨schema.structuralPath id, entry.keyNames,
          Schema.rule?_eq_some_iff.2 ⟨entry, isEntry, isKeyed, rfl, rfl⟩,
          isTaken, rfl⟩
      next => cases isError
    next => cases isError

/-- An entry cannot be added to the table of others only if it is unknown or its
path is that of a rule of theirs. -/
theorem addEntry_error_cases_of_build {id : Nat} {failure : RuleError}
    (isBuilt : build schema ids = .ok table)
    (isError : addEntry schema table id = .error failure) :
    (schema.get? id = none ∧ failure = .unknownEntry id) ∨
      ∃ path keyNames, schema.rule? id = some (path, keyNames) ∧
        path ∈ (schema.rules ids).map Prod.fst ∧
          failure = .duplicatePath path := by
  rcases addEntry_error_cases isError with
    isUnknown | ⟨path, keyNames, isRule, isTaken, isFailure⟩
  · exact .inl isUnknown
  · obtain ⟨takenNames, isTakenRule⟩ := Option.isSome_iff_exists.1 isTaken
    have isEarlier : (path, takenNames) ∈ schema.rules ids :=
      (keyNames?_eq_some_iff_of_build isBuilt).1 isTakenRule
    exact .inr ⟨path, keyNames, isRule, List.mem_map_of_mem isEarlier,
      isFailure⟩

/-- The construction stops at the first entry that is unknown or whose path is
that of an earlier rule. -/
theorem build_error_cases {failure : RuleError}
    (isError : build schema ids = .error failure) :
    ∃ before id after, ids = before ++ id :: after ∧
      ((schema.rules before).map Prod.fst).Nodup ∧
        ((schema.get? id = none ∧ failure = .unknownEntry id) ∨
          ∃ path keyNames, schema.rule? id = some (path, keyNames) ∧
            path ∈ (schema.rules before).map Prod.fst ∧
              failure = .duplicatePath path) := by
  obtain ⟨before, id, after, reached, isSplit, isRun, isStop⟩ :=
    foldlM_eq_error_iff.1 isError
  exact ⟨before, id, after, isSplit, (foldlM_addEntry isRun).2.1,
    addEntry_error_cases_of_build isRun isStop⟩

/-- A table can be built exactly from known entries whose rules are all for
different paths. -/
theorem exists_build_iff :
    (∃ table, build schema ids = .ok table) ↔
      (∀ id ∈ ids, (schema.get? id).isSome) ∧
        ((schema.rules ids).map Prod.fst).Nodup := by
  constructor
  · rintro ⟨table, isBuilt⟩
    refine ⟨fun id isListed => ?_, (foldlM_addEntry isBuilt).2.1⟩
    obtain ⟨reached, next, isAdded⟩ :=
      exists_step_of_foldlM_eq_ok isBuilt id isListed
    exact (addEntry_cases isAdded).1
  · rintro ⟨areKnown, distinct⟩
    cases isBuilt : build schema ids with
    | ok table => exact ⟨table, rfl⟩
    | error failure =>
        obtain ⟨before, id, after, rfl, -, ⟨isUnknown, -⟩ |
          ⟨path, keyNames, isRule, isEarlier, -⟩⟩ := build_error_cases isBuilt
        · have isKnown := areKnown id
            (List.mem_append_right before List.mem_cons_self)
          rw [isUnknown] at isKnown
          cases isKnown
        · rw [Schema.rules, List.filterMap_append,
            List.filterMap_cons_some isRule, List.map_append, List.map_cons]
            at distinct
          exact absurd rfl ((List.nodup_append.1 distinct).2.2 path isEarlier
            path List.mem_cons_self)

theorem isSome_get?_of_mem_ids {id : Nat} (isId : id ∈ schema.ids) :
    (schema.get? id).isSome := by
  obtain ⟨entry, isEntry⟩ := Schema.exists_get?_of_lt (Schema.mem_ids.1 isId)
  rw [isEntry, Option.isSome_some]

/-- The entries of a schema are all known, so the construction from all of them
stops only at a path that has been taken. -/
theorem ofSchema_error_cases {failure : RuleError}
    (isError : ofSchema schema = .error failure) :
    ∃ before id after path keyNames, schema.ids = before ++ id :: after ∧
      ((schema.rules before).map Prod.fst).Nodup ∧
        schema.rule? id = some (path, keyNames) ∧
          path ∈ (schema.rules before).map Prod.fst ∧
            failure = .duplicatePath path := by
  obtain ⟨before, id, after, isSplit, distinct, ⟨isUnknown, -⟩ |
    ⟨path, keyNames, isRule, isEarlier, rfl⟩⟩ := build_error_cases isError
  · have isId : id ∈ schema.ids := by
      rw [isSplit]
      exact List.mem_append_right before List.mem_cons_self
    have isKnown := isSome_get?_of_mem_ids isId
    rw [isUnknown] at isKnown
    cases isKnown
  · exact ⟨before, id, after, path, keyNames, isSplit, distinct, isRule,
      isEarlier, rfl⟩

theorem exists_eq_duplicatePath {failure : RuleError}
    (isError : ofSchema schema = .error failure) :
    ∃ path, failure = .duplicatePath path := by
  obtain ⟨-, -, -, path, -, -, -, -, -, isFailure⟩ :=
    ofSchema_error_cases isError
  exact ⟨path, isFailure⟩

/-- The rules of a table are those of the entries that it was built from, each
of them once. -/
theorem perm_rules_of_build (isBuilt : build schema ids = .ok table) :
    table.rules.bindings.Perm (schema.rules ids) := by
  have distinct := (foldlM_addEntry isBuilt).2.1
  refine (List.perm_ext_iff_of_nodup table.rules.ascending.nodup
    (List.Nodup.of_map Prod.fst distinct)).2 ?_
  rintro ⟨path, keyNames⟩
  rw [← StringMap.get?_eq_some_iff]
  exact keyNames?_eq_some_iff_of_build isBuilt

end RuleTable

end KeyedPaths
