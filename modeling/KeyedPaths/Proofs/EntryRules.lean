import Mathlib.Data.List.Pairwise
import KeyedPaths.RuleTable
import KeyedPaths.Proofs.KeySpecification
import KeyedPaths.Proofs.Outcomes

/-!
# The rules of schema entries

Every entry with key names makes a rule for its structural path.  A table that
has been built from entries holds the rules of these entries and no others, and
no two of them stand at one path.
-/

namespace KeyedPaths

namespace Schema

variable (schema : Schema)

/-- The rule that an entry makes: its structural path with its key names. -/
def rule? (id : Nat) : Option (String × List String) :=
  match schema.get? id with
  | none => none
  | some entry =>
      if entry.keyNames = [] then none
      else some (schema.structuralPath id, entry.keyNames)

def rules (ids : List Nat) : List (String × List String) :=
  ids.filterMap schema.rule?

variable {schema} {id : Nat}

theorem rule?_eq_some_iff {path : String} {keyNames : List String} :
    schema.rule? id = some (path, keyNames) ↔
      ∃ entry, schema.get? id = some entry ∧ entry.keyNames ≠ [] ∧
        schema.structuralPath id = path ∧ entry.keyNames = keyNames := by
  unfold rule?
  cases schema.get? id with
  | none => simp
  | some entry =>
      by_cases noKeyNames : entry.keyNames = []
      · simp [noKeyNames]
      · simp [noKeyNames]

theorem exists_rule?_of_mem_keyedIds (isKeyed : id ∈ schema.keyedIds) :
    ∃ entry, schema.get? id = some entry ∧
      schema.rule? id = some (schema.structuralPath id, entry.keyNames) := by
  obtain ⟨entry, isEntry, hasNames⟩ := mem_keyedIds.1 isKeyed
  exact ⟨entry, isEntry,
    rule?_eq_some_iff.2 ⟨entry, isEntry, hasNames, rfl, rfl⟩⟩

theorem mem_keyedIds_of_rule? {path : String} {keyNames : List String}
    (isRule : schema.rule? id = some (path, keyNames)) :
    id ∈ schema.keyedIds ∧ schema.structuralPath id = path := by
  obtain ⟨entry, isEntry, hasNames, samePath, -⟩ := rule?_eq_some_iff.1 isRule
  exact ⟨mem_keyedIds.2 ⟨entry, isEntry, hasNames⟩, samePath⟩

theorem mem_ids_of_mem_keyedIds (isKeyed : id ∈ schema.keyedIds) :
    id ∈ schema.ids := by
  obtain ⟨entry, isEntry, -⟩ := mem_keyedIds.1 isKeyed
  exact mem_ids_of_get? isEntry

end Schema

namespace RuleTable

variable {schema : Schema} {table next final : RuleTable} {id : Nat}

/-- Adding a known entry leaves the table as it is or gives it the rule of the
entry, for a path that had none. -/
theorem addEntry_cases (isAdded : addEntry schema table id = .ok next) :
    (schema.get? id).isSome ∧
      ((schema.rule? id = none ∧ next = table) ∨
        ∃ path keyNames, schema.rule? id = some (path, keyNames) ∧
          table.keyNames? path = none ∧
          ∀ sought, next.keyNames? sought =
            if sought = path then some keyNames
            else table.keyNames? sought) := by
  unfold addEntry at isAdded
  split at isAdded
  next => cases isAdded
  next entry isEntry =>
    refine ⟨by rw [isEntry, Option.isSome_some], ?_⟩
    split at isAdded
    next isKeyed =>
      dsimp only at isAdded
      split at isAdded
      next => cases isAdded
      next isFree =>
        cases isAdded
        refine .inr ⟨schema.structuralPath id, entry.keyNames, ?_, ?_, ?_⟩
        · exact Schema.rule?_eq_some_iff.2 ⟨entry, isEntry, isKeyed, rfl, rfl⟩
        · exact Option.not_isSome_iff_eq_none.1 isFree
        · exact keyNames?_insert table _ _ isKeyed
    next noKeyNames =>
      cases isAdded
      refine .inl ⟨?_, rfl⟩
      rw [Schema.rule?, isEntry]
      exact if_pos (not_not.1 noKeyNames)

/-- Adding entries one after the other adds their rules, all for different paths
that had no rule before. -/
theorem foldlM_addEntry {ids : List Nat}
    (isBuilt : ids.foldlM (addEntry schema) table = .ok final) :
    (∀ path keyNames, final.keyNames? path = some keyNames ↔
        table.keyNames? path = some keyNames ∨
          (path, keyNames) ∈ schema.rules ids) ∧
      ((schema.rules ids).map Prod.fst).Nodup ∧
        ∀ path ∈ (schema.rules ids).map Prod.fst,
          table.keyNames? path = none := by
  induction ids generalizing table with
  | nil =>
      cases isBuilt
      simp [Schema.rules]
  | cons id ids ih =>
      obtain ⟨next, isAdded, isRun⟩ := foldlM_cons_eq_ok_iff.1 isBuilt
      obtain ⟨exactly, distinct, isFree⟩ := ih isRun
      rcases (addEntry_cases isAdded).2 with
        ⟨noRule, rfl⟩ | ⟨path, keyNames, isRule, wasFree, isInserted⟩
      · have sameRules : schema.rules (id :: ids) = schema.rules ids :=
          List.filterMap_cons_none noRule
        rw [sameRules]
        exact ⟨exactly, distinct, isFree⟩
      · have moreRules : schema.rules (id :: ids) =
            (path, keyNames) :: schema.rules ids :=
          List.filterMap_cons_some isRule
        -- Paths that are still free behind the first entry are not its own.
        have isOther : ∀ other ∈ (schema.rules ids).map Prod.fst,
            other ≠ path ∧ table.keyNames? other = none := by
          intro other isLater
          have isNone := isFree other isLater
          rw [isInserted] at isNone
          by_cases isPath : other = path
          · rw [if_pos isPath] at isNone
            cases isNone
          · rw [if_neg isPath] at isNone
            exact ⟨isPath, isNone⟩
        rw [moreRules, List.map_cons, List.nodup_cons, List.forall_mem_cons]
        refine ⟨fun sought names => ?_,
          ⟨fun isLater => (isOther path isLater).1 rfl, distinct⟩,
          wasFree, fun other isLater => (isOther other isLater).2⟩
        rw [exactly, isInserted, List.mem_cons, Prod.mk.injEq]
        by_cases isPath : sought = path
        · subst isPath
          simp [wasFree, eq_comm]
        · simp [isPath]

theorem keyNames?_eq_some_iff_of_build {ids : List Nat}
    (isBuilt : build schema ids = .ok table) {path : String}
    {keyNames : List String} :
    table.keyNames? path = some keyNames ↔
      (path, keyNames) ∈ schema.rules ids := by
  rw [(foldlM_addEntry isBuilt).1, keyNames?_empty]
  simp

/-- Listed entries whose rules are for one path are the same entry. -/
theorem eq_of_rule?_of_build {ids : List Nat}
    (isBuilt : build schema ids = .ok table) {first second : Nat}
    (isFirst : first ∈ ids) (isSecond : second ∈ ids) {path : String}
    {firstNames secondNames : List String}
    (firstRule : schema.rule? first = some (path, firstNames))
    (secondRule : schema.rule? second = some (path, secondNames)) :
    first = second := by
  have distinct := (foldlM_addEntry isBuilt).2.1
  rw [Schema.rules, List.Nodup, List.pairwise_map, List.pairwise_filterMap]
    at distinct
  -- Pairs of a list are compared in its order, but the entries come in any.
  have _ : Std.Symm fun earlier later : Nat =>
      ∀ rule, schema.rule? earlier = some rule →
        ∀ other, schema.rule? later = some other → rule.1 ≠ other.1 :=
    ⟨fun _ _ isApart _ isLater _ isEarlier =>
      (isApart _ isEarlier _ isLater).symm⟩
  by_contra isOther
  exact distinct.forall isFirst isSecond isOther _ firstRule _ secondRule rfl

section OfSchema

variable (isBuilt : ofSchema schema = .ok table)

include isBuilt

theorem keyNames?_eq_some_iff_of_ofSchema {path : String}
    {keyNames : List String} :
    table.keyNames? path = some keyNames ↔
      ∃ id, schema.rule? id = some (path, keyNames) := by
  rw [keyNames?_eq_some_iff_of_build isBuilt, Schema.rules,
    List.mem_filterMap]
  constructor
  · rintro ⟨id, -, isRule⟩
    exact ⟨id, isRule⟩
  · rintro ⟨id, isRule⟩
    have isKeyed := (Schema.mem_keyedIds_of_rule? isRule).1
    exact ⟨id, Schema.mem_ids_of_mem_keyedIds isKeyed, isRule⟩

theorem isSome_keyNames?_iff_of_ofSchema {path : String} :
    (table.keyNames? path).isSome ↔
      ∃ id ∈ schema.keyedIds, schema.structuralPath id = path := by
  rw [Option.isSome_iff_exists]
  constructor
  · rintro ⟨keyNames, isRule⟩
    obtain ⟨id, isEntryRule⟩ :=
      (keyNames?_eq_some_iff_of_ofSchema isBuilt).1 isRule
    exact ⟨id, Schema.mem_keyedIds_of_rule? isEntryRule⟩
  · rintro ⟨id, isKeyed, rfl⟩
    obtain ⟨entry, -, isRule⟩ := Schema.exists_rule?_of_mem_keyedIds isKeyed
    exact ⟨entry.keyNames,
      (keyNames?_eq_some_iff_of_ofSchema isBuilt).2 ⟨id, isRule⟩⟩

theorem keyNames?_structuralPath {entry : Entry}
    (isEntry : schema.get? id = some entry) (isKeyed : entry.keyNames ≠ []) :
    table.keyNames? (schema.structuralPath id) = some entry.keyNames :=
  (keyNames?_eq_some_iff_of_ofSchema isBuilt).2
    ⟨id, Schema.rule?_eq_some_iff.2 ⟨entry, isEntry, isKeyed, rfl, rfl⟩⟩

/-- No two keyed entries of a schema with a table stand at one structural
path. -/
theorem eq_of_structuralPath_eq {first second : Nat}
    (isFirst : first ∈ schema.keyedIds) (isSecond : second ∈ schema.keyedIds)
    (samePath : schema.structuralPath first = schema.structuralPath second) :
    first = second := by
  obtain ⟨entry, -, firstRule⟩ := Schema.exists_rule?_of_mem_keyedIds isFirst
  obtain ⟨other, -, secondRule⟩ := Schema.exists_rule?_of_mem_keyedIds isSecond
  exact eq_of_rule?_of_build isBuilt (Schema.mem_ids_of_mem_keyedIds isFirst)
    (Schema.mem_ids_of_mem_keyedIds isSecond) (samePath ▸ firstRule) secondRule

end OfSchema

end RuleTable

end KeyedPaths
