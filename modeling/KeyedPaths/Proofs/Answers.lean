import KeyedPaths.Proofs.ListedEntries
import KeyedPaths.Proofs.WildcardExpansion

/-!
# Answers of the program

The rule table comes first, so that two keyed entries at one structural path are
an error whatever the options are.  If there is a table, listing the rules and
annotating plain names always succeed, and resolving the segments is all that can
still fail.
-/

namespace KeyedPaths

/-- Two different keyed entries stand at a structural path. -/
def Schema.SharesPath (schema : Schema) (path : String) : Prop :=
  ∃ first ∈ schema.keyedIds, ∃ second ∈ schema.keyedIds,
    first ≠ second ∧ schema.structuralPath first = path ∧
      schema.structuralPath second = path

namespace RuleTable

variable {schema : Schema}

theorem sharesPath_of_ofSchema_eq_error {failure : RuleError}
    (isError : ofSchema schema = .error failure) :
    ∃ path, failure = .duplicatePath path ∧ schema.SharesPath path := by
  obtain ⟨before, id, after, path, keyNames, isSplit, -, isRule, isEarlier,
    rfl⟩ := ofSchema_error_cases isError
  obtain ⟨⟨_, earlierNames⟩, isEarlierRule, rfl⟩ := List.mem_map.1 isEarlier
  obtain ⟨earlier, isBefore, isEarlierRule⟩ :=
    List.mem_filterMap.1 isEarlierRule
  have distinct : (before ++ id :: after).Nodup :=
    isSplit ▸ List.nodup_range
  have notSame : earlier ≠ id :=
    (List.nodup_append.1 distinct).2.2 earlier isBefore id List.mem_cons_self
  obtain ⟨earlierKeyed, earlierPath⟩ :=
    Schema.mem_keyedIds_of_rule? isEarlierRule
  obtain ⟨isKeyed, samePath⟩ := Schema.mem_keyedIds_of_rule? isRule
  exact ⟨_, rfl, earlier, earlierKeyed, id, isKeyed, notSame, earlierPath,
    samePath⟩

theorem not_sharesPath_of_ofSchema {table : RuleTable}
    (isBuilt : ofSchema schema = .ok table) (path : String) :
    ¬ schema.SharesPath path := by
  rintro ⟨first, isFirst, second, isSecond, notSame, firstPath, secondPath⟩
  apply notSame
  exact eq_of_structuralPath_eq isBuilt isFirst isSecond
    (firstPath.trans secondPath.symm)

theorem exists_ofSchema_iff :
    (∃ table, ofSchema schema = .ok table) ↔
      ∀ path, ¬ schema.SharesPath path := by
  constructor
  · rintro ⟨table, isBuilt⟩
    exact not_sharesPath_of_ofSchema isBuilt
  · intro notShared
    cases isBuilt : ofSchema schema with
    | ok table => exact ⟨table, rfl⟩
    | error failure =>
        obtain ⟨path, -, isShared⟩ := sharesPath_of_ofSchema_eq_error isBuilt
        exact absurd isShared (notShared path)

end RuleTable

namespace CommandLine

open RuleTable

variable {schema : Schema} {options : Options}

theorem answer_of_error {failure : RuleError}
    (isError : ofSchema schema = .error failure) :
    answer options schema = .error (.rules failure) := by
  rw [answer, isError]
  rfl

section Table

variable {table : RuleTable} (isBuilt : ofSchema schema = .ok table)

include isBuilt

theorem exists_answer (isSafe : options.dumpRules = true ∨
    options.wildcard = true) :
    ∃ text, answer options schema = .ok text := by
  rw [answer_of_table isBuilt]
  rcases isSafe with isDump | isWildcard
  · rw [if_pos isDump]
    exact ⟨_, rfl⟩
  · rw [selectPath_of_wildcard table isWildcard]
    split
    · exact ⟨_, rfl⟩
    · exact ⟨_, rfl⟩

theorem answer_eq_error_iff (noDump : options.dumpRules = false)
    (noWildcard : options.wildcard = false) (failure : Failure) :
    answer options schema = .error failure ↔
      ∃ error, table.resolve options.segments = .error error ∧
        failure = .resolution error := by
  rw [answer_of_table isBuilt, noDump, selectPath, noWildcard]
  cases table.resolve options.segments with
  | ok path => simp [Except.mapError, Except.map]
  | error error => simp [Except.mapError, Except.map, eq_comm]

end Table

/-- Every failure is a structural path that two keyed entries share, or that of
resolving the segments. -/
theorem answer_error_cases {failure : Failure}
    (isError : answer options schema = .error failure) :
    (∃ path, schema.SharesPath path ∧
        failure = .rules (.duplicatePath path)) ∨
      ∃ error, failure = .resolution error := by
  cases isBuilt : ofSchema schema with
  | error fault =>
      obtain ⟨path, rfl, isShared⟩ := sharesPath_of_ofSchema_eq_error isBuilt
      rw [answer_of_error isBuilt] at isError
      cases isError
      exact .inl ⟨path, isShared, rfl⟩
  | ok table =>
      by_cases isSafe : options.dumpRules = true ∨ options.wildcard = true
      · obtain ⟨text, isText⟩ := exists_answer isBuilt isSafe
        simp [isText] at isError
      · simp only [not_or, Bool.not_eq_true] at isSafe
        obtain ⟨error, -, rfl⟩ :=
          (answer_eq_error_iff isBuilt isSafe.1 isSafe.2 failure).1 isError
        exact .inr ⟨error, rfl⟩

theorem exists_duplicatePath_iff :
    (∃ path, answer options schema = .error (.rules (.duplicatePath path))) ↔
      ∃ path, schema.SharesPath path := by
  constructor
  · rintro ⟨path, isError⟩
    rcases answer_error_cases isError with ⟨_, isShared, ⟨⟩⟩ | ⟨_, ⟨⟩⟩
    exact ⟨path, isShared⟩
  · rintro ⟨path, isShared⟩
    cases isBuilt : ofSchema schema with
    | ok table => exact absurd isShared (not_sharesPath_of_ofSchema isBuilt path)
    | error fault =>
        obtain ⟨path, rfl, -⟩ := sharesPath_of_ofSchema_eq_error isBuilt
        exact ⟨path, answer_of_error isBuilt⟩

/-- How the program can fail.  Whatever the options are, it fails at a structural
path that two keyed entries share, if there is one.  Otherwise it has a table:
it lists the rules or annotates the segments without failing, and resolving them
fails as the segments do.  It has no other failure, and when it lists the rules
the other options make no difference. -/
theorem failures_of_answer (schema : Schema) :
    (∀ options,
      ((∃ path,
          answer options schema = .error (.rules (.duplicatePath path))) ↔
        ∃ path, schema.SharesPath path) ∧
      ∀ failure, answer options schema = .error failure →
        (∃ path, schema.SharesPath path ∧
            failure = .rules (.duplicatePath path)) ∨
          ∃ error, failure = .resolution error) ∧
    ((∀ path, ¬ schema.SharesPath path) →
      ∃ table, ofSchema schema = .ok table ∧
        ∀ options : Options,
          (options.dumpRules = true ∨ options.wildcard = true →
            ∃ text, answer options schema = .ok text) ∧
          (options.dumpRules = false → options.wildcard = false →
            ∀ failure, answer options schema = .error failure ↔
              ∃ error, table.resolve options.segments = .error error ∧
                failure = .resolution error)) ∧
    ∀ first second : Options, first.dumpRules = true →
      second.dumpRules = true →
        answer first schema = answer second schema := by
  refine ⟨fun options => ?_, fun notShared => ?_,
    fun first second firstDump secondDump => ?_⟩
  · exact ⟨exists_duplicatePath_iff, fun failure isError =>
      answer_error_cases isError⟩
  · obtain ⟨table, isBuilt⟩ := exists_ofSchema_iff.2 notShared
    exact ⟨table, isBuilt, fun options => ⟨exists_answer isBuilt,
      answer_eq_error_iff isBuilt⟩⟩
  · cases isBuilt : ofSchema schema with
    | error failure => rw [answer_of_error isBuilt, answer_of_error isBuilt]
    | ok table =>
        rw [answer_of_table isBuilt, if_pos firstDump,
          answer_of_table isBuilt, if_pos secondDump]

/-- Two lanes share a path.  Of the other schema, with a table, the segments end
before the third key value; with the wildcards they are annotated. -/
theorem starSchema_failures :
    (∃ path, answer { starOptions with dumpRules := true } laneSchema =
        .error (.rules (.duplicatePath path))) ∧
      (∃ text,
        answer { starOptions with wildcard := true } starSchema = .ok text) ∧
      answer starOptions starSchema =
        .error (.resolution ⟨2, 3, "/rows"⟩) ∧
      answer { starOptions with dumpRules := true } starSchema =
        answer { starOptions with
          dumpRules := true
          json := true
          segments := [] } starSchema := by
  have isBuilt : ofSchema starSchema = .ok starTable := by decide +kernel
  have isShared : laneSchema.SharesPath "/lane" :=
    ⟨1, by decide +kernel, 2, by decide +kernel, by decide, by decide +kernel,
      by decide +kernel⟩
  have isShort :
      starTable.resolve starOptions.segments = .error ⟨2, 3, "/rows"⟩ := by
    decide +kernel
  obtain ⟨-, hasTable, sameAnswer⟩ := failures_of_answer starSchema
  obtain ⟨table, isTable, answers⟩ :=
    hasTable (not_sharesPath_of_ofSchema isBuilt)
  rw [isBuilt] at isTable
  cases isTable
  refine ⟨?_, ?_, ?_, ?_⟩
  · exact ((failures_of_answer laneSchema).1 _).1.2 ⟨"/lane", isShared⟩
  · exact (answers { starOptions with wildcard := true }).1 (.inr rfl)
  · exact ((answers starOptions).2 rfl rfl _).2 ⟨_, isShort, rfl⟩
  · exact sameAnswer _ _ rfl rfl

end CommandLine

end KeyedPaths
