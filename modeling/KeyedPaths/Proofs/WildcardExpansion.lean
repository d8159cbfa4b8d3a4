import KeyedPaths.CommandLine
import KeyedPaths.Proofs.Annotation

/-!
# Annotated names and expanded segments

Annotating a path of plain names gives every keyed list on it the wildcard for
each of its keys.  The same path is what segments resolve to in which every name
is followed by the wildcard, once for each key name listed at its structural
path.  On the command line both ways therefore print the same.
-/

namespace KeyedPaths

open StructuralPath

namespace RuleTable

variable (table : RuleTable)

/-- The given names, each with a wildcard behind it for every key value that a
rule wants there. -/
def wildcardSegments (names : List String) : List String :=
  (locate id names).flatMap fun located =>
    located.2 :: List.replicate (table.keyNamesAt located.1).length wildcard

theorem locateBelow_ofName (path : String) (names : List String) :
    locateBelow PathElement.name path (names.map .ofName) =
      (locateBelow id path names).map fun located =>
        (located.1, .ofName located.2) := by
  rw [← map_comp_snd_locateBelow id PathElement.ofName path names]
  exact locateBelow_map id (fun located => PathElement.ofName located.2)
    (fun _ => rfl) path names

theorem annotatedElement_ofName (path name : String) :
    table.annotatedElement (path, .ofName name) =
      wildcardElement name (table.keyNamesAt path) := by
  rw [annotatedElement]
  cases isRule : table.keyNames? path with
  | none =>
      rw [table.keyNamesAt_of_none isRule]
      rfl
  | some keyNames => rw [table.keyNamesAt_of_some isRule, PathElement.ofName]

/-- Plain names have no keys, so annotating reaches all of them. -/
theorem annotateBelow_map_ofName (path : String) (changed : Bool)
    (names : List String) :
    table.annotateBelow path changed (names.map .ofName) =
      ⟨(locateBelow id path names).map fun located =>
          wildcardElement located.2 (table.keyNamesAt located.1),
        .ok (changed || (locateBelow id path names).any fun located =>
          table.contains located.1)⟩ := by
  have unblocked : ∀ located ∈
      locateBelow PathElement.name path (names.map .ofName),
      ¬ table.IsBlocked located := by
    rw [locateBelow_ofName]
    rintro _ isLocated ⟨-, hasKeys⟩
    obtain ⟨located, -, rfl⟩ := List.mem_map.1 isLocated
    cases hasKeys
  rw [table.annotateBelow_of_unblocked unblocked, locateBelow_ofName,
    List.map_map, List.any_map]
  simp only [Function.comp_def, annotatedElement_ofName]

theorem annotate_map_ofName (names : List String) :
    table.annotate (names.map .ofName) =
      ⟨table.wildcardPath names,
        .ok ((locate id names).any fun located =>
          table.contains located.1)⟩ := by
  rw [annotate, annotateBelow_map_ofName, Bool.false_or]
  rfl

/-- An element that means every instance holds the wildcard for each listing of
a key name, also of one that is listed twice. -/
theorem filterMap_get?_wildcardElement (name : String)
    (keyNames : List String) :
    keyNames.filterMap (wildcardElement name keyNames).keys.get? =
      List.replicate keyNames.length wildcard := by
  have lookups := (StringMap.filterMap_get?_ofList_eq_iff _).2
    (consistent_wildcards keyNames)
  simpa [wildcardElement, PathElement.withKeys, Function.comp_def,
    List.map_const'] using lookups

theorem keyValues_wildcardElement (path name : String) :
    table.keyValues path
        (wildcardElement name (table.keyNamesAt path)).keys =
      List.replicate (table.keyNamesAt path).length wildcard := by
  rw [keyValues_of_keys_subset, filterMap_get?_wildcardElement]
  intro key isKey
  rw [wildcardElement, PathElement.withKeys, StringMap.mem_keys_ofList] at isKey
  simpa using isKey

theorem flattenBelow_wildcardElements (path : String) (names : List String) :
    table.flattenBelow path ((locateBelow id path names).map fun located =>
        wildcardElement located.2 (table.keyNamesAt located.1)) =
      (locateBelow id path names).flatMap fun located =>
        located.2 :: List.replicate (table.keyNamesAt located.1).length
          wildcard := by
  induction names generalizing path with
  | nil => rfl
  | cons name names ih =>
      have sameName : (wildcardElement name
          (table.keyNamesAt (extend path name))).name = name := rfl
      rw [locateBelow, List.map_cons, flattenBelow, List.flatMap_cons, id_eq,
        sameName, keyValues_wildcardElement, ih, List.cons_append]

theorem flatten_wildcardPath (names : List String) :
    table.flatten (table.wildcardPath names) = table.wildcardSegments names :=
  table.flattenBelow_wildcardElements "" names

theorem resolve_wildcardSegments (names : List String) :
    table.resolve (table.wildcardSegments names) =
      .ok (table.wildcardPath names) := by
  rw [← flatten_wildcardPath]
  exact table.resolve_flatten_wildcardPath names

end RuleTable

namespace CommandLine

/-- What is printed, given the table of the schema. -/
theorem answer_of_table {options : Options} {schema : Schema}
    {table : RuleTable} (isBuilt : RuleTable.ofSchema schema = .ok table) :
    answer options schema =
      if options.dumpRules then .ok (ruleLines table)
      else (selectPath options table).map fun path =>
        if options.json then path.toJson.compact else path.text := by
  rw [answer, isBuilt]
  change (if options.dumpRules = true then pure (ruleLines table)
    else selectPath options table >>= fun path =>
      if options.json = true then pure path.toJson.compact
      else pure path.text) = _
  cases options.dumpRules <;> cases selectPath options table <;>
    cases options.json <;> rfl

theorem answer_of_selectPath {options : Options} {schema : Schema}
    {table : RuleTable} {path : Path}
    (isBuilt : RuleTable.ofSchema schema = .ok table)
    (noDump : options.dumpRules = false)
    (isSelected : selectPath options table = .ok path) :
    answer options schema =
      .ok (if options.json then path.toJson.compact else path.text) := by
  rw [answer_of_table isBuilt, noDump, isSelected]
  rfl

theorem selectPath_of_wildcard {options : Options} (table : RuleTable)
    (isWildcard : options.wildcard = true) :
    selectPath options table = .ok (table.wildcardPath options.segments) := by
  rw [selectPath, if_pos isWildcard, RuleTable.annotate_map_ofName]

theorem selectPath_wildcardSegments {options : Options} {table : RuleTable}
    {names : List String} (noWildcard : options.wildcard = false)
    (areSegments : options.segments = table.wildcardSegments names) :
    selectPath options table = .ok (table.wildcardPath names) := by
  rw [selectPath, noWildcard, if_neg Bool.false_ne_true, areSegments,
    table.resolve_wildcardSegments]
  rfl

/-- Annotating a path of plain names succeeds; the annotated path is flattened
to the names with the wildcards that the rules want behind them, and these
segments resolve to it.  The program therefore prints for the names, when it is
told to annotate, what it prints for these segments otherwise. -/
theorem annotating_agrees_with_resolving :
    (∀ (table : RuleTable) (names : List String),
        (∃ changed,
          (table.annotate (names.map .ofName)).outcome = .ok changed) ∧
        table.flatten (table.annotate (names.map .ofName)).path =
          table.wildcardSegments names ∧
        table.resolve (table.wildcardSegments names) =
          .ok (table.annotate (names.map .ofName)).path) ∧
      ∀ (schema : Schema) (table : RuleTable) (options : Options),
        RuleTable.ofSchema schema = .ok table → options.dumpRules = false →
          ∃ text,
            answer { options with wildcard := true } schema = .ok text ∧
            answer { options with
                wildcard := false
                segments := table.wildcardSegments options.segments }
              schema = .ok text := by
  constructor
  · intro table names
    rw [RuleTable.annotate_map_ofName]
    exact ⟨⟨_, rfl⟩, table.flatten_wildcardPath names,
      table.resolve_wildcardSegments names⟩
  · intro schema table options isBuilt noDump
    have annotated := @selectPath_of_wildcard
      { options with wildcard := true } table rfl
    have resolved := @selectPath_wildcardSegments
      { options with
        wildcard := false
        segments := table.wildcardSegments options.segments }
      table options.segments rfl rfl
    exact ⟨_, answer_of_selectPath isBuilt noDump annotated,
      answer_of_selectPath isBuilt noDump resolved⟩

/-- A keyed list whose rule lists a key name twice, and below it one whose name
is that of the wildcard. -/
def starSchema : Schema :=
  ((Schema.empty.addRoot "r").push (.child 0 "rows" (some "id k id"))
      (by rintro _ ⟨⟩; decide)).push (.child 1 "*" (some "x"))
      (by rintro _ ⟨⟩; decide)

def starTable : RuleTable :=
  (RuleTable.empty.insert "/rows" ["id", "k", "id"] (by decide)).insert
    "/rows/*" ["x"] (by decide)

def starOptions : Options where
  schemaPath := "schema.json"
  wildcard := false
  json := false
  dumpRules := false
  segments := ["rows", "*", "*"]

theorem starSchema_annotating_agrees :
    RuleTable.ofSchema starSchema = .ok starTable ∧
      answer { starOptions with wildcard := true } starSchema =
        .ok "/rows[id=*][k=*]/*[x=*]/*" ∧
      answer { starOptions with
          segments := ["rows", "*", "*", "*", "*", "*", "*"] } starSchema =
        .ok "/rows[id=*][k=*]/*[x=*]/*" := by
  have isBuilt : RuleTable.ofSchema starSchema = .ok starTable := by
    decide +kernel
  have expanded : starTable.wildcardSegments starOptions.segments =
      ["rows", "*", "*", "*", "*", "*", "*"] := by
    decide +kernel
  have isText : (answer { starOptions with wildcard := true }
      starSchema).toOption = some "/rows[id=*][k=*]/*[x=*]/*" := by
    decide +kernel
  obtain ⟨text, annotated, resolved⟩ :=
    annotating_agrees_with_resolving.2 starSchema starTable starOptions
      isBuilt rfl
  rw [expanded] at resolved
  rw [annotated] at isText
  cases isText
  exact ⟨isBuilt, annotated, resolved⟩

end CommandLine

end KeyedPaths
