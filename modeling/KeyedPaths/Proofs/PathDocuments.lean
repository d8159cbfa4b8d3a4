import KeyedPaths.Proofs.Answers
import KeyedPaths.Proofs.JsonNormalForm

/-!
# Documents of paths

The document of a path says everything about it: names, key names and key values
are JSON strings, and an element without keys just has no field for them.  The
compact text of the document is read as the document again, and the document as
the path.
-/

namespace KeyedPaths

/-- A map of texts as the object that documents hold. -/
def StringMap.toJson (map : StringMap String) : StringMap Json where
  bindings := map.bindings.map fun binding => (binding.1, .string binding.2)
  ascending := List.pairwise_map.2 map.ascending

namespace PathElement

/-- The members that an element writes for its keys, if it has any. -/
def keyMembers (keys : StringMap String) : List (String × Json) :=
  if keys.isEmpty then [] else [("key", .object keys.toJson.bindings)]

theorem toJson_eq (name : String) (keys : StringMap String) :
    toJson ⟨name, keys⟩ =
      .object (("name", .string name) :: keyMembers keys) := by
  unfold toJson keyMembers hasKeys
  cases keys.isEmpty <;> rfl

theorem normalize_keys (keys : StringMap String) :
    (Json.object keys.toJson.bindings).normalize =
      .object keys.toJson.bindings := by
  apply Json.normalize_object_bindings
  intro member isMember
  obtain ⟨binding, -, rfl⟩ := List.mem_map.1 isMember
  rfl

/-- The normal form puts the keys before the name. -/
theorem normalize_toJson (name : String) (keys : StringMap String) :
    (toJson ⟨name, keys⟩).normalize =
      .object (keyMembers keys ++ [("name", .string name)]) := by
  have keyBeforeName : "key" < "name" := by decide
  rw [toJson_eq, Json.normalize, keyMembers]
  cases keys.isEmpty with
  | true => simp [Json.normalizeMembers, insertBinding, Json.normalize]
  | false =>
      simp [Json.normalizeMembers, insertBinding, normalize_keys,
        keyBeforeName]
      rfl

theorem keysOfJson_toJson (keys : StringMap String) :
    keysOfJson (.object keys.toJson.bindings) = .ok keys := by
  rw [keysOfJson, StringMap.toJson, List.foldlM_map]
  calc
    _ = keys.bindings.foldlM (m := Except ShapeFault)
          (fun keys binding => pure (keys.insert binding.1 binding.2))
          StringMap.empty := rfl
    _ = .ok (StringMap.ofList keys.bindings) := List.foldlM_pure
    _ = .ok keys := by rw [StringMap.ofList_bindings]

/-- An element is restored from the normal form of its document. -/
theorem ofJson_normalize_toJson (element : PathElement) :
    ofJson element.toJson.normalize = .ok element := by
  obtain ⟨name, keys⟩ := element
  have visitName (fields : Fields) :
      visitField fields ("name", .string name) =
        .ok { fields with name? := some name } := rfl
  rw [normalize_toJson, ofJson, keyMembers]
  split
  next noKeys =>
    have isEmpty : keys = .empty := StringMap.ext_get? fun key => by
      rw [StringMap.get?, List.isEmpty_iff.1 noKeys]
      rfl
    rw [List.nil_append, List.foldlM_cons, visitName, isEmpty]
    rfl
  next =>
    have visitKeys : visitField ⟨none, .empty⟩
        ("key", .object keys.toJson.bindings) = .ok ⟨none, keys⟩ := by
      have isOther : ¬ "key" = "name" := by decide
      rw [visitField, if_neg isOther, if_pos rfl, keysOfJson_toJson]
      rfl
    rw [List.singleton_append, List.foldlM_cons, visitKeys]
    rfl

theorem numberFree_toJson (element : PathElement) :
    element.toJson.NumberFree := by
  obtain ⟨name, keys⟩ := element
  have areStrings : ∀ member ∈ keys.toJson.bindings, member.2.NumberFree := by
    intro member isMember
    obtain ⟨binding, -, rfl⟩ := List.mem_map.1 isMember
    exact .string binding.2
  rw [toJson_eq, keyMembers]
  refine .object (List.forall_mem_cons.2 ⟨.string name, ?_⟩)
  split
  · exact List.forall_mem_nil _
  · exact List.forall_mem_singleton.2 (.object areStrings)

theorem nesting_toJson_le (element : PathElement) :
    element.toJson.nesting ≤ 2 := by
  obtain ⟨name, keys⟩ := element
  have areStrings (bindings : List (String × String)) :
      Json.nestingOfMembers (bindings.map fun binding =>
        (binding.1, .string binding.2)) = 0 := by
    induction bindings with
    | nil => rfl
    | cons binding rest ih => simp [Json.nestingOfMembers, Json.nesting, ih]
  rw [toJson_eq, keyMembers]
  cases keys.isEmpty <;>
    simp [Json.nesting, Json.nestingOfMembers, StringMap.toJson, areStrings]

end PathElement

namespace Path

open PathElement

/-- A path is restored from its document. -/
theorem ofJson_toJson (path : Path) : ofJson path.toJson = .ok path := by
  have restores : (PathElement.ofJson ∘ Json.normalize ∘ PathElement.toJson) =
      fun element => (pure element : Except ShapeFault PathElement) :=
    funext PathElement.ofJson_normalize_toJson
  rw [ofJson, toJson, Json.normalize, Json.normalizeElements_eq_map,
    List.map_map]
  change (path.map (Json.normalize ∘ PathElement.toJson)).mapM
    PathElement.ofJson = _
  rw [List.mapM_map, restores, List.mapM_pure, List.map_id']
  rfl

theorem nesting_toJson_le (path : Path) : path.toJson.nesting ≤ 3 := by
  have areLow : Json.nestingOfAll (path.map PathElement.toJson) ≤ 2 := by
    induction path with
    | nil => exact Nat.zero_le 2
    | cons element rest ih =>
        rw [List.map_cons, Json.nestingOfAll]
        exact Nat.max_le.2 ⟨element.nesting_toJson_le, ih⟩
  rw [toJson, Json.nesting]
  omega

/-- The compact text of the document of a path is read as this document. -/
theorem ofText_toJson (path : Path) :
    Json.ofText path.toJson.compact = .ok path.toJson := by
  have isFree : path.toJson.NumberFree :=
    .array (List.forall_mem_map.2 fun element _ => element.numberFree_toJson)
  have isLow := path.nesting_toJson_le
  apply Json.ofText_compact isFree
  rw [Json.greatestDepth]
  omega

/-- The JSON text says which path it is. -/
def IsRestored (text : String) (path : Path) : Prop :=
  ∃ document, Json.ofText text = .ok document ∧ ofJson document = .ok path

theorem isRestored_compact (path : Path) :
    IsRestored path.toJson.compact path :=
  ⟨path.toJson, path.ofText_toJson, path.ofJson_toJson⟩

/-- A text is restored to at most one path. -/
theorem IsRestored.unique {text : String} {first second : Path}
    (isFirst : IsRestored text first) (isSecond : IsRestored text second) :
    first = second := by
  obtain ⟨document, isText, isPath⟩ := isFirst
  obtain ⟨other, isOther, isOtherPath⟩ := isSecond
  rw [isText, Except.ok.injEq] at isOther
  rw [← isOther, isPath, Except.ok.injEq] at isOtherPath
  exact isOtherPath

end Path

namespace CommandLine

/-- A printed document loses nothing of its path.  Every path is restored from
its text, so that two paths do not have one text.  This is the text that the
program prints, when it is told to, for the path that its options select. -/
theorem path_restored_from_printed_text :
    (∀ path : Path, Path.IsRestored path.toJson.compact path) ∧
      (∀ first second : Path, first ≠ second →
        first.toJson.compact ≠ second.toJson.compact) ∧
      ∀ (options : Options) (schema : Schema) (text : String),
        options.json = true → options.dumpRules = false →
          answer options schema = .ok text →
            ∃ table path, RuleTable.ofSchema schema = .ok table ∧
              selectPath options table = .ok path ∧
              text = path.toJson.compact ∧ Path.IsRestored text path := by
  refine ⟨Path.isRestored_compact, fun first second notSame sameText => ?_,
    fun options schema text isJson noDump isAnswer => ?_⟩
  · apply notSame
    have isFirst := first.isRestored_compact
    rw [sameText] at isFirst
    exact isFirst.unique second.isRestored_compact
  · cases isBuilt : RuleTable.ofSchema schema with
    | error failure =>
        rw [answer_of_error isBuilt] at isAnswer
        cases isAnswer
    | ok table =>
        rw [answer_of_table isBuilt, noDump] at isAnswer
        cases isSelected : selectPath options table with
        | error failure =>
            rw [isSelected] at isAnswer
            cases isAnswer
        | ok path =>
            rw [isSelected, isJson] at isAnswer
            cases isAnswer
            exact ⟨table, path, rfl, isSelected, rfl,
              path.isRestored_compact⟩

/-- A keyed list with a name and a key name that are escaped in JSON. -/
def quotedSchema : Schema :=
  (Schema.empty.addRoot "r").push
    (.child 0 "a\"\\\x01" (some "k\"")) (by rintro _ ⟨⟩; decide)

def quotedOptions : Options where
  schemaPath := "schema.json"
  wildcard := false
  json := true
  dumpRules := false
  segments := ["a\"\\\x01", "\n𝄞", ""]

def quotedPath : Path :=
  [⟨"a\"\\\x01", StringMap.empty.insert "k\"" "\n𝄞"⟩, .ofName ""]

theorem quotedPath_restored :
    Path.IsRestored quotedPath.toJson.compact quotedPath ∧
      quotedPath.toJson.compact ≠ (Path.toJson []).compact ∧
      answer quotedOptions quotedSchema = .ok quotedPath.toJson.compact ∧
      ∃ table path, RuleTable.ofSchema quotedSchema = .ok table ∧
        selectPath quotedOptions table = .ok path ∧
        quotedPath.toJson.compact = path.toJson.compact ∧
        Path.IsRestored quotedPath.toJson.compact path := by
  have isText : (answer quotedOptions quotedSchema).toOption =
      some quotedPath.toJson.compact := by
    decide +kernel
  obtain ⟨restores, differ, printed⟩ := path_restored_from_printed_text
  refine ⟨restores quotedPath, differ quotedPath [] (List.cons_ne_nil _ _), ?_⟩
  cases isAnswer : answer quotedOptions quotedSchema with
  | error failure =>
      rw [isAnswer] at isText
      cases isText
  | ok text =>
      rw [isAnswer] at isText
      cases isText
      exact ⟨rfl, printed quotedOptions quotedSchema _ rfl rfl isAnswer⟩

end CommandLine

end KeyedPaths
