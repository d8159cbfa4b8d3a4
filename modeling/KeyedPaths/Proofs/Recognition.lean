import Mathlib.Control.Monad.Basic
import KeyedPaths.Proofs.EntryPaths
import KeyedPaths.Proofs.EntryRules
import KeyedPaths.Proofs.RoundTrip

/-!
# Where keyed lists are recognised

An element of a resolved path has keys exactly where the text of the names up to
it is the structural path of a keyed entry.  The names themselves need not be
those of the entry: a slash inside a name cannot be told from the slash between
two names.  They are the same names for all segments exactly if every keyed
entry stands right below its root under a name without slashes, and for all
segments whose names are free of slashes exactly if no name that leads to a
keyed entry holds one.
-/

namespace KeyedPaths

open StructuralPath

/-- The names of the elements up to a position. -/
def Path.namesUpTo (path : Path) (index : Nat) : List String :=
  (path.take (index + 1)).map PathElement.name

theorem Path.namesUpTo_last (path : Path) :
    path.namesUpTo (path.length - 1) = path.map PathElement.name := by
  rw [namesUpTo, List.take_of_length_le (by omega)]

/-- The structural path through the names of the elements up to a position. -/
def Path.structuralPathTo (path : Path) (index : Nat) : String :=
  ofNames (path.namesUpTo index)

theorem Path.mem_locate {path : Path} {located : String × PathElement} :
    located ∈ locate PathElement.name path ↔
      ∃ index element, path[index]? = some element ∧
        (path.structuralPathTo index, element) = located := by
  simp only [List.mem_iff_getElem?, getElem?_locate, Option.map_eq_some_iff]
  rfl

theorem PathElement.hasKeys_iff {element : PathElement} :
    element.hasKeys = true ↔ ∃ key, key ∈ element.keys.keys := by
  rw [hasKeys, Bool.not_eq_true', StringMap.isEmpty_eq_false_iff]

/-- The names up to every element with keys are those of a keyed entry, from
just below its root down to it. -/
def Path.LinesUp (schema : Schema) (path : Path) : Prop :=
  ∀ (index : Nat) (element : PathElement),
    path[index]? = some element → element.hasKeys = true →
      ∃ id ∈ schema.keyedIds, schema.pathNames id = path.namesUpTo index

namespace Schema

theorem pathNames_ne_nil {schema : Schema} {id : Nat}
    (isKeyed : id ∈ schema.keyedIds) : schema.pathNames id ≠ [] := by
  obtain ⟨entry, isEntry, hasNames⟩ := mem_keyedIds.1 isKeyed
  cases entry with
  | root name => exact absurd rfl hasNames
  | child parent name key =>
      rw [pathNames_of_child isEntry]
      exact List.append_ne_nil_of_right_ne_nil _ (List.cons_ne_nil _ _)

end Schema

namespace RuleTable

variable {table : RuleTable}

/-- An element of a resolved path has keys exactly if the text of the names up
to it has a rule. -/
theorem hasKeys_iff_of_resolve {segments : List String} {path : Path}
    (isResolved : table.resolve segments = .ok path) {index : Nat}
    {element : PathElement} (isElement : path[index]? = some element) :
    element.hasKeys = true ↔
      (table.keyNames? (ofNames (path.namesUpTo index))).isSome := by
  have isLocated : (ofNames (path.namesUpTo index), element) ∈
      locate PathElement.name path :=
    Path.mem_locate.2 ⟨index, element, isElement, rfl⟩
  have sameKeys := table.mem_keys_iff_of_resolve isResolved _ isLocated
  dsimp only at sameKeys
  rw [PathElement.hasKeys_iff, ← Option.ne_none_iff_isSome, ne_eq,
    ← keyNamesAt_eq_nil_iff]
  constructor
  · rintro ⟨key, isKey⟩
    exact List.ne_nil_of_mem ((sameKeys key).1 isKey)
  · intro nonempty
    obtain ⟨key, isListed⟩ := List.exists_mem_of_ne_nil _ nonempty
    exact ⟨key, (sameKeys key).2 isListed⟩

section OfSchema

variable {schema : Schema} (isBuilt : ofSchema schema = .ok table)

include isBuilt

theorem exists_keyed_of_hasKeys {segments : List String} {path : Path}
    (isResolved : table.resolve segments = .ok path) {index : Nat}
    {element : PathElement} (isElement : path[index]? = some element)
    (hasKeys : element.hasKeys = true) :
    ∃ id ∈ schema.keyedIds,
      schema.structuralPath id = ofNames (path.namesUpTo index) :=
  (isSome_keyNames?_iff_of_ofSchema isBuilt).1
    ((hasKeys_iff_of_resolve isResolved isElement).1 hasKeys)

/-- At the structural path of a keyed entry no other keyed entry can line up. -/
theorem exists_pathNames_eq_iff {id : Nat} (isKeyed : id ∈ schema.keyedIds)
    {names : List String} (samePath : schema.structuralPath id = ofNames names) :
    (∃ other ∈ schema.keyedIds, schema.pathNames other = names) ↔
      schema.pathNames id = names := by
  constructor
  · rintro ⟨other, otherKeyed, sameNames⟩
    have sameEntry : other = id := by
      refine eq_of_structuralPath_eq isBuilt otherKeyed isKeyed ?_
      rw [Schema.structuralPath, sameNames, samePath]
    rw [← sameEntry, sameNames]
  · intro sameNames
    exact ⟨id, isKeyed, sameNames⟩

/-- If the path through some names lines up with the schema, and the text of
these names is the structural path of a keyed entry, they are its names. -/
theorem pathNames_eq_of_linesUp {id : Nat} (isKeyed : id ∈ schema.keyedIds)
    {names : List String} (samePath : ofNames names = schema.structuralPath id)
    (linesUp : (table.wildcardPath names).LinesUp schema) :
    schema.pathNames id = names := by
  have sameNames := table.map_name_wildcardPath names
  have nonempty : table.wildcardPath names ≠ [] := by
    intro isEmpty
    rw [isEmpty, List.map_nil] at sameNames
    rw [← sameNames, ofNames_nil, eq_comm, Schema.structuralPath,
      ofNames_eq_empty_iff] at samePath
    exact Schema.pathNames_ne_nil isKeyed samePath
  have inBounds : (table.wildcardPath names).length - 1 <
      (table.wildcardPath names).length := by
    have := List.length_pos_iff.2 nonempty
    omega
  have isLast := List.getElem?_eq_getElem inBounds
  have lastNames : (table.wildcardPath names).namesUpTo
      ((table.wildcardPath names).length - 1) = names := by
    rw [Path.namesUpTo_last, sameNames]
  have hasRule : (table.keyNames? (ofNames ((table.wildcardPath names).namesUpTo
      ((table.wildcardPath names).length - 1)))).isSome := by
    rw [lastNames]
    exact (isSome_keyNames?_iff_of_ofSchema isBuilt).2
      ⟨id, isKeyed, samePath.symm⟩
  have hasKeys := (hasKeys_iff_of_resolve
    (table.resolve_flatten_wildcardPath names) isLast).2 hasRule
  have isLined := linesUp _ _ isLast hasKeys
  rw [lastNames] at isLined
  exact (exists_pathNames_eq_iff isBuilt isKeyed samePath.symm).1 isLined

/-- All resolved paths line up with the schema exactly if every keyed entry
stands right below its root under a name without slashes. -/
theorem forall_linesUp_iff :
    (∀ segments path, table.resolve segments = .ok path →
        path.LinesUp schema) ↔
      ∀ id ∈ schema.keyedIds,
        ∃ name, schema.pathNames id = [name] ∧ SlashFree name := by
  constructor
  · intro allLineUp id isKeyed
    have areNames {names : List String}
        (samePath : ofNames names = schema.structuralPath id) :
        schema.pathNames id = names :=
      pathNames_eq_of_linesUp isBuilt isKeyed samePath
        (allLineUp _ _ (table.resolve_flatten_wildcardPath names))
    -- The structural path can be taken for one name, and cut at every slash.
    obtain ⟨name, oneName⟩ :=
      exists_single_name (Schema.pathNames_ne_nil isKeyed)
    obtain ⟨parts, partsFree, allParts⟩ :=
      exists_slashFree_names (schema.pathNames id)
    have sameLists : [name] = parts :=
      (areNames oneName).symm.trans (areNames allParts)
    refine ⟨name, areNames oneName, partsFree name ?_⟩
    rw [← sameLists]
    exact List.mem_singleton_self name
  · intro isSingle segments path isResolved index element isElement hasKeys
    obtain ⟨id, isKeyed, samePath⟩ :=
      exists_keyed_of_hasKeys isBuilt isResolved isElement hasKeys
    obtain ⟨name, isName, nameFree⟩ := isSingle id isKeyed
    rw [Schema.structuralPath, isName] at samePath
    refine ⟨id, isKeyed, ?_⟩
    rw [isName, eq_singleton_of_ofNames_eq nameFree samePath.symm]

/-- The resolved paths without slashes in their names line up with the schema
exactly if no name on the way to a keyed entry holds a slash. -/
theorem forall_slashFree_linesUp_iff :
    (∀ segments path, table.resolve segments = .ok path →
        (∀ element ∈ path, SlashFree element.name) → path.LinesUp schema) ↔
      ∀ id ∈ schema.keyedIds, ∀ name ∈ schema.pathNames id,
        SlashFree name := by
  constructor
  · intro allLineUp id isKeyed
    -- The names cut at every slash lead to the same structural path.
    obtain ⟨parts, partsFree, allParts⟩ :=
      exists_slashFree_names (schema.pathNames id)
    have pathFree : ∀ element ∈ table.wildcardPath parts,
        SlashFree element.name := by
      intro element isMember
      have isPart : element.name ∈ parts := by
        rw [← table.map_name_wildcardPath parts]
        exact List.mem_map_of_mem isMember
      exact partsFree _ isPart
    have areParts := pathNames_eq_of_linesUp isBuilt isKeyed allParts
      (allLineUp _ _ (table.resolve_flatten_wildcardPath parts) pathFree)
    rw [areParts]
    exact partsFree
  · intro keyedFree segments path isResolved pathFree
      index element isElement hasKeys
    obtain ⟨id, isKeyed, samePath⟩ :=
      exists_keyed_of_hasKeys isBuilt isResolved isElement hasKeys
    have namesFree : ∀ name ∈ path.namesUpTo index, SlashFree name := by
      intro name isName
      obtain ⟨member, isTaken, rfl⟩ := List.mem_map.1 isName
      exact pathFree member (List.mem_of_mem_take isTaken)
    exact ⟨id, isKeyed,
      ofNames_injective (keyedFree id isKeyed) namesFree samePath⟩

/-- Each element with keys stands at the structural path of a keyed entry, and
lines up with the schema exactly if the names up to it are those of this entry.
Over all segments this is so exactly if every keyed entry stands right below its
root under a name without slashes, and over the segments that resolve to names
without slashes exactly if no name on the way to a keyed entry holds one. -/
theorem linesUp_iff :
    (∀ segments path, table.resolve segments = .ok path →
        ∀ index element, path[index]? = some element →
          element.hasKeys = true →
            ∃ id ∈ schema.keyedIds,
              schema.structuralPath id = ofNames (path.namesUpTo index) ∧
                ((∃ other ∈ schema.keyedIds,
                    schema.pathNames other = path.namesUpTo index) ↔
                  schema.pathNames id = path.namesUpTo index)) ∧
      ((∀ segments path, table.resolve segments = .ok path →
          path.LinesUp schema) ↔
        ∀ id ∈ schema.keyedIds,
          ∃ name, schema.pathNames id = [name] ∧ SlashFree name) ∧
      ((∀ segments path, table.resolve segments = .ok path →
          (∀ element ∈ path, SlashFree element.name) →
            path.LinesUp schema) ↔
        ∀ id ∈ schema.keyedIds, ∀ name ∈ schema.pathNames id,
          SlashFree name) := by
  refine ⟨?_, forall_linesUp_iff isBuilt, forall_slashFree_linesUp_iff isBuilt⟩
  intro segments path isResolved index element isElement hasKeys
  obtain ⟨id, isKeyed, samePath⟩ :=
    exists_keyed_of_hasKeys isBuilt isResolved isElement hasKeys
  exact ⟨id, isKeyed, samePath,
    exists_pathNames_eq_iff isBuilt isKeyed samePath⟩

end OfSchema

/-- A schema in which the name of a keyed list holds a slash. -/
def slashSchema : Schema :=
  (Schema.empty.addRoot "r").push (.child 0 "a/b" (some "k"))
    (by rintro _ ⟨⟩; decide)

def slashTable : RuleTable :=
  empty.insert "/a/b" ["k"] (by decide)

theorem slashTable_not_forall_linesUp :
    ofSchema slashSchema = .ok slashTable ∧
      ¬ ∀ segments path, slashTable.resolve segments = .ok path →
        (∀ element ∈ path, SlashFree element.name) →
          path.LinesUp slashSchema := by
  have isBuilt : ofSchema slashSchema = .ok slashTable := by decide +kernel
  refine ⟨isBuilt, fun allLineUp => ?_⟩
  have keyedFree := (linesUp_iff isBuilt).2.2.1 allLineUp
  have holdsSlash : ¬ SlashFree "a/b" := by decide
  exact holdsSlash
    (keyedFree 1 (by decide +kernel) "a/b" (by decide +kernel))

theorem not_linesUp_across_slash :
    ofSchema slashSchema = .ok slashTable ∧
      slashTable.resolve ["a", "b", "v"] =
        .ok [.ofName "a", .withKeys "b" [("k", "v")]] ∧
      ¬ Path.LinesUp slashSchema
        [.ofName "a", .withKeys "b" [("k", "v")]] := by
  refine ⟨by decide +kernel, by decide +kernel, fun linesUp => ?_⟩
  obtain ⟨id, isKeyed, sameNames⟩ :=
    linesUp 1 (.withKeys "b" [("k", "v")]) rfl rfl
  have noEntry : ∀ id ∈ slashSchema.keyedIds,
      slashSchema.pathNames id ≠ ["a", "b"] := by
    decide +kernel
  exact noEntry id isKeyed sameNames

end RuleTable

end KeyedPaths
