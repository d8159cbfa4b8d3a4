import Mathlib.Control.Monad.Basic
import KeyedPaths.Proofs.EntryRules
import KeyedPaths.Proofs.SegmentBlocks

/-!
# Matching lists of names

The walks along a path find keyed lists by the text of the names passed so far.
Here the same walks keep the list of these names and look for the keyed entry
with exactly this list of names below its root.  Where no name holds a slash,
both ways of matching give the same results, errors included.
-/

namespace KeyedPaths

open StructuralPath

namespace Schema

/-- The key names of the keyed entry that has the given names from just below
its root down to it. -/
def matchNames? (schema : Schema) (names : List String) :
    Option (List String) :=
  (schema.keyedIds.find? fun id => schema.pathNames id = names).bind fun id =>
    (schema.get? id).map Entry.keyNames

def resolveByNames (schema : Schema) (passed : List String) :
    List String → Except InsufficientKeys Path
  | [] => .ok []
  | name :: rest =>
      match schema.matchNames? (passed ++ [name]) with
      | none => do
          let later ← schema.resolveByNames (passed ++ [name]) rest
          return .ofName name :: later
      | some keyNames =>
          if rest.length < keyNames.length then
            .error ⟨rest.length, keyNames.length, ofNames (passed ++ [name])⟩
          else do
            let later ← schema.resolveByNames (passed ++ [name])
              (rest.drop keyNames.length)
            return .withKeys name (keyNames.zip rest) :: later
termination_by segments => segments.length
decreasing_by
  · exact Nat.lt_succ_self _
  · exact Nat.lt_succ_of_le (List.length_drop ▸ Nat.sub_le _ _)

def annotateByNames (schema : Schema) (passed : List String)
    (changed : Bool) : Path → Annotated
  | [] => ⟨[], .ok changed⟩
  | element :: rest =>
      match schema.matchNames? (passed ++ [element.name]) with
      | none =>
          let later :=
            schema.annotateByNames (passed ++ [element.name]) changed rest
          ⟨element :: later.path, later.outcome⟩
      | some keyNames =>
          if element.hasKeys then
            ⟨element :: rest, .error ⟨ofNames (passed ++ [element.name])⟩⟩
          else
            let later :=
              schema.annotateByNames (passed ++ [element.name]) true rest
            ⟨RuleTable.wildcardElement element.name keyNames :: later.path,
              later.outcome⟩

def flattenByNames (schema : Schema) (passed : List String) :
    Path → List String
  | [] => []
  | element :: rest =>
      let values :=
        match schema.matchNames? (passed ++ [element.name]) with
        | none => element.keys.values
        | some keyNames =>
            keyNames.filterMap element.keys.get? ++
              (element.keys.bindings.filter fun binding =>
                !keyNames.contains binding.1).map Prod.snd
      element.name ::
        (values ++ schema.flattenByNames (passed ++ [element.name]) rest)

variable {schema : Schema}

theorem exists_rule?_of_matchNames? {names keyNames : List String}
    (isMatch : schema.matchNames? names = some keyNames) :
    ∃ id, schema.rule? id = some (ofNames names, keyNames) := by
  obtain ⟨id, isFound, isNamed⟩ := Option.bind_eq_some_iff.1 isMatch
  obtain ⟨entry, isEntry, rfl⟩ := Option.map_eq_some_iff.1 isNamed
  obtain ⟨other, isOther, isRule⟩ :=
    exists_rule?_of_mem_keyedIds (List.mem_of_find?_eq_some isFound)
  have sameNames : schema.pathNames id = names := by
    simpa using List.find?_some isFound
  cases isEntry.symm.trans isOther
  rw [structuralPath, sameNames] at isRule
  exact ⟨id, isRule⟩

theorem matchNames?_isSome {id : Nat} (isKeyed : id ∈ schema.keyedIds) :
    (schema.matchNames? (schema.pathNames id)).isSome := by
  have isFound : (schema.keyedIds.find? fun other =>
      schema.pathNames other = schema.pathNames id).isSome :=
    List.find?_isSome.2 ⟨id, isKeyed, decide_eq_true rfl⟩
  obtain ⟨other, isOther⟩ := Option.isSome_iff_exists.1 isFound
  obtain ⟨entry, isEntry, -⟩ :=
    mem_keyedIds.1 (List.mem_of_find?_eq_some isOther)
  rw [matchNames?, isOther, Option.bind_some, isEntry]
  rfl

theorem slashFree_pathNames
    (entriesFree : ∀ id entry,
      schema.get? id = some entry → SlashFree entry.name) {id : Nat} :
    ∀ name ∈ schema.pathNames id, SlashFree name := by
  intro name isMember
  obtain ⟨above, entry, isEntry, rfl⟩ := exists_entry_of_mem_pathNames isMember
  exact entriesFree above entry isEntry

end Schema

namespace RuleTable

/-- The elements that annotating reaches: it goes no further than to the first
keyed list that has keys. -/
def reachedBelow (table : RuleTable) (path : String) : Path → Path
  | [] => []
  | element :: rest =>
      element ::
        if (table.keyNames? (extend path element.name)).isSome &&
            element.hasKeys then []
        else table.reachedBelow (extend path element.name) rest

def reached (table : RuleTable) (path : Path) : Path :=
  table.reachedBelow "" path

section Matching

variable {schema : Schema} {table : RuleTable}
  (isBuilt : ofSchema schema = .ok table)
  (entriesFree : ∀ id entry,
    schema.get? id = some entry → SlashFree entry.name)

include isBuilt entriesFree

/-- The rule at the text of names without slashes is that of the keyed entry
with these names. -/
theorem keyNames?_ofNames {names : List String}
    (namesFree : ∀ name ∈ names, SlashFree name) :
    table.keyNames? (ofNames names) = schema.matchNames? names := by
  cases isMatch : schema.matchNames? names with
  | some keyNames =>
      exact (keyNames?_eq_some_iff_of_ofSchema isBuilt).2
        (Schema.exists_rule?_of_matchNames? isMatch)
  | none =>
      rw [Option.eq_none_iff_forall_ne_some]
      intro keyNames isRule
      obtain ⟨id, isEntryRule⟩ :=
        (keyNames?_eq_some_iff_of_ofSchema isBuilt).1 isRule
      obtain ⟨isKeyed, samePath⟩ := Schema.mem_keyedIds_of_rule? isEntryRule
      have sameNames : schema.pathNames id = names :=
        ofNames_injective (Schema.slashFree_pathNames entriesFree) namesFree
          samePath
      have isSome := Schema.matchNames?_isSome isKeyed
      rw [sameNames, isMatch] at isSome
      cases isSome

theorem keyNames?_extend {passed : List String} {name : String}
    (passedFree : ∀ name ∈ passed, SlashFree name)
    (nameFree : SlashFree name) :
    table.keyNames? (extend (ofNames passed) name) =
      schema.matchNames? (passed ++ [name]) := by
  rw [← ofNames_append_singleton]
  exact keyNames?_ofNames isBuilt entriesFree
    (slashFree_append_singleton passedFree nameFree)

theorem resolveBelow_eq_resolveByNames {passed segments : List String}
    (passedFree : ∀ name ∈ passed, SlashFree name)
    (takenFree : ∀ block ∈ table.blocksBelow (ofNames passed) segments,
      SlashFree block.name) :
    table.resolveBelow (ofNames passed) segments =
      schema.resolveByNames passed segments := by
  fun_induction Schema.resolveByNames schema passed segments with
  | case1 passed => rw [resolveBelow]
  | case2 passed name rest noMatch ih =>
      rw [blocksBelow, List.forall_mem_cons] at takenFree
      obtain ⟨nameFree, laterFree⟩ := takenFree
      have noRule := keyNames?_extend isBuilt entriesFree passedFree nameFree
      rw [noMatch] at noRule
      rw [keyNamesAt_of_none table noRule, List.length_nil, List.drop_zero,
        ← ofNames_append_singleton] at laterFree
      have sameLater :=
        ih (slashFree_append_singleton passedFree nameFree) laterFree
      rw [resolveBelow]
      simp only [noRule]
      rw [← ofNames_append_singleton, sameLater]
  | case3 passed name rest keyNames isMatch isShort =>
      rw [blocksBelow, List.forall_mem_cons] at takenFree
      have isRule :=
        keyNames?_extend isBuilt entriesFree passedFree takenFree.1
      rw [isMatch] at isRule
      rw [resolveBelow]
      simp only [isRule]
      rw [if_pos isShort, ofNames_append_singleton]
  | case4 passed name rest keyNames isMatch isLong ih =>
      rw [blocksBelow, List.forall_mem_cons] at takenFree
      obtain ⟨nameFree, laterFree⟩ := takenFree
      have isRule := keyNames?_extend isBuilt entriesFree passedFree nameFree
      rw [isMatch] at isRule
      rw [keyNamesAt_of_some table isRule, ← ofNames_append_singleton]
        at laterFree
      have sameLater :=
        ih (slashFree_append_singleton passedFree nameFree) laterFree
      rw [resolveBelow]
      simp only [isRule]
      rw [if_neg isLong, ← ofNames_append_singleton, sameLater]

theorem annotateBelow_eq_annotateByNames {passed : List String}
    {changed : Bool} {path : Path}
    (passedFree : ∀ name ∈ passed, SlashFree name)
    (reachedFree : ∀ element ∈ table.reachedBelow (ofNames passed) path,
      SlashFree element.name) :
    table.annotateBelow (ofNames passed) changed path =
      schema.annotateByNames passed changed path := by
  induction path generalizing passed changed with
  | nil => rfl
  | cons element rest ih =>
      rw [reachedBelow, List.forall_mem_cons] at reachedFree
      obtain ⟨elementFree, laterFree⟩ := reachedFree
      have sameRule :=
        keyNames?_extend isBuilt entriesFree passedFree elementFree
      have laterPassed :=
        slashFree_append_singleton passedFree elementFree
      rw [annotateBelow, Schema.annotateByNames]
      cases isRule : table.keyNames? (extend (ofNames passed) element.name) with
      | none =>
          rw [isRule] at sameRule laterFree
          have sameLater : table.annotateBelow
                (ofNames (passed ++ [element.name])) changed rest =
              schema.annotateByNames (passed ++ [element.name]) changed rest :=
            ih laterPassed (by simpa using laterFree)
          simp only [← sameRule]
          rw [← sameLater, ofNames_append_singleton]
      | some keyNames =>
          rw [isRule] at sameRule laterFree
          simp only [← sameRule]
          cases isKeyed : element.hasKeys with
          -- Annotating ends here, whatever the names behind this element are.
          | true => simp
          | false =>
              rw [isKeyed] at laterFree
              have sameLater : table.annotateBelow
                    (ofNames (passed ++ [element.name])) true rest =
                  schema.annotateByNames (passed ++ [element.name]) true
                    rest :=
                ih laterPassed (by simpa using laterFree)
              rw [← sameLater, ofNames_append_singleton]

theorem flattenBelow_eq_flattenByNames {passed : List String} {path : Path}
    (passedFree : ∀ name ∈ passed, SlashFree name)
    (pathFree : ∀ element ∈ path, SlashFree element.name) :
    table.flattenBelow (ofNames passed) path =
      schema.flattenByNames passed path := by
  induction path generalizing passed with
  | nil => rfl
  | cons element rest ih =>
      obtain ⟨elementFree, laterFree⟩ := List.forall_mem_cons.1 pathFree
      have sameLater :=
        ih (slashFree_append_singleton passedFree elementFree) laterFree
      have sameRule :=
        keyNames?_extend isBuilt entriesFree passedFree elementFree
      rw [flattenBelow, Schema.flattenByNames, ← sameLater, keyValues,
        ofNames_append_singleton]
      cases isMatch : schema.matchNames? (passed ++ [element.name]) with
      | none =>
          rw [isMatch] at sameRule
          simp only [sameRule]
      | some keyNames =>
          rw [isMatch] at sameRule
          simp only [sameRule]

/-- If no name of the schema holds a slash, the rules found by text are those
found by lists of names: each keyed entry is found at its own names, and the
three walks give the same results for all inputs in which no name that they
reach holds a slash.  Key values may hold anything. -/
theorem matching_names_refines :
    (∀ id ∈ schema.keyedIds,
        schema.matchNames? (schema.pathNames id) =
          (schema.get? id).map Entry.keyNames) ∧
      (∀ segments, (∀ block ∈ table.blocks segments, SlashFree block.name) →
        table.resolve segments = schema.resolveByNames [] segments) ∧
      (∀ path, (∀ element ∈ table.reached path, SlashFree element.name) →
        table.annotate path = schema.annotateByNames [] false path) ∧
      ∀ path : Path, (∀ element ∈ path, SlashFree element.name) →
        table.flatten path = schema.flattenByNames [] path := by
  have noneFree : ∀ name ∈ ([] : List String), SlashFree name := by simp
  refine ⟨fun id isKeyed => ?_, fun segments takenFree => ?_,
    fun path reachedFree => ?_, fun path pathFree => ?_⟩
  · obtain ⟨entry, isEntry, isRule⟩ :=
      Schema.exists_rule?_of_mem_keyedIds isKeyed
    rw [isEntry, Option.map_some, ← keyNames?_ofNames isBuilt entriesFree
      (Schema.slashFree_pathNames entriesFree)]
    exact (keyNames?_eq_some_iff_of_ofSchema isBuilt).2 ⟨id, isRule⟩
  · exact resolveBelow_eq_resolveByNames isBuilt entriesFree noneFree takenFree
  · exact annotateBelow_eq_annotateByNames isBuilt entriesFree noneFree
      reachedFree
  · exact flattenBelow_eq_flattenByNames isBuilt entriesFree noneFree pathFree

end Matching

/-- Two roots with keyed lists of one name, one of them below an empty name. -/
def plainSchema : Schema :=
  ((((Schema.empty.addRoot "first").push (.child 0 "list" (some "id k"))
      (by rintro _ ⟨⟩; decide)).addRoot "second").push (.child 2 "" none)
      (by rintro _ ⟨⟩; decide)).push (.child 3 "list" (some "name"))
      (by rintro _ ⟨⟩; decide)

def plainTable : RuleTable :=
  (empty.insert "/list" ["id", "k"] (by decide)).insert "//list" ["name"]
    (by decide)

theorem plainTable_matching :
    ofSchema plainSchema = .ok plainTable ∧
      (∀ id entry, plainSchema.get? id = some entry →
        SlashFree entry.name) ∧
      plainTable.resolve ["list", "a/b", "/", "x"] =
        plainSchema.resolveByNames []
          ["list", "a/b", "/", "x"] ∧
      plainTable.resolve ["", "list"] =
        plainSchema.resolveByNames [] ["", "list"] ∧
      plainTable.annotate [.ofName "", .withKeys "list" [("name", "/")]] =
        plainSchema.annotateByNames [] false
          [.ofName "", .withKeys "list" [("name", "/")]] ∧
      plainTable.flatten [.withKeys "list" [("k", "/"), ("x", "a/b")]] =
        plainSchema.flattenByNames []
          [.withKeys "list" [("k", "/"), ("x", "a/b")]] := by
  have isBuilt : ofSchema plainSchema = .ok plainTable := by decide +kernel
  have listedFree : ∀ entry ∈ plainSchema.entries, SlashFree entry.name := by
    decide +kernel
  have entriesFree : ∀ id entry,
      plainSchema.get? id = some entry → SlashFree entry.name := by
    intro id entry isEntry
    exact listedFree entry (Array.mem_of_getElem? isEntry)
  obtain ⟨-, sameResolved, sameAnnotated, sameFlattened⟩ :=
    matching_names_refines isBuilt entriesFree
  exact ⟨isBuilt, entriesFree, sameResolved _ (by decide +kernel),
    sameResolved _ (by decide +kernel), sameAnnotated _ (by decide +kernel),
    sameFlattened _ (by decide +kernel)⟩

end RuleTable

end KeyedPaths
