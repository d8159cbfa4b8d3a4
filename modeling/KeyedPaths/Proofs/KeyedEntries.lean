import KeyedPaths.Proofs.Growth
import KeyedPaths.Proofs.ListedEntries

/-!
# Keyed entries

A key specification is made of the key names with white space between and around
them, and of no other names.  An entry with a key name is keyed; for this it is
enough that its specification has a first word.

Entries that are not keyed have no rule and are never at fault.  The keyed entries
of a schema therefore make the same table as all its entries, and if they make
none, both constructions fail with the same error.
-/

namespace KeyedPaths

namespace RuleTable

variable {schema : Schema} {ids : List Nat} {id : Nat}

theorem addEntry_of_keyNames_eq_nil (inUse : id < schema.size)
    (noNames : schema.keyNames id = []) (table : RuleTable) :
    addEntry schema table id = .ok table := by
  obtain ⟨entry, isEntry⟩ := Schema.exists_get?_of_lt inUse
  rw [Schema.keyNames, isEntry, Option.map_some, Option.getD_some] at noNames
  rw [addEntry, isEntry]
  exact dif_neg (not_not.2 noNames)

/-- Entries that are not keyed can be left out of a list. -/
theorem build_keyedAmong (inUse : ∀ id ∈ ids, id < schema.size) :
    build schema (schema.keyedAmong ids) = build schema ids := by
  refine foldlM_filter_of_idle fun id isListed isLeftOut => ?_
  have noNames : schema.keyNames id = [] :=
    not_not.1 (of_decide_eq_false isLeftOut)
  exact addEntry_of_keyNames_eq_nil (inUse id isListed) noNames

theorem ofSchema_eq_build_keyedIds (schema : Schema) :
    ofSchema schema = build schema schema.keyedIds := by
  rw [ofSchema, ← Schema.keyedAmong_ids,
    build_keyedAmong fun _ => Schema.mem_ids.1]

/-- Names that are spaced out in a key specification are the key names, and every
specification spaces out exactly one list of names.  An entry is keyed if this
list is not empty, which shows in the first word of the specification.  Without a
specification it has no key names and is not keyed.  The keyed entries of a schema
make the same table as all its entries, or fail in the same way. -/
theorem keyed_by_specification :
    (∀ (entry : Entry) (specification : String),
        entry.key? = some specification →
        (∀ names : List String, (∀ name ∈ names, IsWord name) →
            SpacedOut names specification →
            entry.keyNames = names ∧ (entry.isKeyed = true ↔ names ≠ [])) ∧
          (∃! names : List String, (∀ name ∈ names, IsWord name) ∧
            SpacedOut names specification) ∧
          entry.isKeyed = (firstWord? specification).isSome) ∧
      (∀ entry : Entry, entry.key? = none →
        entry.keyNames = [] ∧ entry.isKeyed = false) ∧
      ∀ schema : Schema,
        ofSchema schema = build schema schema.keyedIds := by
  refine ⟨fun entry specification isSpecified => ⟨?_, ?_, ?_⟩,
    fun entry unspecified => ?_, ofSchema_eq_build_keyedIds⟩
  · intro names areWords isSpaced
    have sameNames : entry.keyNames = names := by
      rw [Entry.keyNames_eq_words isSpecified,
        words_of_spacedOut areWords isSpaced]
    exact ⟨sameNames, sameNames ▸ Entry.isKeyed_iff⟩
  · refine ⟨words specification, words_eq_iff.1 rfl, ?_⟩
    intro names areSpaced
    exact (words_eq_iff.2 areSpaced).symm
  · exact Entry.isKeyed_eq_isSome_firstWord? isSpecified
  · rw [Entry.keyNames, Entry.isKeyed, unspecified]
    exact ⟨rfl, rfl⟩

/-- A keyed entry that lists a key name twice, with several kinds of white
space. -/
def rowEntry : Entry :=
  .child 0 "row" (some "\u3000id\tk \n id\u00a0")

/-- Two keyed entries at one structural path, and between them one whose
specification is blank. -/
def rowSchema : Schema :=
  Schema.empty.addAll [.root "r", .child 0 "row" rowEntry.key?,
    .child 0 "gap" (some " \u2003"), .child 0 "row" (some "k")]

theorem rowSchema_keyed_by_specification :
    SpacedOut ["id", "k", "id"] "\u3000id\tk \n id\u00a0" ∧
      rowEntry.keyNames = ["id", "k", "id"] ∧ rowEntry.isKeyed = true ∧
      (Entry.child 0 "gap" (some " \u2003")).isKeyed = false ∧
      (Entry.root "r").isKeyed = false ∧
      ofSchema rowSchema = build rowSchema [1, 3] ∧
      build rowSchema [1, 3] = .error (.duplicatePath "/row") := by
  obtain ⟨ofSpecified, ofUnspecified, sameTable⟩ := keyed_by_specification
  have areWords : ∀ name ∈ ["id", "k", "id"], IsWord name := by
    have isListed : words "id k id" = ["id", "k", "id"] := by decide +kernel
    rw [← isListed]
    exact fun _ => isWord_of_mem_words
  have isSpaced : SpacedOut ["id", "k", "id"] "\u3000id\tk \n id\u00a0" := by
    refine ⟨"\u3000", "id" ++ "\t" ++ ("k" ++ " \n " ++ "id"), "\u00a0",
      by decide +kernel, ?_, by decide +kernel, by decide +kernel⟩
    exact .cons "id" (by decide +kernel) (by decide +kernel)
      (.cons "k" (by decide +kernel) (by decide +kernel) (.single "id"))
  obtain ⟨areKeyNames, isKeyedIff⟩ :=
    (ofSpecified rowEntry _ rfl).1 _ areWords isSpaced
  have isUnkeyed := (ofSpecified (.child 0 "gap" (some " \u2003")) _ rfl).2.2
  have areKeyed : rowSchema.keyedIds = [1, 3] := by decide +kernel
  refine ⟨isSpaced, areKeyNames, isKeyedIff.2 (List.cons_ne_nil _ _),
    isUnkeyed.trans (by decide +kernel), (ofUnspecified (.root "r") rfl).2,
    areKeyed ▸ sameTable rowSchema, by decide +kernel⟩

end RuleTable

end KeyedPaths
