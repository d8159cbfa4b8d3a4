import KeyedPaths.Proofs.EntryPaths
import KeyedPaths.Proofs.Words

/-!
# Key specifications

An entry is keyed if its key specification holds anything but white space.  These
are the entries that have a key name, and those in whose specification a first
word is found.
-/

namespace KeyedPaths

namespace Entry

theorem isKeyed_iff {entry : Entry} :
    entry.isKeyed = true ↔ entry.keyNames ≠ [] := by
  unfold isKeyed keyNames
  cases entry.key? with
  | none => simp
  | some specification =>
      simp only [ne_eq, words_eq_nil_iff, IsBlank, List.any_eq_true]
      simp

section Specification

variable {entry : Entry} {specification : String}
  (isSpecified : entry.key? = some specification)

include isSpecified

theorem keyNames_eq_words : entry.keyNames = words specification := by
  rw [keyNames, isSpecified]

/-- One word of a specification is enough to make an entry keyed, and the first
one is found without a look at the others. -/
theorem isKeyed_eq_isSome_firstWord? :
    entry.isKeyed = (firstWord? specification).isSome := by
  rw [Bool.eq_iff_iff, isKeyed_iff, keyNames_eq_words isSpecified,
    ← head?_words, List.isSome_head?]

end Specification

end Entry

namespace Schema

variable {schema : Schema} {id : Nat}

theorem mem_ids : id ∈ schema.ids ↔ id < schema.size := by
  rw [ids, List.mem_range]

theorem mem_ids_of_get? {entry : Entry}
    (isEntry : schema.get? id = some entry) : id ∈ schema.ids :=
  mem_ids.2 (lt_size_of_get? isEntry)

/-- The keyed entries are those with a key name. -/
theorem mem_keyedIds :
    id ∈ schema.keyedIds ↔
      ∃ entry, schema.get? id = some entry ∧ entry.keyNames ≠ [] := by
  rw [keyedIds, List.mem_filter, Option.any_eq_true]
  constructor
  · rintro ⟨-, entry, isEntry, isKeyed⟩
    exact ⟨entry, isEntry, Entry.isKeyed_iff.1 isKeyed⟩
  · rintro ⟨entry, isEntry, isKeyed⟩
    exact ⟨mem_ids_of_get? isEntry, entry, isEntry,
      Entry.isKeyed_iff.2 isKeyed⟩

end Schema

end KeyedPaths
