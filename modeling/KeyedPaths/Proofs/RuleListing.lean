import KeyedPaths.Proofs.Answers
import KeyedPaths.Proofs.ByteOrder
import KeyedPaths.Proofs.Words

/-!
# Listed rules

The list of all rules has a line for every rule.  If no name of a schema holds
white space, then the words of a line are the path and the key names of its
rule, so that the rules can be read back from the list.
-/

namespace KeyedPaths

open StructuralPath

/-- The lines of a text, with a line feed between any two of them.  A text
without characters has none. -/
def lines (text : String) : List String :=
  if text.isEmpty then [] else (text.toList.splitOn '\n').map .ofList

theorem mem_toList_intercalate {separator : String} {texts : List String}
    {char : Char} (isMember : char ∈ (separator.intercalate texts).toList) :
    char ∈ separator.toList ∨ ∃ text ∈ texts, char ∈ text.toList := by
  induction texts with
  | nil => simp at isMember
  | cons text texts ih =>
      cases texts with
      | nil =>
          rw [String.intercalate_singleton] at isMember
          exact .inr ⟨text, List.mem_cons_self, isMember⟩
      | cons next texts =>
          rw [String.intercalate_cons_cons, String.toList_append,
            String.toList_append, List.mem_append, List.mem_append] at isMember
          rcases isMember with (inText | inSeparator) | isLater
          · exact .inr ⟨text, List.mem_cons_self, inText⟩
          · exact .inl inSeparator
          · exact (ih isLater).imp_right fun ⟨other, isOther, inOther⟩ =>
              ⟨other, List.mem_cons_of_mem _ isOther, inOther⟩

theorem intercalate_eq_empty_iff {separator : String} {texts : List String}
    (nonempty : ∀ text ∈ texts, text ≠ "") :
    separator.intercalate texts = "" ↔ texts = [] := by
  cases texts with
  | nil => simp
  | cons text texts =>
      have isText := nonempty text List.mem_cons_self
      cases texts with
      | nil => simpa using isText
      | cons next texts => simp [isText]

/-- Lines that are put below each other can be told apart. -/
theorem lines_intercalate {texts : List String}
    (nonempty : ∀ text ∈ texts, text ≠ "")
    (unbroken : ∀ text ∈ texts, '\n' ∉ text.toList) :
    lines ("\n".intercalate texts) = texts := by
  cases texts with
  | nil => rfl
  | cons text texts =>
      have isText : ("\n".intercalate (text :: texts)).isEmpty = false := by
        rw [← Bool.not_eq_true, String.isEmpty_iff,
          intercalate_eq_empty_iff nonempty]
        exact List.cons_ne_nil _ _
      rw [lines, isText, if_neg Bool.false_ne_true, String.toList_intercalate]
      have isSplit : (['\n'].intercalate
          ((text :: texts).map String.toList)).splitOn '\n' =
            (text :: texts).map String.toList :=
        List.splitOn_intercalate '\n' (List.forall_mem_map.2 unbroken)
          (List.cons_ne_nil _ _)
      have sameTexts := congrArg (List.map String.ofList) isSplit
      simpa using sameTexts

namespace Schema

variable {schema : Schema} {id : Nat}

theorem isWord_of_mem_keyNames {keyName : String}
    (isListed : keyName ∈ schema.keyNames id) : IsWord keyName := by
  rw [keyNames] at isListed
  cases isEntry : schema.get? id with
  | none => simp [isEntry] at isListed
  | some entry =>
      rw [isEntry, Option.map_some, Option.getD_some, Entry.keyNames]
        at isListed
      split at isListed
      next => cases isListed
      next => exact isWord_of_mem_words isListed

/-- If names hold no white space, then the structural paths of all keyed entries
are words. -/
theorem isWord_structuralPath
    (unspaced : ∀ id entry, schema.get? id = some entry →
      ∀ char ∈ entry.name.toList, isWhiteSpace char = false)
    (isKeyed : schema.keyNames id ≠ []) :
    IsWord (schema.structuralPath id) := by
  obtain ⟨below, isBelow⟩ := exists_structuralPath_eq_slash_append isKeyed
  refine ⟨?_, fun char isMember => ?_⟩
  · simp [isBelow]
  · rw [structuralPath, toList_ofNames, nameChars, List.mem_flatMap] at isMember
    obtain ⟨name, isName, isChar⟩ := isMember
    rcases List.mem_cons.1 isChar with rfl | inName
    · rfl
    · obtain ⟨above, entry, isEntry, rfl⟩ :=
        exists_entry_of_mem_pathNames isName
      exact unspaced above entry isEntry char inName

end Schema

namespace CommandLine

open RuleTable

/-- The line that lists a rule. -/
def ruleLine (rule : String × List String) : String :=
  rule.1 ++ " " ++ " ".intercalate rule.2

/-- Looking up the listed paths gives the rules that the table holds. -/
theorem ruleLines_eq (table : RuleTable) :
    ruleLines table = "\n".intercalate (table.rules.bindings.map ruleLine) := by
  rw [ruleLines, paths, StringMap.keys, List.map_map]
  refine congrArg _ (List.map_congr_left fun rule isRule => ?_)
  have isFound : table.keyNames? rule.1 = some rule.2 :=
    StringMap.get?_eq_some_iff.2 isRule
  rw [Function.comp_apply, isFound]
  rfl

/-- A rule whose path and key names are words, with at least one key name. -/
structure IsListable (rule : String × List String) : Prop where
  isWord_path : IsWord rule.1
  keyNames_ne_nil : rule.2 ≠ []
  areWords : ∀ keyName ∈ rule.2, IsWord keyName

namespace IsListable

variable {rule : String × List String} (isListable : IsListable rule)

include isListable

theorem forall_isWord : ∀ word ∈ rule.1 :: rule.2, IsWord word :=
  List.forall_mem_cons.2 ⟨isListable.isWord_path, isListable.areWords⟩

theorem ruleLine_eq : ruleLine rule = " ".intercalate (rule.1 :: rule.2) :=
  (String.intercalate_cons_of_ne_nil isListable.keyNames_ne_nil).symm

theorem words_ruleLine : words (ruleLine rule) = rule.1 :: rule.2 := by
  rw [isListable.ruleLine_eq, words_intercalate isListable.forall_isWord]

theorem ruleLine_ne_empty : ruleLine rule ≠ "" := by
  intro isEmpty
  have noWords := isListable.words_ruleLine
  rw [isEmpty] at noWords
  cases noWords

theorem newline_notMem_ruleLine : '\n' ∉ (ruleLine rule).toList := by
  rw [isListable.ruleLine_eq]
  intro isMember
  rcases mem_toList_intercalate isMember with isSpace | ⟨word, isPart, isChar⟩
  · revert isSpace
    decide
  · have notBlank := (isListable.forall_isWord word isPart).2 _ isChar
    cases notBlank

end IsListable

/-- The words of the lines are the rules. -/
theorem map_words_lines_ruleLines {table : RuleTable}
    (areListable : ∀ rule ∈ table.rules.bindings, IsListable rule) :
    (lines (ruleLines table)).map words =
      table.rules.bindings.map fun rule => rule.1 :: rule.2 := by
  rw [ruleLines_eq, lines_intercalate, List.map_map]
  · exact List.map_congr_left fun rule isRule =>
      (areListable rule isRule).words_ruleLine
  · exact List.forall_mem_map.2 fun rule isRule =>
      (areListable rule isRule).ruleLine_ne_empty
  · exact List.forall_mem_map.2 fun rule isRule =>
      (areListable rule isRule).newline_notMem_ruleLine

theorem ruleLines_eq_empty_iff {table : RuleTable}
    (areListable : ∀ rule ∈ table.rules.bindings, IsListable rule) :
    ruleLines table = "" ↔ table.rules.bindings = [] := by
  rw [ruleLines_eq, intercalate_eq_empty_iff, List.map_eq_nil_iff]
  exact List.forall_mem_map.2 fun rule isRule =>
    (areListable rule isRule).ruleLine_ne_empty

section Listing

variable {schema : Schema} {table : RuleTable}
  (isBuilt : ofSchema schema = .ok table)

include isBuilt

theorem perm_map_keyedIds :
    table.rules.bindings.Perm (schema.keyedIds.map fun id =>
      (schema.structuralPath id, schema.keyNames id)) := by
  have isPermutation := perm_rules_of_build isBuilt
  rwa [Schema.rules_eq_map_keyedAmong, Schema.keyedAmong_ids]
    at isPermutation

theorem isListable_of_unspaced
    (unspaced : ∀ id entry, schema.get? id = some entry →
      ∀ char ∈ entry.name.toList, isWhiteSpace char = false) :
    ∀ rule ∈ table.rules.bindings, IsListable rule := by
  intro rule isRule
  rw [(perm_rules_of_build isBuilt).mem_iff,
    Schema.rules_eq_map_keyedAmong] at isRule
  obtain ⟨id, isListed, rfl⟩ := List.mem_map.1 isRule
  have isKeyed := (Schema.mem_keyedAmong.1 isListed).2
  exact ⟨Schema.isWord_structuralPath unspaced isKeyed, isKeyed,
    fun keyName => Schema.isWord_of_mem_keyNames⟩

end Listing

/-- Listing the rules loses nothing.  If no name of a schema with a table holds
white space, then every line of the list has the structural path of a rule and
behind it its key names as words.  The paths ascend strictly in the order of
their bytes; the rules are those of the table, which are those of the keyed
entries, one for each, with the key names of the entry.  The list is empty
exactly if no entry is keyed. -/
theorem rules_restored_from_listing {schema : Schema} {table : RuleTable}
    {options : Options} (isBuilt : ofSchema schema = .ok table)
    (unspaced : ∀ id entry, schema.get? id = some entry →
      ∀ char ∈ entry.name.toList, isWhiteSpace char = false)
    (isDump : options.dumpRules = true) :
    ∃ (text : String) (listed : List (String × List String)),
      answer options schema = .ok text ∧
      (lines text).map words = listed.map (fun rule => rule.1 :: rule.2) ∧
      listed.Pairwise
        (fun earlier later => utf8Bytes earlier.1 < utf8Bytes later.1) ∧
      (∀ path keyNames, (path, keyNames) ∈ listed ↔
        table.keyNames? path = some keyNames) ∧
      listed.Perm (schema.keyedIds.map fun id =>
        (schema.structuralPath id, schema.keyNames id)) ∧
      (text = "" ↔ schema.keyedIds = []) := by
  have areListable := isListable_of_unspaced isBuilt unspaced
  have isPermutation := perm_map_keyedIds isBuilt
  refine ⟨ruleLines table, table.rules.bindings, ?_,
    map_words_lines_ruleLines areListable, ?_, ?_, isPermutation, ?_⟩
  · rw [answer_of_table isBuilt, if_pos isDump]
  · exact table.rules.ascending.imp fun isLess => utf8Bytes_lt_iff.2 isLess
  · exact fun path keyNames => StringMap.get?_eq_some_iff.symm
  · rw [ruleLines_eq_empty_iff areListable, ← List.length_eq_zero_iff,
      isPermutation.length_eq, List.length_map, List.length_eq_zero_iff]

/-- Keyed lists whose paths are not in the order of their numbers, one of them
with an empty name and one with a key name that is listed twice. -/
def trackSchema : Schema :=
  ((((Schema.empty.addRoot "r").push (.child 0 "track" (some " n  mix\tn "))
      (by rintro _ ⟨⟩; decide)).push (.child 1 "" (some "cue"))
      (by rintro _ ⟨⟩; decide)).push (.child 0 "disc" none)
      (by rintro _ ⟨⟩; decide)).push (.child 3 "é" (some "side"))
      (by rintro _ ⟨⟩; decide)

def trackTable : RuleTable :=
  ((RuleTable.empty.insert "/track" ["n", "mix", "n"] (by decide)).insert
    "/track/" ["cue"] (by decide)).insert "/disc/é" ["side"] (by decide)

theorem trackSchema_listing :
    ofSchema trackSchema = .ok trackTable ∧
      (∀ id entry, trackSchema.get? id = some entry →
        ∀ char ∈ entry.name.toList, isWhiteSpace char = false) ∧
      ∃ (text : String) (listed : List (String × List String)),
        text = "/disc/é side\n/track n mix n\n/track/ cue" ∧
        (lines text).map words = listed.map (fun rule => rule.1 :: rule.2) ∧
        ("/track", ["n", "mix", "n"]) ∈ listed ∧ listed.length = 3 := by
  have isBuilt : ofSchema trackSchema = .ok trackTable := by decide +kernel
  have listedUnspaced : ∀ entry ∈ trackSchema.entries,
      entry.name.toList.any isWhiteSpace = false := by decide +kernel
  have unspaced : ∀ id entry, trackSchema.get? id = some entry →
      ∀ char ∈ entry.name.toList, isWhiteSpace char = false := by
    intro id entry isEntry char isChar
    have noneBlank := listedUnspaced entry (Array.mem_of_getElem? isEntry)
    exact Bool.eq_false_iff.2 (List.any_eq_false.1 noneBlank char isChar)
  have isText : (answer { starOptions with dumpRules := true }
      trackSchema).toOption =
        some "/disc/é side\n/track n mix n\n/track/ cue" := by
    decide +kernel
  obtain ⟨text, listed, isAnswer, areWords, -, areRules, isPermutation, -⟩ :=
    rules_restored_from_listing isBuilt unspaced
      (rfl : { starOptions with dumpRules := true }.dumpRules = true)
  rw [isAnswer] at isText
  refine ⟨isBuilt, unspaced, text, listed, Option.some.inj isText, areWords,
    (areRules _ _).2 (by decide +kernel), ?_⟩
  rw [isPermutation.length_eq, List.length_map]
  decide +kernel

end CommandLine

end KeyedPaths
