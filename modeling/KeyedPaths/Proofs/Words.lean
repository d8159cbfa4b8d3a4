import KeyedPaths.WhiteSpace

/-!
# Words between white space

Every word of a text has a character, and none of its characters is white space.
Words that are written one after the other with white space between them are the
words of the text that they make, whatever white space stands around them.  Every
text is made of words in this way, and of no others than its own.
-/

namespace KeyedPaths

/-- Some characters, none of which is white space. -/
def IsWord (text : String) : Prop :=
  text ≠ "" ∧ ∀ char ∈ text.toList, isWhiteSpace char = false
deriving Decidable

/-- White space alone, or nothing. -/
def IsBlank (text : String) : Prop :=
  ∀ char ∈ text.toList, isWhiteSpace char = true

instance (text : String) : Decidable (IsBlank text) :=
  decidable_of_iff (text.toList.all isWhiteSpace = true) List.all_eq_true

/-- Some names in their order make a text, with white space between any two of
them and nothing around them. -/
inductive Joined : List String → String → Prop where
  | empty : Joined [] ""
  | single (name : String) : Joined [name] name
  | cons (name : String) {next gap rest : String} {later : List String}
      (isBlank : IsBlank gap) (isGap : gap ≠ "")
      (laterJoined : Joined (next :: later) rest) :
      Joined (name :: next :: later) (name ++ gap ++ rest)

/-- Some names in their order make a text, with white space between any two of
them and, as it may be, in front of the first and behind the last. -/
def SpacedOut (names : List String) (text : String) : Prop :=
  ∃ before body after, IsBlank before ∧ Joined names body ∧ IsBlank after ∧
    text = before ++ body ++ after

/-- The first word of a text.  What is behind it is not read. -/
def firstWord? (text : String) : Option String :=
  let chars := (text.toList.dropWhile isWhiteSpace).takeWhile
    fun char => !isWhiteSpace char
  if chars.isEmpty then none else some (.ofList chars)

section Reading

variable {collected chars rest : List Char} {char : Char}

theorem wordsAfter_append (noneBlank : ∀ char ∈ chars,
    isWhiteSpace char = false) :
    wordsAfter collected (chars ++ rest) =
      wordsAfter (chars.reverse ++ collected) rest := by
  induction chars generalizing collected with
  | nil => rfl
  | cons char chars ih =>
      obtain ⟨notBlank, laterNotBlank⟩ := List.forall_mem_cons.1 noneBlank
      rw [List.cons_append, wordsAfter, notBlank, if_neg Bool.false_ne_true,
        ih laterNotBlank, List.reverse_cons, List.append_assoc,
        List.singleton_append]

theorem closeWord_reverse {word : String} (isWord : IsWord word)
    (laterWords : List String) :
    closeWord (word.toList.reverse ++ []) laterWords = word :: laterWords := by
  have someChars : (word.toList.reverse ++ []).isEmpty = false := by
    simpa using isWord.1
  rw [closeWord, someChars, if_neg Bool.false_ne_true, List.append_nil,
    List.reverse_reverse, String.ofList_toList]

theorem words_word {word : String} (isWord : IsWord word) :
    words word = [word] := by
  rw [words, ← List.append_nil word.toList, wordsAfter_append isWord.2,
    wordsAfter, closeWord_reverse isWord]

theorem closeWord_append (collected : List Char)
    (laterWords furtherWords : List String) :
    closeWord collected (laterWords ++ furtherWords) =
      closeWord collected laterWords ++ furtherWords := by
  cases collected with
  | nil => rfl
  | cons char collected => rfl

/-- What stands in front of white space and what stands behind it are read
apart. -/
theorem wordsAfter_append_blank (isBlank : isWhiteSpace char = true) :
    wordsAfter collected (chars ++ char :: rest) =
      wordsAfter collected chars ++ wordsAfter [] rest := by
  induction chars generalizing collected with
  | nil =>
      rw [List.nil_append, wordsAfter, wordsAfter, if_pos isBlank,
        ← closeWord_append, List.nil_append]
  | cons first chars ih =>
      rw [List.cons_append, wordsAfter, wordsAfter]
      split
      next => rw [ih, closeWord_append]
      next => exact ih

theorem wordsAfter_blanks_append
    (areBlank : ∀ char ∈ chars, isWhiteSpace char = true) :
    wordsAfter [] (chars ++ rest) = wordsAfter [] rest := by
  induction chars with
  | nil => rfl
  | cons char chars ih =>
      obtain ⟨isBlank, laterBlank⟩ := List.forall_mem_cons.1 areBlank
      rw [List.cons_append, ← List.nil_append (char :: (chars ++ rest)),
        wordsAfter_append_blank isBlank, ih laterBlank]
      rfl

/-- A word already begun is the first one, together with the characters up to
the next white space. -/
theorem head?_wordsAfter_of_ne_nil (isBegun : collected ≠ []) :
    (wordsAfter collected rest).head? =
      some (.ofList (collected.reverse ++
        rest.takeWhile fun char => !isWhiteSpace char)) := by
  induction rest generalizing collected with
  | nil => simp [wordsAfter, closeWord, isBegun]
  | cons char rest ih =>
      rw [wordsAfter, List.takeWhile_cons]
      cases isWhiteSpace char with
      | true => simp [closeWord, isBegun]
      | false => simp [ih]

theorem isWord_of_mem_closeWord {word : String} {laterWords : List String}
    (noneBlank : ∀ char ∈ collected, isWhiteSpace char = false)
    (laterAreWords : ∀ later ∈ laterWords, IsWord later)
    (isMember : word ∈ closeWord collected laterWords) : IsWord word := by
  rw [closeWord] at isMember
  split at isMember
  next => exact laterAreWords word isMember
  next someChars =>
    rcases List.mem_cons.1 isMember with rfl | isLater
    · constructor
      · simpa [← String.toList_inj] using someChars
      · simpa using noneBlank
    · exact laterAreWords word isLater

theorem isWord_of_mem_wordsAfter {word : String}
    (noneBlank : ∀ char ∈ collected, isWhiteSpace char = false)
    (isMember : word ∈ wordsAfter collected rest) : IsWord word := by
  induction rest generalizing collected word with
  | nil => exact isWord_of_mem_closeWord noneBlank (by simp) isMember
  | cons char rest ih =>
      rw [wordsAfter] at isMember
      split at isMember
      next =>
        exact isWord_of_mem_closeWord noneBlank
          (fun later => ih (List.forall_mem_nil _)) isMember
      next notBlank =>
        refine ih (List.forall_mem_cons.2 ⟨?_, noneBlank⟩) isMember
        exact eq_false_of_ne_true notBlank

end Reading

theorem isWord_of_mem_words {text word : String}
    (isMember : word ∈ words text) : IsWord word :=
  isWord_of_mem_wordsAfter (List.forall_mem_nil _) isMember

section Spacing

variable {names : List String} {text first second gap : String}

theorem words_blank_append (isBlank : IsBlank gap) :
    words (gap ++ text) = words text := by
  rw [words, String.toList_append, wordsAfter_blanks_append isBlank, words]

theorem words_append_gap (isBlank : IsBlank gap) (isGap : gap ≠ "") :
    words (first ++ gap ++ second) = words first ++ words second := by
  obtain ⟨char, chars, isSplit⟩ := List.exists_cons_of_ne_nil
    (mt String.toList_eq_nil_iff.1 isGap)
  rw [IsBlank, isSplit, List.forall_mem_cons] at isBlank
  rw [words, String.toList_append, String.toList_append, isSplit,
    List.append_assoc, List.cons_append, wordsAfter_append_blank isBlank.1,
    wordsAfter_blanks_append isBlank.2, words, words]

theorem words_append_blank (isBlank : IsBlank gap) :
    words (text ++ gap) = words text := by
  by_cases isGap : gap = ""
  · rw [isGap, String.append_empty]
  · have noneBehind := @words_append_gap text "" gap isBlank isGap
    rwa [String.append_empty, show words "" = [] from rfl, List.append_nil]
      at noneBehind

/-- The first of all words can be found without reading the others. -/
theorem head?_words (text : String) : (words text).head? = firstWord? text := by
  rw [words, firstWord?]
  induction text.toList with
  | nil => rfl
  | cons char rest ih =>
      rw [wordsAfter, List.dropWhile_cons]
      cases isBlank : isWhiteSpace char with
      | true => exact ih
      | false => simp [head?_wordsAfter_of_ne_nil, isBlank]

/-- Words with white space between them can be read back. -/
theorem words_of_joined (areWords : ∀ name ∈ names, IsWord name)
    (isJoined : Joined names text) : words text = names := by
  induction isJoined with
  | empty => rfl
  | single name =>
      exact words_word (List.forall_mem_singleton.1 areWords)
  | cons name isBlank isGap laterJoined ih =>
      obtain ⟨isWord, laterAreWords⟩ := List.forall_mem_cons.1 areWords
      rw [words_append_gap isBlank isGap, words_word isWord,
        ih laterAreWords, List.singleton_append]

theorem words_of_spacedOut (areWords : ∀ name ∈ names, IsWord name)
    (isSpaced : SpacedOut names text) : words text = names := by
  obtain ⟨before, body, after, blankBefore, isJoined, blankAfter, rfl⟩ :=
    isSpaced
  rw [words_append_blank blankAfter, words_blank_append blankBefore,
    words_of_joined areWords isJoined]

theorem joined_intercalate (names : List String) :
    Joined names (" ".intercalate names) := by
  induction names with
  | nil => exact .empty
  | cons name names ih =>
      cases names with
      | nil =>
          rw [String.intercalate_singleton]
          exact .single name
      | cons next names =>
          rw [String.intercalate_cons_cons]
          exact .cons name (by decide +kernel) (by simp) ih

/-- Words that are joined with a space between them can be read back. -/
theorem words_intercalate (areWords : ∀ name ∈ names, IsWord name) :
    words (" ".intercalate names) = names :=
  words_of_joined areWords (joined_intercalate names)

theorem isBlank_empty : IsBlank "" := by decide +kernel

theorem IsBlank.append (firstBlank : IsBlank first)
    (secondBlank : IsBlank second) : IsBlank (first ++ second) := by
  rw [IsBlank, String.toList_append, List.forall_mem_append]
  exact ⟨firstBlank, secondBlank⟩

theorem Joined.spacedOut (isJoined : Joined names text) :
    SpacedOut names text :=
  ⟨"", text, "", isBlank_empty, isJoined, isBlank_empty, by simp⟩

namespace SpacedOut

variable (isSpaced : SpacedOut names text)

include isSpaced

theorem blank_append (isBlank : IsBlank gap) :
    SpacedOut names (gap ++ text) := by
  obtain ⟨before, body, after, blankBefore, isJoined, blankAfter, rfl⟩ :=
    isSpaced
  refine ⟨gap ++ before, body, after, isBlank.append blankBefore, isJoined,
    blankAfter, ?_⟩
  simp [String.append_assoc]

theorem cons (name : String) (isBlank : IsBlank gap) (isGap : gap ≠ "") :
    SpacedOut (name :: names) (name ++ gap ++ text) := by
  obtain ⟨before, body, after, blankBefore, isJoined, blankAfter, rfl⟩ :=
    isSpaced
  cases names with
  | nil =>
      cases isJoined
      refine ⟨"", name, gap ++ before ++ after, isBlank_empty, .single name,
        (isBlank.append blankBefore).append blankAfter, ?_⟩
      simp [String.append_assoc]
  | cons next later =>
      -- The white space in front of the next name belongs to the gap.
      have isWider : gap ++ before ≠ "" := by simp [isGap]
      refine ⟨"", name ++ (gap ++ before) ++ body, after, isBlank_empty,
        .cons name (isBlank.append blankBefore) isWider isJoined, blankAfter,
        ?_⟩
      simp [String.append_assoc]

end SpacedOut

theorem spacedOut_closeWord (collected : List Char) (isBlank : IsBlank gap)
    (isGap : gap ≠ "") (laterSpaced : SpacedOut names text) :
    SpacedOut (closeWord collected names)
      (.ofList collected.reverse ++ gap ++ text) := by
  cases collected with
  | nil => simpa [closeWord] using laterSpaced.blank_append isBlank
  | cons char collected => exact laterSpaced.cons _ isBlank isGap

/-- A word already begun, together with the characters behind it, is made of the
words that are read. -/
theorem spacedOut_wordsAfter (collected chars : List Char) :
    SpacedOut (wordsAfter collected chars)
      (.ofList (collected.reverse ++ chars)) := by
  induction chars generalizing collected with
  | nil =>
      rw [wordsAfter, List.append_nil]
      cases collected with
      | nil => exact Joined.empty.spacedOut
      | cons char collected => exact (Joined.single _).spacedOut
  | cons char rest ih =>
      rw [wordsAfter]
      split
      next isBlank =>
        have gapBlank : IsBlank (.ofList [char]) := by
          simpa [IsBlank] using isBlank
        have sameText : String.ofList (collected.reverse ++ char :: rest) =
            .ofList collected.reverse ++ .ofList [char] ++ .ofList rest := by
          rw [← String.ofList_append, ← String.ofList_append,
            List.append_assoc, List.singleton_append]
        rw [sameText]
        exact spacedOut_closeWord collected gapBlank (by simp) (ih [])
      next => simpa using ih (char :: collected)

theorem spacedOut_words (text : String) : SpacedOut (words text) text := by
  simpa [words] using spacedOut_wordsAfter [] text.toList

/-- A text is made of its words, and of no other ones. -/
theorem words_eq_iff :
    words text = names ↔
      (∀ name ∈ names, IsWord name) ∧ SpacedOut names text := by
  constructor
  · rintro rfl
    exact ⟨fun _ => isWord_of_mem_words, spacedOut_words text⟩
  · rintro ⟨areWords, isSpaced⟩
    exact words_of_spacedOut areWords isSpaced

theorem spacedOut_nil_iff : SpacedOut [] text ↔ IsBlank text := by
  constructor
  · rintro ⟨before, body, after, blankBefore, isJoined, blankAfter, rfl⟩
    cases isJoined
    exact (blankBefore.append isBlank_empty).append blankAfter
  · intro isBlank
    exact ⟨text, "", "", isBlank, .empty, isBlank_empty, by simp⟩

/-- A text has no words exactly when it is blank. -/
theorem words_eq_nil_iff : words text = [] ↔ IsBlank text := by
  rw [words_eq_iff, spacedOut_nil_iff]
  exact and_iff_right (List.forall_mem_nil _)

end Spacing

end KeyedPaths
