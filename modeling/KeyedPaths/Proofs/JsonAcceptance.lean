import Mathlib.Data.List.Basic
import Mathlib.Data.List.TakeWhile
import KeyedPaths.Proofs.JsonGrammar
import KeyedPaths.Proofs.Outcomes

/-!
# Texts that are accepted

Each reader takes only characters of its part of the grammar off the front of a
text.  Together with what reading a text of the grammar gives, this says which
texts are accepted: those that spell a value whose scalars and keys can be read
and whose brackets do not go too deep.
-/

namespace KeyedPaths

namespace Json

variable {Result : Type}

/-- What is read off the front of a text is of the given kind. -/
def TakesOnly (IsPart : List Char → Prop)
    (read : List Char → Reading Result) : Prop :=
  ∀ text result rest, read text = .ok (result, rest) →
    ∃ chars, IsPart chars ∧ text = chars ++ rest

theorem TakesOnly.imp {IsPart IsOther : List Char → Prop}
    {read : List Char → Reading Result} (takesOnly : TakesOnly IsPart read)
    (isOther : ∀ chars, IsPart chars → IsOther chars) :
    TakesOnly IsOther read := by
  intro text result rest isRead
  obtain ⟨chars, isPart, isText⟩ := takesOnly text result rest isRead
  exact ⟨chars, isOther chars isPart, isText⟩

/-- What is read behind a first character is of a kind together with it. -/
theorem TakesOnly.behind {IsPart IsWith : List Char → Prop} {char : Char}
    {read : List Char → Reading Result} (takesOnly : TakesOnly IsPart read)
    (isWith : ∀ chars, IsPart chars → IsWith (char :: chars))
    {text rest : List Char} {result : Result}
    (isRead : read text = .ok (result, rest)) :
    ∃ chars, IsWith chars ∧ char :: text = chars ++ rest := by
  obtain ⟨chars, isPart, rfl⟩ := takesOnly text result rest isRead
  exact ⟨char :: chars, isWith chars isPart, rfl⟩

section Numbers

theorem finishFloat_rest {negative : Bool} {number : Scientific}
    {text rest : List Char} {value : Json}
    (isRead : finishFloat negative number text = .ok (value, rest)) :
    rest = text := by
  unfold finishFloat at isRead
  split at isRead <;> cases isRead
  rfl

theorem finishWhole_rest {negative : Bool} {number : Scientific}
    {text rest : List Char} {value : Json}
    (isRead : finishWhole negative number text = .ok (value, rest)) :
    rest = text := by
  unfold finishWhole at isRead
  dsimp only at isRead
  split at isRead
  · exact finishFloat_rest isRead
  · split at isRead
    · cases isRead
      rfl
    · split at isRead
      · cases isRead
        rfl
      · exact finishFloat_rest isRead

theorem isDigit_of_mem_takeWhile {text : List Char} :
    ∀ char ∈ text.takeWhile Char.isDigit, char.isDigit = true :=
  fun _ => List.mem_takeWhile_imp

theorem takesOnly_readExponentDigits (negative negativeExponent : Bool)
    (number : Scientific) (exponent : Nat) :
    TakesOnly (fun chars => ∀ char ∈ chars, char.isDigit = true)
      (readExponentDigits negative negativeExponent number exponent) := by
  intro text value rest isRead
  induction text generalizing exponent with
  | nil =>
      rw [finishFloat_rest isRead]
      exact ⟨[], List.forall_mem_nil _, rfl⟩
  | cons char text ih =>
      rw [readExponentDigits] at isRead
      split at isRead
      next isDigit =>
        dsimp only at isRead
        split at isRead
        · obtain ⟨digits, areDigits, rfl⟩ := ih _ isRead
          exact ⟨char :: digits, List.forall_mem_cons.2 ⟨isDigit, areDigits⟩,
            rfl⟩
        · split at isRead <;> cases isRead
          refine ⟨char :: text.takeWhile Char.isDigit,
            List.forall_mem_cons.2 ⟨isDigit, isDigit_of_mem_takeWhile⟩, ?_⟩
          rw [List.cons_append, List.takeWhile_append_dropWhile]
      next =>
        rw [finishFloat_rest isRead]
        exact ⟨[], List.forall_mem_nil _, rfl⟩

theorem takesOnly_readExponent (negative negativeExponent : Bool)
    (number : Scientific) :
    TakesOnly AreDigits (readExponent negative negativeExponent number) := by
  intro text value rest isRead
  cases text with
  | nil => cases isRead
  | cons char text =>
      rw [readExponent] at isRead
      split at isRead
      next isDigit =>
        exact (takesOnly_readExponentDigits _ _ _ _).behind
          (fun digits areDigits => ⟨List.cons_ne_nil _ _,
            List.forall_mem_cons.2 ⟨isDigit, areDigits⟩⟩) isRead
      next => cases isRead

theorem takesOnly_readSignedExponent (negative : Bool) (number : Scientific) :
    TakesOnly IsSigned (readSignedExponent negative number) := by
  intro text value rest isRead
  unfold readSignedExponent at isRead
  split at isRead
  next => exact (takesOnly_readExponent _ _ _).behind (fun _ => .minus) isRead
  next => exact (takesOnly_readExponent _ _ _).behind (fun _ => .plus) isRead
  next => exact (takesOnly_readExponent _ _ _).imp (fun _ => .unsigned) _ _ _ isRead

theorem takesOnly_readAfterFraction (negative : Bool) (number : Scientific) :
    TakesOnly IsExponent (readAfterFraction negative number) := by
  intro text value rest isRead
  unfold readAfterFraction at isRead
  split at isRead
  next =>
    exact (takesOnly_readSignedExponent _ _).behind (fun _ => .lower) isRead
  next =>
    exact (takesOnly_readSignedExponent _ _).behind (fun _ => .upper) isRead
  next =>
    rw [finishFloat_rest isRead]
    exact ⟨[], .absent, rfl⟩

/-- The characters of a number behind its whole part. -/
def IsNumberTail (chars : List Char) : Prop :=
  ∃ fraction exponent, IsFraction fraction ∧ IsExponent exponent ∧
    chars = fraction ++ exponent

theorem IsExponent.isNumberTail {exponent : List Char}
    (isExponent : IsExponent exponent) : IsNumberTail exponent :=
  ⟨[], exponent, .absent, isExponent, rfl⟩

theorem takesOnly_readAfterWhole (negative : Bool) (number : Scientific) :
    TakesOnly IsNumberTail (readAfterWhole negative number) := by
  intro text value rest isRead
  unfold readAfterWhole at isRead
  split at isRead
  next _ text =>
    dsimp only at isRead
    split at isRead
    next => cases isRead
    next notEmpty =>
      obtain ⟨exponent, isExponent, isText⟩ :=
        takesOnly_readAfterFraction _ _ _ _ _ isRead
      have areDigits : AreDigits (text.takeWhile Char.isDigit) :=
        ⟨mt List.isEmpty_iff.2 notEmpty, isDigit_of_mem_takeWhile⟩
      refine ⟨_, ⟨_, exponent, .present areDigits, isExponent, rfl⟩, ?_⟩
      rw [List.append_assoc, ← isText, List.cons_append,
        List.takeWhile_append_dropWhile]
  next =>
    exact (takesOnly_readSignedExponent _ _).behind
      (fun _ isSigned => (IsExponent.lower isSigned).isNumberTail) isRead
  next =>
    exact (takesOnly_readSignedExponent _ _).behind
      (fun _ isSigned => (IsExponent.upper isSigned).isNumberTail) isRead
  next =>
    rw [finishWhole_rest isRead]
    exact ⟨[], IsExponent.absent.isNumberTail, rfl⟩

theorem takesOnly_readNumber (negative : Bool) :
    TakesOnly IsNumber (readNumber negative) := by
  intro text value rest isRead
  have areDigits := @isDigit_of_mem_takeWhile text
  have isSplit : text.takeWhile Char.isDigit ++ text.dropWhile Char.isDigit =
      text := List.takeWhile_append_dropWhile
  rw [readNumber] at isRead
  generalize text.takeWhile Char.isDigit = digits at *
  generalize text.dropWhile Char.isDigit = afterDigits at *
  split at isRead
  next => cases isRead
  next => cases isRead
  next notEmpty noSecond =>
    have isWhole : IsWhole digits := by
      cases digits with
      | nil => exact absurd rfl notEmpty
      | cons first digits =>
          by_cases isZero : first = '0'
          · subst isZero
            cases digits with
            | nil => exact .zero
            | cons second digits => exact absurd rfl (noSecond second digits)
          · exact .digits isZero areDigits
    obtain ⟨_, ⟨fraction, exponent, isFraction, isExponent, rfl⟩, rfl⟩ :=
      takesOnly_readAfterWhole _ _ _ _ _ isRead
    refine ⟨_, .parts isWhole isFraction isExponent, ?_⟩
    rw [← isSplit]
    simp

end Numbers

section Strings

/-- The characters complete a string that has been read up to the state, without
its closing quote.  Which digits of an escape have been read is left open,
because every choice of them is part of a string. -/
def StringState.CompletedBy : StringState → List Char → Prop
  | .plain, chars => IsStringBody chars
  | .afterBackslash, chars => IsStringBody ('\\' :: chars)
  | .hexDigits _ count _, chars =>
      ∀ digits : List Char, digits.length = count → count < 4 →
        (∀ digit ∈ digits, (hexDigit? digit).isSome) →
          IsStringBody ('\\' :: 'u' :: (digits ++ chars))
  | .afterLeading _, chars => IsStringBody chars
  | .afterLeadingBackslash _, chars => IsStringBody ('\\' :: chars)

theorem completedBy_digit {leading : Option Nat} {count value next : Nat}
    {digit : Char} {body : List Char} (isEarly : count < 3)
    (isHex : (hexDigit? digit).isSome)
    (isCompleted :
      (StringState.hexDigits leading (count + 1) next).CompletedBy body) :
    (StringState.hexDigits leading count value).CompletedBy (digit :: body) := by
  intro digits sameLength _ areHex
  have isBody := isCompleted (digits ++ [digit])
    (by simp [sameLength]) (by omega)
    (List.forall_mem_append.2 ⟨areHex, List.forall_mem_singleton.2 isHex⟩)
  rwa [List.append_assoc, List.singleton_append] at isBody

theorem completedBy_last {leading : Option Nat} {count value : Nat}
    {last : Char} {body : List Char} (notEarly : ¬ count < 3)
    (isHex : (hexDigit? last).isSome) (isBody : IsStringBody body) :
    (StringState.hexDigits leading count value).CompletedBy (last :: body) := by
  intro digits sameLength isLow areHex
  obtain ⟨first, second, third, rfl⟩ :=
    List.length_eq_three.1 (show digits.length = 3 by omega)
  exact .code (List.forall_mem_append.2
    ⟨areHex, List.forall_mem_singleton.2 isHex⟩) isBody

/-- A character ends the string, or leads to a state whose completions complete
the string behind the character. -/
theorem readStringFrom_cons_cases {collected : List Char} {state : StringState}
    {char : Char} {text rest : List Char} {result : String}
    (isRead : readStringFrom collected state (char :: text) =
      .ok (result, rest)) :
    (state.CompletedBy [] ∧ char = '"' ∧ rest = text) ∨
      ∃ nextCollected next,
        readStringFrom nextCollected next text = .ok (result, rest) ∧
          ∀ body, next.CompletedBy body → state.CompletedBy (char :: body) := by
  cases state with
  | plain =>
      rw [readStringFrom] at isRead
      split at isRead
      next isQuote =>
        cases isRead
        exact .inl ⟨.nil, isQuote, rfl⟩
      next notQuote =>
        split at isRead
        next isBackslash =>
          subst isBackslash
          exact .inr ⟨_, _, isRead, fun body isCompleted => isCompleted⟩
        next notBackslash =>
          split at isRead
          next => cases isRead
          next notControl =>
            exact .inr ⟨_, _, isRead, fun body =>
              .plain notQuote notBackslash notControl⟩
  | afterBackslash =>
      rw [readStringFrom] at isRead
      split at isRead
      next isCode =>
        subst isCode
        exact .inr ⟨_, _, isRead, fun body isCompleted =>
          isCompleted [] rfl (by decide) (List.forall_mem_nil _)⟩
      next notCode =>
        split at isRead
        next escaped isEscaped =>
          exact .inr ⟨_, _, isRead, fun body => .escape isEscaped⟩
        next => cases isRead
  | hexDigits leading count value =>
      rw [readStringFrom] at isRead
      split at isRead
      next => cases isRead
      next digit isDigit =>
        have isHex : (hexDigit? char).isSome := by rw [isDigit]; rfl
        dsimp only at isRead
        split at isRead
        next isEarly =>
          exact .inr ⟨_, _, isRead, fun body => completedBy_digit isEarly isHex⟩
        next notEarly =>
          split at isRead
          next =>
            exact .inr ⟨_, _, isRead, fun body => completedBy_last notEarly isHex⟩
          next =>
            split at isRead
            next =>
              exact .inr ⟨_, _, isRead, fun body =>
                completedBy_last notEarly isHex⟩
            next => cases isRead
  | afterLeading leading =>
      rw [readStringFrom] at isRead
      split at isRead
      next isBackslash =>
        subst isBackslash
        exact .inr ⟨_, _, isRead, fun body isCompleted => isCompleted⟩
      next => cases isRead
  | afterLeadingBackslash leading =>
      rw [readStringFrom] at isRead
      split at isRead
      next isCode =>
        subst isCode
        exact .inr ⟨_, _, isRead, fun body isCompleted =>
          isCompleted [] rfl (by decide) (List.forall_mem_nil _)⟩
      next => cases isRead

theorem exists_completion {collected : List Char} {state : StringState}
    {text rest : List Char} {result : String}
    (isRead : readStringFrom collected state text = .ok (result, rest)) :
    ∃ body, state.CompletedBy body ∧ text = body ++ '"' :: rest := by
  induction text generalizing collected state with
  | nil => cases state <;> cases isRead
  | cons char text ih =>
      rcases readStringFrom_cons_cases isRead with
        ⟨isCompleted, rfl, rfl⟩ | ⟨nextCollected, next, isNext, completes⟩
      · exact ⟨[], isCompleted, rfl⟩
      · obtain ⟨body, isCompleted, rfl⟩ := ih isNext
        exact ⟨char :: body, completes body isCompleted, rfl⟩

/-- A string without its opening quote. -/
theorem takesOnly_readString :
    TakesOnly (fun chars => ∃ body, IsStringBody body ∧ chars = body ++ ['"'])
      readString := by
  intro text result rest isRead
  obtain ⟨body, isBody, rfl⟩ := exists_completion isRead
  exact ⟨_, ⟨body, isBody, rfl⟩, by simp⟩

end Strings

section Scalars

theorem readWord_text {value result : Json} {word text rest : List Char}
    (isRead : readWord value word text = .ok (result, rest)) :
    text = word ++ rest := by
  induction word generalizing text with
  | nil =>
      cases isRead
      rfl
  | cons expected word ih =>
      cases text with
      | nil => cases isRead
      | cons char text =>
          rw [readWord] at isRead
          split at isRead
          next isExpected => rw [isExpected, ih isRead, List.cons_append]
          next => cases isRead

theorem takesOnly_readScalar : TakesOnly IsScalar readScalar := by
  intro text value rest isRead
  unfold readScalar at isRead
  split at isRead
  next => exact ⟨_, .null, congrArg _ (readWord_text isRead)⟩
  next => exact ⟨_, .true, congrArg _ (readWord_text isRead)⟩
  next => exact ⟨_, .false, congrArg _ (readWord_text isRead)⟩
  next => exact (takesOnly_readNumber _).behind (fun _ => .negative) isRead
  next =>
    split at isRead
    next => cases isRead
    next isString =>
      cases isRead
      refine takesOnly_readString.behind ?_ isString
      rintro _ ⟨body, isBody, rfl⟩
      exact .string isBody
  next =>
    split at isRead
    · exact (takesOnly_readNumber _).imp (fun _ => .number) _ _ _ isRead
    · cases isRead

end Scalars

section Lists

variable {Part : Type} {IsPart : List Char → Prop} {rest : List Char}
  {value : Json}

theorem exists_spaces (text : List Char) :
    ∃ spaces, AreSpaces spaces ∧ text = spaces ++ skipSpace text :=
  ⟨text.takeWhile isSpace, fun _ => List.mem_takeWhile_imp,
    List.takeWhile_append_dropWhile.symm⟩

/-- White space may stand around parts of the given kind. -/
def AllowsSpaces (IsPart : List Char → Prop) : Prop :=
  ∀ before chars after, AreSpaces before → IsPart chars → AreSpaces after →
    IsPart (before ++ (chars ++ after))

/-- What the readers of arrays and of objects can have read when they succeed. -/
structure AcceptsList (readPart : List Char → Reading Part) (close : Char)
    (readBracket : Nat → List Char → Reading Json)
    (readParts : List Part → Nat → List Char → Reading Json) : Prop where
  bracket_cases {bound : Nat} {text rest : List Char} {value : Json}
    (isRead : readBracket bound text = .ok (value, rest)) :
    skipSpace text = close :: rest ∨
      readParts [] bound (skipSpace text) = .ok (value, rest)
  parts_cases {collected : List Part} {bound : Nat} {text rest : List Char}
    {value : Json}
    (isRead : readParts collected bound text = .ok (value, rest)) :
    ∃ earlier part left, bound = earlier + 1 ∧
      readPart text = .ok (part, left) ∧
      (skipSpace left = close :: rest ∨
        ∃ next, skipSpace left = ',' :: next ∧
          readParts (part :: collected) earlier (skipSpace next) =
            .ok (value, rest))

theorem acceptsList_array (readElement : List Char → Reading Json) :
    AcceptsList readElement ']' (readArray readElement)
      (readElements readElement) where
  bracket_cases isRead := by
    unfold readArray at isRead
    split at isRead
    next => cases isRead
    next isClose =>
      cases isRead
      exact .inl isClose
    next => exact .inr isRead
  parts_cases {collected bound text rest value} isRead := by
    cases bound with
    | zero => cases isRead
    | succ earlier =>
        rw [readElements] at isRead
        split at isRead
        next => cases isRead
        next part left isPart =>
          refine ⟨earlier, part, left, rfl, isPart, ?_⟩
          split at isRead
          next isClose =>
            cases isRead
            exact .inl isClose
          next next isComma =>
            split at isRead
            next => cases isRead
            next => exact .inr ⟨next, isComma, isRead⟩
          next => cases isRead

theorem acceptsList_object (readValue : List Char → Reading Json) :
    AcceptsList (readMember readValue) '}' (readObject readValue)
      (readMembers readValue) where
  bracket_cases isRead := by
    unfold readObject at isRead
    split at isRead
    next => cases isRead
    next isClose =>
      cases isRead
      exact .inl isClose
    next => exact .inr isRead
  parts_cases {collected bound text rest value} isRead := by
    cases bound with
    | zero => cases isRead
    | succ earlier =>
        rw [readMembers] at isRead
        split at isRead
        next => cases isRead
        next part left isPart =>
          refine ⟨earlier, part, left, rfl, isPart, ?_⟩
          split at isRead
          next isClose =>
            cases isRead
            exact .inl isClose
          next next isComma =>
            split at isRead
            next => cases isRead
            next => exact .inr ⟨next, isComma, isRead⟩
          next => cases isRead

namespace AcceptsList

variable {readPart : List Char → Reading Part} {close : Char}
  {readBracket : Nat → List Char → Reading Json}
  {readParts : List Part → Nat → List Char → Reading Json}
  (acceptsList : AcceptsList readPart close readBracket readParts)
  (takesOnly : TakesOnly IsPart readPart) (allowsSpaces : AllowsSpaces IsPart)

include acceptsList takesOnly allowsSpaces

theorem exists_parts {collected : List Part} {bound : Nat} {text : List Char}
    (isRead : readParts collected bound (skipSpace text) = .ok (value, rest)) :
    ∃ parts, parts ≠ [] ∧ (∀ part ∈ parts, IsPart part) ∧
      text = [','].intercalate parts ++ close :: rest := by
  induction bound generalizing collected text with
  | zero =>
      obtain ⟨earlier, -, -, noBound, -⟩ := acceptsList.parts_cases isRead
      cases noBound
  | succ bound ih =>
      obtain ⟨_, part, left, ⟨⟩, isFirst, goesOn⟩ :=
        acceptsList.parts_cases isRead
      obtain ⟨chars, isPart, isText⟩ := takesOnly _ _ _ isFirst
      obtain ⟨before, spacesBefore, isBefore⟩ := exists_spaces text
      obtain ⟨after, spacesAfter, isAfter⟩ := exists_spaces left
      have isFirstPart := allowsSpaces before chars after spacesBefore isPart
        spacesAfter
      rw [isBefore, isText, isAfter]
      rcases goesOn with isClose | ⟨next, isComma, isLater⟩
      · refine ⟨[_], List.cons_ne_nil _ _,
          List.forall_mem_singleton.2 isFirstPart, ?_⟩
        rw [isClose, List.intercalate_singleton]
        simp
      · obtain ⟨parts, notEmpty, areParts, isNext⟩ := ih isLater
        refine ⟨_ :: parts, List.cons_ne_nil _ _,
          List.forall_mem_cons.2 ⟨isFirstPart, areParts⟩, ?_⟩
        rw [isComma, isNext, List.intercalate_cons_of_ne_nil notEmpty]
        simp

theorem exists_listText {bound : Nat} {text : List Char}
    (isRead : readBracket bound text = .ok (value, rest)) :
    ∃ inside parts, AreSpaces inside ∧ (∀ part ∈ parts, IsPart part) ∧
      text = listText inside parts close ++ rest := by
  rcases acceptsList.bracket_cases isRead with isClose | areRead
  · obtain ⟨inside, spacesInside, isText⟩ := exists_spaces text
    refine ⟨inside, [], spacesInside, List.forall_mem_nil _, ?_⟩
    rw [isText, isClose, listText]
    simp
  · obtain ⟨parts, -, areParts, isText⟩ :=
      acceptsList.exists_parts takesOnly allowsSpaces areRead
    refine ⟨[], parts, List.forall_mem_nil _, areParts, ?_⟩
    rw [isText, listText]
    simp

end AcceptsList

theorem exists_pieces {Piece : Type} {IsPiece : Piece → Prop}
    {text : Piece → List Char} {parts : List (List Char)}
    (areParts : ∀ part ∈ parts, ∃ piece, IsPiece piece ∧ text piece = part) :
    ∃ pieces : List Piece, (∀ piece ∈ pieces, IsPiece piece) ∧
      pieces.map text = parts := by
  induction parts with
  | nil => exact ⟨[], List.forall_mem_nil _, rfl⟩
  | cons part parts ih =>
      rw [List.forall_mem_cons] at areParts
      obtain ⟨⟨piece, isPiece, rfl⟩, areLater⟩ := areParts
      obtain ⟨pieces, arePieces, rfl⟩ := ih areLater
      exact ⟨piece :: pieces, List.forall_mem_cons.2 ⟨isPiece, arePieces⟩, rfl⟩

end Lists

section Values

def IsSpelled (chars : List Char) : Prop :=
  ∃ piece : Written × List Char, Spells piece.1 piece.2 ∧ piece.2 = chars

/-- The text of a member. -/
def IsMember (chars : List Char) : Prop :=
  ∃ piece : KeyText × Written × List Char, Spells piece.2.1 piece.2.2 ∧
    piece.1.chars ++ piece.2.2 = chars

theorem Spells.isSpelled {value : Written} {chars : List Char}
    (spells : Spells value chars) : IsSpelled chars :=
  ⟨(value, chars), spells, rfl⟩

theorem allowsSpaces_isSpelled : AllowsSpaces IsSpelled := by
  rintro before _ after spacesBefore ⟨⟨value, chars⟩, spells, rfl⟩ spacesAfter
  exact (spells.spaced spacesBefore spacesAfter).isSpelled

theorem allowsSpaces_isMember : AllowsSpaces IsMember := by
  rintro before _ after spacesBefore ⟨⟨key, value, chars⟩, spells, rfl⟩
    spacesAfter
  refine ⟨({ key with
    before := before ++ key.before
    spacesBefore := List.forall_mem_append.2
      ⟨spacesBefore, key.spacesBefore⟩ }, value, chars ++ after), ?_, ?_⟩
  · exact Spells.spaced (List.forall_mem_nil _) spells spacesAfter
  · simp [KeyText.chars]

theorem takesOnly_readMember {readValue : List Char → Reading Json}
    (takesOnly : TakesOnly IsSpelled readValue) :
    TakesOnly IsMember (readMember readValue) := by
  intro text member rest isRead
  unfold readMember at isRead
  split at isRead
  next _ text =>
    split at isRead
    next => cases isRead
    next key left isKey =>
      split at isRead
      next _ afterColon isColon =>
        split at isRead
        next => cases isRead
        next isValue =>
          cases isRead
          obtain ⟨_, ⟨body, isBody, rfl⟩, rfl⟩ :=
            takesOnly_readString _ _ _ isKey
          obtain ⟨after, spacesAfter, isAfter⟩ := exists_spaces left
          obtain ⟨_, ⟨⟨value, chars⟩, spells, rfl⟩, isText⟩ :=
            takesOnly _ _ _ isValue
          let keyText : KeyText :=
            ⟨[], body, after, List.forall_mem_nil _, isBody, spacesAfter⟩
          refine ⟨_, ⟨(keyText, value, chars), spells, rfl⟩, ?_⟩
          rw [isAfter, isColon, isText]
          simp [keyText, KeyText.chars]
      next => cases isRead
  next => cases isRead

theorem exists_isSpelled_of_skipSpace {text chars rest : List Char}
    {value : Written} (spells : Spells value chars)
    (isText : skipSpace text = chars ++ rest) :
    ∃ chars, IsSpelled chars ∧ text = chars ++ rest := by
  obtain ⟨before, spacesBefore, isBefore⟩ := exists_spaces text
  refine ⟨_, allowsSpaces_isSpelled before chars [] spacesBefore
    spells.isSpelled (List.forall_mem_nil _), ?_⟩
  rw [isBefore, isText]
  simp

theorem takesOnly_readValue (bound depth : Nat) :
    TakesOnly IsSpelled (readValue bound depth) := by
  induction depth with
  | zero =>
      intro text value rest isRead
      unfold readValue at isRead
      split at isRead
      next => cases isRead
      next => cases isRead
      next =>
        obtain ⟨chars, isScalar, isText⟩ := takesOnly_readScalar _ _ _ isRead
        exact exists_isSpelled_of_skipSpace (.scalar isScalar) isText
  | succ depth ih =>
      intro text value rest isRead
      unfold readValue at isRead
      split at isRead
      next _ _ isOpen =>
        obtain ⟨inside, parts, spacesInside, areParts, rfl⟩ :=
          (acceptsList_array _).exists_listText ih allowsSpaces_isSpelled isRead
        obtain ⟨pieces, areSpelled, rfl⟩ := exists_pieces areParts
        exact exists_isSpelled_of_skipSpace (.array spacesInside areSpelled)
          isOpen
      next _ _ isOpen =>
        obtain ⟨inside, parts, spacesInside, areParts, rfl⟩ :=
          (acceptsList_object _).exists_listText (takesOnly_readMember ih)
            allowsSpaces_isMember isRead
        obtain ⟨pieces, areSpelled, rfl⟩ := exists_pieces areParts
        exact exists_isSpelled_of_skipSpace (.object spacesInside areSpelled)
          isOpen
      next =>
        obtain ⟨chars, isScalar, isText⟩ := takesOnly_readScalar _ _ _ isRead
        exact exists_isSpelled_of_skipSpace (.scalar isScalar) isText

theorem exists_spells_of_ofText {text : String} {document : Json}
    (isRead : ofText text = .ok document) :
    ∃ value, Spells value text.toList := by
  rw [ofText, mapError_eq_ok_iff, readAll, bind_eq_ok_iff] at isRead
  obtain ⟨⟨_, rest⟩, isValue, isEnd⟩ := isRead
  dsimp only at isEnd
  split at isEnd
  next noRest =>
    obtain ⟨_, ⟨⟨value, chars⟩, spells, rfl⟩, isText⟩ :=
      takesOnly_readValue _ _ _ _ _ isValue
    obtain ⟨after, spacesAfter, isAfter⟩ := exists_spaces rest
    have isSpelled := Spells.spaced (List.forall_mem_nil _) spells spacesAfter
    rw [noRest, List.append_nil] at isAfter
    rw [isText, isAfter]
    exact ⟨value, isSpelled⟩
  next => cases isEnd

/-- A text is read as a value exactly if it spells one that is this value when
its brackets are nested no deeper than the reader allows. -/
theorem ofText_eq_ok_iff {text : String} {document : Json} :
    ofText text = .ok document ↔
      ∃ value, Spells value text.toList ∧
        value.valueWithin greatestDepth = .ok document := by
  constructor
  · intro isRead
    obtain ⟨value, spells⟩ := exists_spells_of_ofText isRead
    refine ⟨value, spells, ?_⟩
    rcases ofText_of_spells spells with
      ⟨other, isValue, isOther⟩ | ⟨fault, position, -, isFault⟩
    · rw [isRead, Except.ok.injEq] at isOther
      rw [isOther]
      exact isValue
    · rw [isRead] at isFault
      cases isFault
  · rintro ⟨value, spells, isValue⟩
    rcases ofText_of_spells spells with
      ⟨other, isOther, isRead⟩ | ⟨fault, position, isFault, -⟩
    · rw [isValue, Except.ok.injEq] at isOther
      rw [isOther]
      exact isRead
    · rw [isValue] at isFault
      cases isFault

end Values

end Json

end KeyedPaths
