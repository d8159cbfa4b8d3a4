import KeyedPaths.JsonReader

/-!
# Tokens of JSON texts

Words, numbers and strings are read alike whatever stands behind them, as long as
it does not continue a number.  This holds of tokens that can be read and of
tokens whose characters or whose value have no place in the range of values, such
as half a surrogate pair or a number beyond the doubles.
-/

namespace KeyedPaths

namespace Json

variable {Result : Type}

/-- The result of reading or the fault, without the places in the text. -/
def outcomeOf : Reading Result → Except Fault Result
  | .ok (result, _) => .ok result
  | .error failure => .error failure.fault

/-- A reading has an outcome, and behind a result the given rest is left, up to
white space in front. -/
def ReadsAs (outcome : Except Fault Result) (rest : List Char)
    (reading : Reading Result) : Prop :=
  (∃ result left, outcome = .ok result ∧ reading = .ok (result, left) ∧
      skipSpace left = skipSpace rest) ∨
    ∃ fault unread, outcome = .error fault ∧ reading = .error ⟨fault, unread⟩

namespace ReadsAs

variable {outcome : Except Fault Result} {rest : List Char}
  {reading : Reading Result}

theorem of_ok {result : Result} (isRead : reading = .ok (result, rest)) :
    ReadsAs (.ok result) rest reading :=
  .inl ⟨result, rest, rfl, isRead, rfl⟩

theorem of_error {fault : Fault} {unread : Nat}
    (isFault : reading = .error ⟨fault, unread⟩) :
    ReadsAs (.error fault) rest reading :=
  .inr ⟨fault, unread, rfl, isFault⟩

theorem outcomeOf_eq (reads : ReadsAs outcome rest reading) :
    outcomeOf reading = outcome := by
  rcases reads with ⟨result, left, rfl, rfl, -⟩ | ⟨fault, unread, rfl, rfl⟩ <;>
    rfl

end ReadsAs

/-- Characters that continue a number which they stand behind. -/
def continuesNumber (char : Char) : Bool :=
  char.isDigit || char = '.' || char = 'e' || char = 'E'

def EndsNumber (rest : List Char) : Prop :=
  ∀ char ∈ rest.head?, continuesNumber char = false

/-- Characters are read alike whatever stands behind them. -/
def ReadsAlike (read : List Char → Reading Result) (chars : List Char) :
    Prop :=
  ∃ outcome, ∀ rest, EndsNumber rest → ReadsAs outcome rest (read (chars ++ rest))

theorem ReadsAlike.readsAs {read : List Char → Reading Result}
    {chars rest : List Char} (readsAlike : ReadsAlike read chars)
    (endsNumber : EndsNumber rest) :
    ReadsAs (outcomeOf (read chars)) rest (read (chars ++ rest)) := by
  obtain ⟨outcome, reads⟩ := readsAlike
  have readsAlone := reads [] nofun
  rw [List.append_nil] at readsAlone
  rw [readsAlone.outcomeOf_eq]
  exact reads rest endsNumber

section Numbers

variable {chars rest : List Char}

def AreDigits (chars : List Char) : Prop :=
  chars ≠ [] ∧ ∀ char ∈ chars, char.isDigit = true

/-- Digits end in front of the text. -/
def EndsDigits (text : List Char) : Prop :=
  ∀ char ∈ text.head?, char.isDigit = false

theorem EndsNumber.endsDigits (endsNumber : EndsNumber rest) :
    EndsDigits rest := by
  intro char isFirst
  have noContinuation := endsNumber char isFirst
  simp only [continuesNumber, Bool.or_eq_false_iff] at noContinuation
  exact noContinuation.1.1.1

theorem endsDigits_cons {char : Char} (notDigit : char.isDigit = false) :
    EndsDigits (char :: rest) := by
  rintro _ ⟨⟩
  exact notDigit

theorem takeWhile_dropWhile_isDigit {digits : List Char}
    (areDigits : ∀ char ∈ digits, char.isDigit = true)
    (endsDigits : EndsDigits rest) :
    (digits ++ rest).takeWhile Char.isDigit = digits ∧
      (digits ++ rest).dropWhile Char.isDigit = rest := by
  rw [List.takeWhile_append_of_pos areDigits,
    List.dropWhile_append_of_pos areDigits]
  cases rest with
  | nil => simp
  | cons char rest =>
      have notDigit := endsDigits char rfl
      simp [notDigit]

theorem readsAlike_finishFloat (negative : Bool) (number : Scientific) :
    ReadsAlike (finishFloat negative number) [] := by
  cases isFloat : number.toFloat? with
  | some magnitude =>
      have isRead (rest : List Char) : finishFloat negative number rest =
          .ok (signed negative magnitude, rest) := by
        rw [finishFloat, isFloat]
      exact ⟨.ok (signed negative magnitude), fun rest _ => .of_ok (isRead rest)⟩
  | none =>
      have isFault (rest : List Char) : finishFloat negative number rest =
          .error ⟨.numberOutOfRange, byteLength rest⟩ := by
        rw [finishFloat, isFloat]
      exact ⟨.error .numberOutOfRange, fun rest _ => .of_error (isFault rest)⟩

theorem readsAlike_finishWhole (negative : Bool) (number : Scientific) :
    ReadsAlike (finishWhole negative number) [] := by
  unfold finishWhole
  dsimp only
  split
  · exact readsAlike_finishFloat negative number
  · split
    · exact ⟨_, fun rest _ => .of_ok rfl⟩
    · split
      · exact ⟨_, fun rest _ => .of_ok rfl⟩
      · exact readsAlike_finishFloat negative number

theorem readsAlike_readExponentDigits (negative negativeExponent : Bool)
    (number : Scientific) (exponent : Nat) {digits : List Char}
    (areDigits : ∀ char ∈ digits, char.isDigit = true) :
    ReadsAlike (readExponentDigits negative negativeExponent number exponent)
      digits := by
  -- An exponent that is too large decides the number before its digits end.
  induction digits generalizing exponent with
  | nil =>
      let shift : Int := if negativeExponent then -exponent else exponent
      obtain ⟨outcome, reads⟩ := readsAlike_finishFloat negative
        ⟨number.significand, number.exponent + shift⟩
      refine ⟨outcome, fun rest endsNumber => ?_⟩
      have isFinished := reads rest endsNumber
      cases rest with
      | nil => exact isFinished
      | cons char rest =>
          have notDigit := endsNumber.endsDigits char rfl
          rw [List.nil_append, readExponentDigits, notDigit]
          exact isFinished
  | cons digit digits ih =>
      rw [List.forall_mem_cons] at areDigits
      unfold ReadsAlike
      simp only [List.cons_append, readExponentDigits, areDigits.1, if_true]
      split
      · exact ih _ areDigits.2
      · split
        · exact ⟨_, fun rest _ => .of_error rfl⟩
        · refine ⟨.ok (signed negative 0), fun rest endsNumber => .of_ok ?_⟩
          rw [(takeWhile_dropWhile_isDigit areDigits.2
            endsNumber.endsDigits).2]

theorem readsAlike_readExponent (negative negativeExponent : Bool)
    (number : Scientific) (areDigits : AreDigits chars) :
    ReadsAlike (readExponent negative negativeExponent number) chars := by
  obtain ⟨notEmpty, areDigits⟩ := areDigits
  cases chars with
  | nil => exact absurd rfl notEmpty
  | cons digit digits =>
      rw [List.forall_mem_cons] at areDigits
      unfold ReadsAlike
      simp only [List.cons_append, readExponent, areDigits.1, if_true]
      exact readsAlike_readExponentDigits negative negativeExponent number _
        areDigits.2

/-- The digits of an exponent with or without a sign. -/
inductive IsSigned : List Char → Prop
  | unsigned {digits : List Char} (areDigits : AreDigits digits) :
      IsSigned digits
  | plus {digits : List Char} (areDigits : AreDigits digits) :
      IsSigned ('+' :: digits)
  | minus {digits : List Char} (areDigits : AreDigits digits) :
      IsSigned ('-' :: digits)

inductive IsExponent : List Char → Prop
  | absent : IsExponent []
  | lower {chars : List Char} (isSigned : IsSigned chars) :
      IsExponent ('e' :: chars)
  | upper {chars : List Char} (isSigned : IsSigned chars) :
      IsExponent ('E' :: chars)

inductive IsFraction : List Char → Prop
  | absent : IsFraction []
  | present {digits : List Char} (areDigits : AreDigits digits) :
      IsFraction ('.' :: digits)

/-- The digits before the point, of which a zero stands alone. -/
inductive IsWhole : List Char → Prop
  | zero : IsWhole ['0']
  | digits {first : Char} {digits : List Char} (notZero : first ≠ '0')
      (areDigits : ∀ char ∈ first :: digits, char.isDigit = true) :
      IsWhole (first :: digits)

/-- A number without sign. -/
inductive IsNumber : List Char → Prop
  | parts {whole fraction exponent : List Char} (isWhole : IsWhole whole)
      (isFraction : IsFraction fraction) (isExponent : IsExponent exponent) :
      IsNumber (whole ++ (fraction ++ exponent))

theorem readsAlike_readSignedExponent (negative : Bool) (number : Scientific)
    (isSigned : IsSigned chars) :
    ReadsAlike (readSignedExponent negative number) chars := by
  cases isSigned with
  | unsigned areDigits =>
      obtain ⟨outcome, reads⟩ :=
        readsAlike_readExponent negative false number areDigits
      refine ⟨outcome, fun rest endsNumber => ?_⟩
      have isRead := reads rest endsNumber
      obtain ⟨notEmpty, areDigits⟩ := areDigits
      cases chars with
      | nil => exact absurd rfl notEmpty
      | cons digit digits =>
          have isDigit := areDigits digit List.mem_cons_self
          rw [List.cons_append] at isRead ⊢
          unfold readSignedExponent
          split
          next isMinus =>
            cases isMinus
            exact absurd isDigit (by decide)
          next isPlus =>
            cases isPlus
            exact absurd isDigit (by decide)
          next => exact isRead
  | plus areDigits => exact readsAlike_readExponent negative false number areDigits
  | minus areDigits => exact readsAlike_readExponent negative true number areDigits

theorem IsExponent.endsDigits (isExponent : IsExponent chars)
    (endsNumber : EndsNumber rest) : EndsDigits (chars ++ rest) := by
  cases isExponent with
  | absent => exact endsNumber.endsDigits
  | lower => exact endsDigits_cons (by decide)
  | upper => exact endsDigits_cons (by decide)

theorem EndsNumber.not_continues {char : Char}
    (endsNumber : EndsNumber (char :: rest)) :
    char ≠ '.' ∧ char ≠ 'e' ∧ char ≠ 'E' := by
  have noContinuation := endsNumber char rfl
  refine ⟨?_, ?_, ?_⟩ <;>
    · rintro rfl
      exact absurd noContinuation (by decide)

theorem readAfterFraction_of_endsNumber {negative : Bool}
    {number : Scientific} (endsNumber : EndsNumber rest) :
    readAfterFraction negative number rest =
      finishFloat negative number rest := by
  unfold readAfterFraction
  split
  next => exact absurd rfl endsNumber.not_continues.2.1
  next => exact absurd rfl endsNumber.not_continues.2.2
  next => rfl

theorem readAfterWhole_of_endsNumber {negative : Bool} {number : Scientific}
    (endsNumber : EndsNumber rest) :
    readAfterWhole negative number rest =
      finishWhole negative number rest := by
  unfold readAfterWhole
  split
  next => exact absurd rfl endsNumber.not_continues.1
  next => exact absurd rfl endsNumber.not_continues.2.1
  next => exact absurd rfl endsNumber.not_continues.2.2
  next => rfl

theorem readsAlike_readAfterFraction (negative : Bool) (number : Scientific)
    (isExponent : IsExponent chars) :
    ReadsAlike (readAfterFraction negative number) chars := by
  cases isExponent with
  | absent =>
      obtain ⟨outcome, reads⟩ := readsAlike_finishFloat negative number
      refine ⟨outcome, fun rest endsNumber => ?_⟩
      rw [List.nil_append, readAfterFraction_of_endsNumber endsNumber]
      exact reads rest endsNumber
  | lower isSigned =>
      exact readsAlike_readSignedExponent negative number isSigned
  | upper isSigned =>
      exact readsAlike_readSignedExponent negative number isSigned

theorem readsAlike_readAfterWhole (negative : Bool) (number : Scientific)
    {fraction exponent : List Char} (isFraction : IsFraction fraction)
    (isExponent : IsExponent exponent) :
    ReadsAlike (readAfterWhole negative number) (fraction ++ exponent) := by
  cases isFraction with
  | absent =>
      cases isExponent with
      | absent =>
          obtain ⟨outcome, reads⟩ := readsAlike_finishWhole negative number
          refine ⟨outcome, fun rest endsNumber => ?_⟩
          rw [List.append_nil, List.nil_append,
            readAfterWhole_of_endsNumber endsNumber]
          exact reads rest endsNumber
      | lower isSigned =>
          exact readsAlike_readSignedExponent negative number isSigned
      | upper isSigned =>
          exact readsAlike_readSignedExponent negative number isSigned
  | @present digits areDigits =>
      obtain ⟨outcome, reads⟩ := readsAlike_readAfterFraction negative
        (number.appendFraction digits) isExponent
      refine ⟨outcome, fun rest endsNumber => ?_⟩
      obtain ⟨areTaken, areDropped⟩ := takeWhile_dropWhile_isDigit areDigits.2
        (isExponent.endsDigits endsNumber)
      rw [List.append_assoc, List.cons_append, readAfterWhole, areTaken,
        areDropped, if_neg (mt List.isEmpty_iff.1 areDigits.1)]
      exact reads rest endsNumber

theorem IsFraction.endsDigits {fraction exponent : List Char}
    (isFraction : IsFraction fraction) (isExponent : IsExponent exponent)
    (endsNumber : EndsNumber rest) :
    EndsDigits (fraction ++ exponent ++ rest) := by
  cases isFraction with
  | absent => exact isExponent.endsDigits endsNumber
  | present => exact endsDigits_cons (by decide)

theorem readNumber_whole {negative : Bool} {whole : List Char}
    (isWhole : IsWhole whole) (endsDigits : EndsDigits rest) :
    readNumber negative (whole ++ rest) =
      readAfterWhole negative (.ofWhole 0 whole) rest := by
  cases isWhole with
  | zero =>
      have isDigit : ∀ char ∈ ['0'], char.isDigit = true :=
        List.forall_mem_singleton.2 rfl
      obtain ⟨areTaken, areDropped⟩ :=
        takeWhile_dropWhile_isDigit isDigit endsDigits
      rw [readNumber, areTaken, areDropped]
      rfl
  | @digits first digits notZero areDigits =>
      obtain ⟨areTaken, areDropped⟩ :=
        takeWhile_dropWhile_isDigit areDigits endsDigits
      rw [readNumber, areTaken, areDropped]
      split
      next noDigits => cases noDigits
      next isZero =>
        cases isZero
        exact absurd rfl notZero
      next => rfl

theorem readsAlike_readNumber (negative : Bool) (isNumber : IsNumber chars) :
    ReadsAlike (readNumber negative) chars := by
  cases isNumber with
  | @parts whole fraction exponent isWhole isFraction isExponent =>
      obtain ⟨outcome, reads⟩ := readsAlike_readAfterWhole negative
        (.ofWhole 0 whole) isFraction isExponent
      refine ⟨outcome, fun rest endsNumber => ?_⟩
      rw [List.append_assoc, readNumber_whole isWhole
        (isFraction.endsDigits isExponent endsNumber)]
      exact reads rest endsNumber

theorem IsNumber.exists_cons (isNumber : IsNumber chars) :
    ∃ digit tail, chars = digit :: tail ∧ digit.isDigit = true := by
  obtain ⟨isWhole, -, -⟩ := isNumber
  cases isWhole with
  | zero => exact ⟨_, _, rfl, by decide⟩
  | digits notZero areDigits =>
      exact ⟨_, _, rfl, areDigits _ List.mem_cons_self⟩

end Numbers

section Strings

variable {rest : List Char}

/-- The characters of a string between its quotes.  A backslash stands before a
letter, or before a code of four hexadecimal digits; the code may be half of a
surrogate pair. -/
inductive IsStringBody : List Char → Prop
  | nil : IsStringBody []
  | plain {char : Char} {body : List Char} (notQuote : char ≠ '"')
      (notBackslash : char ≠ '\\') (notControl : ¬ char.toNat < 0x20)
      (isBody : IsStringBody body) : IsStringBody (char :: body)
  | escape {letter char : Char} {body : List Char}
      (isEscaped : escapedChar? letter = some char)
      (isBody : IsStringBody body) : IsStringBody ('\\' :: letter :: body)
  | code {first second third fourth : Char} {body : List Char}
      (areDigits : ∀ digit ∈ [first, second, third, fourth],
        (hexDigit? digit).isSome)
      (isBody : IsStringBody body) :
      IsStringBody ('\\' :: 'u' :: first :: second :: third :: fourth :: body)

/-- The states in which the reader stands between the parts of a string. -/
inductive StringState.IsBetween : StringState → Prop
  | plain : IsBetween .plain
  | afterLeading (leading : Nat) : IsBetween (.afterLeading leading)

theorem readStringFrom_digits {first second third fourth : Char}
    {one two three four : Nat} (isOne : hexDigit? first = some one)
    (isTwo : hexDigit? second = some two)
    (isThree : hexDigit? third = some three)
    (isFour : hexDigit? fourth = some four) (collected rest : List Char)
    (leading : Option Nat) :
    readStringFrom collected (.hexDigits leading 0 0)
        (first :: second :: third :: fourth :: rest) =
      let code := 16 * (16 * (16 * one + two) + three) + four
      match hexChar? leading code with
      | some char => readStringFrom (char :: collected) .plain rest
      | none =>
          if leading.isNone && isLeadingSurrogate code then
            readStringFrom collected (.afterLeading code) rest
          else .error ⟨.loneSurrogate, byteLength rest⟩ := by
  cases isChar : hexChar? leading
      (16 * (16 * (16 * one + two) + three) + four) <;>
    simp only [readStringFrom, isOne, isTwo, isThree, isFour, Nat.reduceLT,
      Nat.reduceAdd, if_true, if_false, Nat.lt_irrefl, Nat.mul_zero,
      Nat.zero_add, isChar]

theorem ne_of_escapedChar?_eq_some {letter char : Char}
    (isEscaped : escapedChar? letter = some char) : letter ≠ 'u' := by
  rintro rfl
  cases isEscaped

theorem readStringFrom_escape {letter char : Char} (collected rest : List Char)
    (isEscaped : escapedChar? letter = some char) :
    readStringFrom collected .plain ('\\' :: letter :: rest) =
      readStringFrom (char :: collected) .plain rest := by
  rw [readStringFrom, if_neg (by decide), if_pos rfl, readStringFrom,
    if_neg (ne_of_escapedChar?_eq_some isEscaped), isEscaped]

/-- The rest of a string, with its closing quote, is read alike between any two
parts of the string. -/
theorem readsAlike_readStringFrom {body : List Char}
    (isBody : IsStringBody body) (collected : List Char) {state : StringState}
    (isBetween : state.IsBetween) :
    ReadsAlike (readStringFrom collected state) (body ++ ['"']) := by
  induction isBody generalizing collected state with
  | nil =>
      cases isBetween with
      | plain => exact ⟨_, fun rest _ => .of_ok rfl⟩
      | afterLeading leading => exact ⟨_, fun rest _ => .of_error rfl⟩
  | plain notQuote notBackslash notControl isBody ih =>
      unfold ReadsAlike
      cases isBetween with
      | plain =>
          simp only [List.cons_append, readStringFrom, notQuote, notBackslash,
            notControl, if_false]
          exact ih _ .plain
      | afterLeading leading =>
          simp only [List.cons_append, readStringFrom, notBackslash, if_false]
          exact ⟨_, fun rest _ => .of_error rfl⟩
  | @escape letter char body isEscaped isBody ih =>
      cases isBetween with
      | plain =>
          obtain ⟨outcome, reads⟩ := ih (char :: collected) .plain
          refine ⟨outcome, fun rest endsNumber => ?_⟩
          simp only [List.cons_append, readStringFrom_escape _ _ isEscaped]
          exact reads rest endsNumber
      | afterLeading leading =>
          have notCode := ne_of_escapedChar?_eq_some isEscaped
          unfold ReadsAlike
          simp only [List.cons_append, readStringFrom, notCode, if_true,
            if_false]
          exact ⟨_, fun rest _ => .of_error rfl⟩
  | @code first second third fourth body areDigits isBody ih =>
      have opens (leading : Option Nat) :
          ReadsAlike (readStringFrom collected (.hexDigits leading 0 0))
            (first :: second :: third :: fourth :: body ++ ['"']) := by
        simp only [List.forall_mem_cons, Option.isSome_iff_exists] at areDigits
        obtain ⟨⟨one, isOne⟩, ⟨two, isTwo⟩, ⟨three, isThree⟩, ⟨four, isFour⟩,
          -⟩ := areDigits
        unfold ReadsAlike
        simp only [List.cons_append,
          readStringFrom_digits isOne isTwo isThree isFour]
        split
        · exact ih _ .plain
        · split
          · exact ih _ (.afterLeading _)
          · exact ⟨_, fun rest _ => .of_error rfl⟩
      cases isBetween with
      | plain => exact opens none
      | afterLeading leading => exact opens (some leading)

/-- A string behind its opening quote. -/
theorem readsAlike_readString {body : List Char} (isBody : IsStringBody body) :
    ReadsAlike readString (body ++ ['"']) :=
  readsAlike_readStringFrom isBody [] .plain

end Strings

/-- The texts of the values without brackets. -/
inductive IsScalar : List Char → Prop
  | null : IsScalar ['n', 'u', 'l', 'l']
  | true : IsScalar ['t', 'r', 'u', 'e']
  | false : IsScalar ['f', 'a', 'l', 's', 'e']
  | number {chars : List Char} (isNumber : IsNumber chars) : IsScalar chars
  | negative {chars : List Char} (isNumber : IsNumber chars) :
      IsScalar ('-' :: chars)
  | string {body : List Char} (isBody : IsStringBody body) :
      IsScalar ('"' :: (body ++ ['"']))

section Scalars

variable {chars rest : List Char}

theorem readScalar_of_isDigit {digit : Char} (isDigit : digit.isDigit = true) :
    readScalar (digit :: rest) = readNumber false (digit :: rest) := by
  unfold readScalar
  split <;> simp_all

theorem readScalar_quote :
    readScalar ('"' :: rest) =
      (readString rest).map fun reading => (.string reading.1, reading.2) := by
  rw [readScalar]
  cases readString rest <;> rfl

theorem ReadsAs.map {Other : Type} {outcome : Except Fault Result}
    {reading : Reading Result} (reads : ReadsAs outcome rest reading)
    (build : Result → Other) :
    ReadsAs (outcome.map build) rest
      (reading.map fun reading => (build reading.1, reading.2)) := by
  rcases reads with
    ⟨result, left, rfl, rfl, sameRest⟩ | ⟨fault, unread, rfl, rfl⟩
  · exact .inl ⟨_, left, rfl, rfl, sameRest⟩
  · exact .of_error rfl

theorem readsAlike_readScalar (isScalar : IsScalar chars) :
    ReadsAlike readScalar chars := by
  cases isScalar with
  | null => exact ⟨_, fun rest _ => .of_ok rfl⟩
  | true => exact ⟨_, fun rest _ => .of_ok rfl⟩
  | false => exact ⟨_, fun rest _ => .of_ok rfl⟩
  | number isNumber =>
      obtain ⟨outcome, reads⟩ := readsAlike_readNumber Bool.false isNumber
      refine ⟨outcome, fun rest endsNumber => ?_⟩
      have isRead := reads rest endsNumber
      obtain ⟨digit, tail, rfl, isDigit⟩ := isNumber.exists_cons
      rw [List.cons_append] at isRead ⊢
      rw [readScalar_of_isDigit isDigit]
      exact isRead
  | negative isNumber => exact readsAlike_readNumber Bool.true isNumber
  | string isBody =>
      obtain ⟨outcome, reads⟩ := readsAlike_readString isBody
      refine ⟨outcome.map Json.string, fun rest endsNumber => ?_⟩
      rw [List.cons_append, readScalar_quote]
      exact (reads rest endsNumber).map Json.string

/-- A scalar begins with a character that is no white space and no bracket. -/
theorem IsScalar.exists_cons (isScalar : IsScalar chars) :
    ∃ char tail, chars = char :: tail ∧ isSpace char = Bool.false ∧
      char ∉ ['[', ']', '{', '}'] := by
  have ofNumber (isNumber : IsNumber chars) :
      ∃ char tail, chars = char :: tail ∧ isSpace char = Bool.false ∧
        char ∉ ['[', ']', '{', '}'] := by
    obtain ⟨digit, tail, isText, isDigit⟩ := isNumber.exists_cons
    refine ⟨digit, tail, isText, ?_, ?_⟩
    · rw [Bool.eq_false_iff]
      intro isSpace
      simp only [Json.isSpace, Bool.or_eq_true, decide_eq_true_eq] at isSpace
      rcases isSpace with ((rfl | rfl) | rfl) | rfl <;>
        exact absurd isDigit (by decide)
    · intro isBracket
      simp only [List.mem_cons, List.not_mem_nil, or_false] at isBracket
      rcases isBracket with rfl | rfl | rfl | rfl <;>
        exact absurd isDigit (by decide)
  cases isScalar with
  | null => exact ⟨_, _, rfl, by decide, by decide⟩
  | true => exact ⟨_, _, rfl, by decide, by decide⟩
  | false => exact ⟨_, _, rfl, by decide, by decide⟩
  | number isNumber => exact ofNumber isNumber
  | negative => exact ⟨_, _, rfl, by decide, by decide⟩
  | string => exact ⟨_, _, rfl, by decide, by decide⟩

end Scalars

end Json

end KeyedPaths
