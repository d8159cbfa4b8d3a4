import KeyedPaths.Proofs.JsonTokens

/-!
# The grammar of JSON texts

A value that is written down keeps its scalars and its keys as they are spelled.
Its texts differ in their white space only, and every one of them is read alike:
the scalars and keys are read one by one in their order, and the first one that
cannot be read, or the first bracket that goes too deep, is the fault.
-/

namespace KeyedPaths

namespace Json

/-- A value as it is written.  Scalars are kept as their texts, and keys as the
characters between their quotes. -/
inductive Written where
  | scalar (chars : List Char)
  | array (elements : List Written)
  | object (members : List (List Char × Written))

def AreSpaces (chars : List Char) : Prop :=
  ∀ char ∈ chars, isSpace char = true

/-- The text of a member in front of its value. -/
structure KeyText where
  before : List Char
  key : List Char
  after : List Char
  spacesBefore : AreSpaces before
  isBody : IsStringBody key
  spacesAfter : AreSpaces after

def KeyText.chars (text : KeyText) : List Char :=
  text.before ++ '"' :: (text.key ++ '"' :: (text.after ++ [':']))

/-- The characters of an array or object behind its opening bracket. -/
def listText (inside : List Char) (parts : List (List Char)) (close : Char) :
    List Char :=
  inside ++ ([','].intercalate parts ++ [close])

theorem length_listText (inside : List Char) (parts : List (List Char))
    (close : Char) :
    (listText inside parts close).length =
      inside.length + ([','].intercalate parts).length + 1 := by
  rw [listText, List.length_append, List.length_append, List.length_singleton]
  omega

/-- The characters are a text of the value.  White space may stand around every
value and every key. -/
inductive Spells : Written → List Char → Prop
  | scalar {chars : List Char} (isScalar : IsScalar chars) :
      Spells (.scalar chars) chars
  | spaced {value : Written} {before chars after : List Char}
      (spacesBefore : AreSpaces before) (isSpelled : Spells value chars)
      (spacesAfter : AreSpaces after) :
      Spells value (before ++ (chars ++ after))
  | array {inside : List Char} (spacesInside : AreSpaces inside)
      {pieces : List (Written × List Char)}
      (areSpelled : ∀ piece ∈ pieces, Spells piece.1 piece.2) :
      Spells (.array (pieces.map Prod.fst))
        ('[' :: listText inside (pieces.map Prod.snd) ']')
  | object {inside : List Char} (spacesInside : AreSpaces inside)
      {pieces : List (KeyText × Written × List Char)}
      (areSpelled : ∀ piece ∈ pieces, Spells piece.2.1 piece.2.2) :
      Spells (.object (pieces.map fun piece => (piece.1.key, piece.2.1)))
        ('{' :: listText inside
          (pieces.map fun piece => piece.1.chars ++ piece.2.2) '}')

/-- A key, given the characters between its quotes. -/
def keyOfBody (body : List Char) : Except Fault String :=
  outcomeOf (readString (body ++ ['"']))

def memberOfParts (valueOf : Written → Except Fault Json)
    (member : List Char × Written) : Except Fault (String × Json) := do
  let key ← keyOfBody member.1
  let value ← valueOf member.2
  return (key, value)

/-- The value that is read for a written one, if no more brackets are open at
once than the depth allows. -/
def Written.valueWithin : Nat → Written → Except Fault Json
  | _, .scalar chars => outcomeOf (readScalar chars)
  | 0, .array _ => .error .nestingTooDeep
  | 0, .object _ => .error .nestingTooDeep
  | depth + 1, .array elements =>
      (elements.mapM (valueWithin depth)).map .array
  | depth + 1, .object members =>
      (members.mapM (memberOfParts (valueWithin depth))).map .object

section Spaces

variable {chars rest : List Char}

theorem skipSpace_cons {char : Char} (notSpace : isSpace char = false) :
    skipSpace (char :: rest) = char :: rest := by
  rw [skipSpace, List.dropWhile_cons_of_neg (Bool.eq_false_iff.1 notSpace)]

theorem skipSpace_append (areSpaces : AreSpaces chars) :
    skipSpace (chars ++ rest) = skipSpace rest :=
  List.dropWhile_append_of_pos areSpaces

@[simp]
theorem skipSpace_skipSpace (text : List Char) :
    skipSpace (skipSpace text) = skipSpace text := by
  induction text with
  | nil => rfl
  | cons char rest ih =>
      cases isSpaceFirst : isSpace char with
      | true =>
          have isSkipped : skipSpace (char :: rest) = skipSpace rest :=
            List.dropWhile_cons_of_pos isSpaceFirst
          rw [isSkipped, ih]
      | false => rw [skipSpace_cons isSpaceFirst, skipSpace_cons isSpaceFirst]

theorem EndsNumber.cons {char : Char} (noContinuation : continuesNumber char = false) :
    EndsNumber (char :: rest) := by
  rintro _ ⟨⟩
  exact noContinuation

theorem continuesNumber_of_isSpace {char : Char} (isSpace : isSpace char = true) :
    continuesNumber char = false := by
  simp only [Json.isSpace, Bool.or_eq_true, decide_eq_true_eq] at isSpace
  rcases isSpace with ((rfl | rfl) | rfl) | rfl <;> decide

theorem EndsNumber.append (areSpaces : AreSpaces chars)
    (endsNumber : EndsNumber rest) : EndsNumber (chars ++ rest) := by
  cases chars with
  | nil => exact endsNumber
  | cons char chars =>
      exact .cons (continuesNumber_of_isSpace
        (areSpaces char List.mem_cons_self))

end Spaces

section Lists

variable {Part Item : Type} {rest : List Char}

namespace ReadsAs

/-- A text is read on behind its first part, or not at all if this part cannot
be read. -/
theorem bind {outcome : Except Fault Part} {later : Part → Except Fault Result}
    {first : Reading Part} {reading : Reading Result} {next : List Char}
    (reads : ReadsAs outcome next first)
    (readsLater : ∀ part left, first = .ok (part, left) →
      skipSpace left = skipSpace next → ReadsAs (later part) rest reading)
    (keepsFault : ∀ failure, first = .error failure →
      reading = .error failure) :
    ReadsAs (outcome >>= later) rest reading := by
  rcases reads with
    ⟨part, left, rfl, isRead, sameRest⟩ | ⟨fault, unread, rfl, isFault⟩
  · exact readsLater part left isRead sameRest
  · exact .of_error (keepsFault _ isFault)

theorem of_skipSpace_eq {outcome : Except Fault Result}
    {reading : Reading Result} {next : List Char}
    (reads : ReadsAs outcome next reading)
    (sameRest : skipSpace next = skipSpace rest) :
    ReadsAs outcome rest reading := by
  rcases reads with
    ⟨result, left, rfl, isRead, isNext⟩ | ⟨fault, unread, rfl, isFault⟩
  · exact .inl ⟨result, left, rfl, isRead, isNext.trans sameRest⟩
  · exact .of_error isFault

end ReadsAs

/-- A text begins, behind white space, with another character than the one that
closes a list. -/
def BeginsPart (close : Char) (text : List Char) : Prop :=
  ∃ char tail, skipSpace text = char :: tail ∧ char ≠ close

/-- What the readers of arrays and of objects have in common.  Behind the opening
bracket stands the closing one or the first part.  Behind a part the reader goes
on at a comma, or ends at the closing bracket. -/
structure ReadsList (readPart : List Char → Reading Part) (close : Char)
    (build : List Part → Json)
    (readBracket : Nat → List Char → Reading Json)
    (readParts : List Part → Nat → List Char → Reading Json) : Prop where
  notSpace : isSpace close = false
  endsNumber : continuesNumber close = false
  of_empty {bound : Nat} {text rest : List Char}
    (isClose : skipSpace text = close :: rest) :
    readBracket bound text = .ok (build [], rest)
  of_begin {bound : Nat} {text : List Char}
    (beginsPart : BeginsPart close text) :
    readBracket bound text = readParts [] bound (skipSpace text)
  of_error {collected : List Part} {bound : Nat} {text : List Char}
    {failure : Failure} (isFault : readPart text = .error failure) :
    readParts collected (bound + 1) text = .error failure
  of_close {collected : List Part} {bound : Nat} {text left rest : List Char}
    {part : Part} (isRead : readPart text = .ok (part, left))
    (isClose : skipSpace left = close :: rest) :
    readParts collected (bound + 1) text =
      .ok (build (collected.reverse ++ [part]), rest)
  of_comma {collected : List Part} {bound : Nat} {text left next : List Char}
    {part : Part} (isRead : readPart text = .ok (part, left))
    (isComma : skipSpace left = ',' :: next)
    (beginsPart : BeginsPart close next) :
    readParts collected (bound + 1) text =
      readParts (part :: collected) bound (skipSpace next)

theorem readsList_array (readElement : List Char → Reading Json) :
    ReadsList readElement ']' .array (readArray readElement)
      (readElements readElement) where
  notSpace := by decide
  endsNumber := by decide
  of_empty isClose := by rw [readArray, isClose]; rfl
  of_begin beginsPart := by
    obtain ⟨char, tail, isBegin, notClose⟩ := beginsPart
    rw [readArray, isBegin]
    split
    next noText => cases noText
    next isClose =>
      cases isClose
      exact absurd rfl notClose
    next => rfl
  of_error isFault := by rw [readElements, isFault]
  of_close isRead isClose := by
    rw [readElements, isRead]
    simp only [isClose, List.reverse_cons]
  of_comma isRead isComma beginsPart := by
    obtain ⟨char, tail, isBegin, notClose⟩ := beginsPart
    rw [readElements, isRead]
    simp only [isComma, isBegin]
    split
    next isClose =>
      cases isClose
      exact absurd rfl notClose
    next => rfl

theorem readsList_object (readValue : List Char → Reading Json) :
    ReadsList (readMember readValue) '}' .object (readObject readValue)
      (readMembers readValue) where
  notSpace := by decide
  endsNumber := by decide
  of_empty isClose := by rw [readObject, isClose]; rfl
  of_begin beginsPart := by
    obtain ⟨char, tail, isBegin, notClose⟩ := beginsPart
    rw [readObject, isBegin]
    split
    next noText => cases noText
    next isClose =>
      cases isClose
      exact absurd rfl notClose
    next => rfl
  of_error isFault := by rw [readMembers, isFault]
  of_close isRead isClose := by
    rw [readMembers, isRead]
    simp only [isClose, List.reverse_cons]
  of_comma isRead isComma beginsPart := by
    obtain ⟨char, tail, isBegin, notClose⟩ := beginsPart
    rw [readMembers, isRead]
    simp only [isComma, isBegin]
    split
    next isClose =>
      cases isClose
      exact absurd rfl notClose
    next => rfl

/-- A part that has been read joins the parts that are given in reverse. -/
theorem reverse_append_cons (collected : List Part) (part : Part)
    (parts : List Part) :
    collected.reverse ++ part :: parts =
      (part :: collected).reverse ++ parts := by
  rw [List.reverse_cons, List.append_assoc, List.singleton_append]

theorem map_mapM_cons (outcome : Item → Except Fault Part)
    (build : List Part → Json) (first : Item) (items : List Item) :
    ((first :: items).mapM outcome).map build =
      outcome first >>= fun part =>
        (items.mapM outcome).map fun parts => build (part :: parts) := by
  rw [List.mapM_cons]
  cases outcome first with
  | error fault => rfl
  | ok part => cases items.mapM outcome <;> rfl

theorem BeginsPart.intercalate {close : Char} {first : List Char}
    (beginsFirst : ∀ rest, BeginsPart close (first ++ rest))
    (parts : List (List Char)) (rest : List Char) :
    BeginsPart close ([','].intercalate (first :: parts) ++ rest) := by
  cases parts with
  | nil =>
      rw [List.intercalate_singleton]
      exact beginsFirst rest
  | cons second parts =>
      rw [List.intercalate_cons_cons, List.append_assoc, List.append_assoc]
      exact beginsFirst _

namespace ReadsList

variable {readPart : List Char → Reading Part} {close : Char}
  {build : List Part → Json} {readBracket : Nat → List Char → Reading Json}
  {readParts : List Part → Nat → List Char → Reading Json}
  (readsList : ReadsList readPart close build readBracket readParts)
  {text : Item → List Char} {outcome : Item → Except Fault Part}

include readsList

/-- A list of parts is read as far as its parts are. -/
theorem readsAs_intercalate (collected : List Part) {bound : Nat}
    {first : Item} {items : List Item}
    (readsEach : ∀ item ∈ first :: items, ∀ rest, EndsNumber rest →
      ReadsAs (outcome item) rest (readPart (skipSpace (text item ++ rest))))
    (beginsEach : ∀ item ∈ items, ∀ rest, BeginsPart close (text item ++ rest))
    (isBound : items.length < bound) :
    ReadsAs
      (((first :: items).mapM outcome).map fun parts =>
        build (collected.reverse ++ parts))
      rest
      (readParts collected bound (skipSpace
        ([','].intercalate ((first :: items).map text) ++ close :: rest))) := by
  -- The induction is on the parts behind the first one, for which the bound
  -- leaves enough steps.
  induction items generalizing first collected bound with
  | nil =>
      obtain ⟨bound, rfl⟩ := Nat.exists_eq_add_of_lt isBound
      rw [map_mapM_cons, List.map_singleton, List.intercalate_singleton]
      refine (readsEach first List.mem_cons_self (close :: rest)
        (.cons readsList.endsNumber)).bind (fun part left isRead sameRest => ?_)
        fun failure isFault => readsList.of_error isFault
      rw [skipSpace_cons readsList.notSpace] at sameRest
      exact .of_ok (readsList.of_close isRead sameRest)
  | cons second items ih =>
      obtain ⟨bound, rfl⟩ := Nat.exists_eq_add_of_lt isBound
      rw [List.forall_mem_cons] at readsEach beginsEach
      rw [map_mapM_cons, List.map_cons, List.map_cons,
        List.intercalate_cons_cons, List.append_assoc, List.append_assoc,
        List.singleton_append]
      refine (readsEach.1 _ (.cons (by decide))).bind
        (fun part left isRead sameRest => ?_)
        fun failure isFault => readsList.of_error isFault
      rw [skipSpace_cons (by decide)] at sameRest
      rw [readsList.of_comma isRead sameRest
        (.intercalate beginsEach.1 (items.map text) (close :: rest))]
      simp only [reverse_append_cons]
      refine ih _ readsEach.2 beginsEach.2 ?_
      rw [List.length_cons]
      omega

theorem readsAs_listText {inside : List Char}
    (spacesInside : AreSpaces inside) {bound : Nat} {items : List Item}
    (readsEach : ∀ item ∈ items, ∀ rest, EndsNumber rest →
      ReadsAs (outcome item) rest (readPart (skipSpace (text item ++ rest))))
    (beginsEach : ∀ item ∈ items, ∀ rest, BeginsPart close (text item ++ rest))
    (isBound : items.length ≤ bound) :
    ReadsAs ((items.mapM outcome).map build) rest
      (readBracket bound (listText inside (items.map text) close ++ rest)) := by
  rw [listText, List.append_assoc, List.append_assoc, List.singleton_append]
  cases items with
  | nil =>
      refine .of_ok (readsList.of_empty ?_)
      rw [skipSpace_append spacesInside]
      exact skipSpace_cons readsList.notSpace
  | cons first items =>
      rw [List.forall_mem_cons] at beginsEach
      have beginsPart : BeginsPart close (inside ++
          ([','].intercalate ((first :: items).map text) ++ close :: rest)) := by
        rw [BeginsPart, skipSpace_append spacesInside]
        exact BeginsPart.intercalate beginsEach.1 (items.map text) _
      rw [readsList.of_begin beginsPart, skipSpace_append spacesInside]
      exact readsList.readsAs_intercalate [] readsEach beginsEach.2 isBound

end ReadsList

-- A text is longer than each part of a list in it, and has a character for each
-- of them, so that the bound that the reader takes from it is not reached.
theorem length_le_length_intercalate {part : List Char}
    {parts : List (List Char)} (isPart : part ∈ parts) :
    part.length ≤ ([','].intercalate parts).length := by
  induction parts with
  | nil => cases isPart
  | cons first parts ih =>
      cases parts with
      | nil => simp [List.mem_singleton.1 isPart]
      | cons second parts =>
          rw [List.intercalate_cons_cons, List.length_append,
            List.length_append]
          rcases List.mem_cons.1 isPart with rfl | isLater
          · omega
          · have isShorter := ih isLater
            omega

theorem length_le_length_intercalate_succ (parts : List (List Char)) :
    parts.length ≤ ([','].intercalate parts).length + 1 := by
  induction parts with
  | nil => exact Nat.zero_le _
  | cons first parts ih =>
      cases parts with
      | nil => exact Nat.succ_le_succ (Nat.zero_le _)
      | cons second parts =>
          rw [List.intercalate_cons_cons, List.length_append,
            List.length_append, List.length_cons, List.length_singleton]
          omega

end Lists

section Values

variable {value : Written} {chars rest : List Char} {bound depth : Nat}

theorem readValue_skipSpace (text : List Char) :
    readValue bound depth (skipSpace text) = readValue bound depth text := by
  cases depth <;> rw [readValue, readValue, skipSpace_skipSpace]

theorem readValue_eq_readScalar {char : Char} (notSpace : isSpace char = false)
    (notArray : char ≠ '[') (notObject : char ≠ '{') :
    readValue bound depth (char :: rest) = readScalar (char :: rest) := by
  cases depth <;> rw [readValue, skipSpace_cons notSpace] <;>
    split <;> simp_all

theorem Spells.beginsPart (isSpelled : Spells value chars) (rest : List Char) :
    BeginsPart ']' (chars ++ rest) := by
  induction isSpelled generalizing rest with
  | scalar isScalar =>
      obtain ⟨char, tail, rfl, notSpace, noBracket⟩ := isScalar.exists_cons
      refine ⟨char, tail ++ rest, skipSpace_cons notSpace, ?_⟩
      rintro rfl
      exact noBracket (by decide)
  | spaced spacesBefore isSpelled spacesAfter ih =>
      rw [List.append_assoc, List.append_assoc, BeginsPart,
        skipSpace_append spacesBefore]
      exact ih _
  | array => exact ⟨_, _, skipSpace_cons (by decide), by decide⟩
  | object => exact ⟨_, _, skipSpace_cons (by decide), by decide⟩

theorem skipSpace_keyText (text : KeyText) :
    skipSpace (text.chars ++ rest) =
      '"' :: (text.key ++ ['"'] ++ (text.after ++ ':' :: rest)) := by
  rw [KeyText.chars, List.append_assoc, skipSpace_append text.spacesBefore,
    List.cons_append, skipSpace_cons (by decide)]
  simp

theorem KeyText.beginsPart (text : KeyText) (rest : List Char) :
    BeginsPart '}' (text.chars ++ rest) :=
  ⟨_, _, skipSpace_keyText text, by decide⟩

theorem readsAs_readMember {readValue : List Char → Reading Json}
    {outcome : Except Fault Json} (text : KeyText)
    (reads : ReadsAs outcome rest (readValue (chars ++ rest))) :
    ReadsAs
      (keyOfBody text.key >>= fun key => outcome >>= fun value =>
        pure (key, value))
      rest
      (readMember readValue (skipSpace (text.chars ++ (chars ++ rest)))) := by
  have endsNumber : EndsNumber (text.after ++ ':' :: (chars ++ rest)) :=
    .append text.spacesAfter (.cons (by decide))
  rw [skipSpace_keyText, readMember]
  refine ((readsAlike_readString text.isBody).readsAs endsNumber).bind
    (fun key left isRead sameRest => ?_) fun failure isFault => by rw [isFault]
  rw [skipSpace_append text.spacesAfter, skipSpace_cons (by decide)] at sameRest
  rw [isRead]
  simp only [sameRest]
  refine reads.bind (fun value left isRead sameRest => ?_)
    fun failure isFault => by rw [isFault]
  exact .inl ⟨(key, value), left, rfl, by rw [isRead], sameRest⟩

theorem readsAs_array {inside : List Char} (spacesInside : AreSpaces inside)
    {pieces : List (Written × List Char)}
    (areSpelled : ∀ piece ∈ pieces, Spells piece.1 piece.2)
    (isBound : pieces.length ≤ bound)
    (readsEach : ∀ depth, ∀ piece ∈ pieces, ∀ rest, EndsNumber rest →
      ReadsAs (piece.1.valueWithin depth) rest
        (readValue bound depth (piece.2 ++ rest))) :
    ReadsAs ((Written.array (pieces.map Prod.fst)).valueWithin depth) rest
      (readValue bound depth
        ('[' :: listText inside (pieces.map Prod.snd) ']' ++ rest)) := by
  cases depth with
  | zero => exact .of_error rfl
  | succ depth =>
      have opens (text : List Char) :
          readValue bound (depth + 1) ('[' :: text) =
            readArray (readValue bound depth) bound text := rfl
      rw [List.cons_append, opens, Written.valueWithin, List.mapM_map]
      refine (readsList_array _).readsAs_listText spacesInside
        (fun piece isPiece rest endsNumber => ?_)
        (fun piece isPiece => (areSpelled piece isPiece).beginsPart) isBound
      rw [readValue_skipSpace]
      exact readsEach depth piece isPiece rest endsNumber

theorem readsAs_object {inside : List Char} (spacesInside : AreSpaces inside)
    {pieces : List (KeyText × Written × List Char)}
    (isBound : pieces.length ≤ bound)
    (readsEach : ∀ depth, ∀ piece ∈ pieces, ∀ rest, EndsNumber rest →
      ReadsAs (piece.2.1.valueWithin depth) rest
        (readValue bound depth (piece.2.2 ++ rest))) :
    ReadsAs
      ((Written.object (pieces.map fun piece =>
        (piece.1.key, piece.2.1))).valueWithin depth)
      rest
      (readValue bound depth
        ('{' :: listText inside
          (pieces.map fun piece => piece.1.chars ++ piece.2.2) '}' ++
          rest)) := by
  cases depth with
  | zero => exact .of_error rfl
  | succ depth =>
      have opens (text : List Char) :
          readValue bound (depth + 1) ('{' :: text) =
            readObject (readValue bound depth) bound text := rfl
      rw [List.cons_append, opens, Written.valueWithin, List.mapM_map]
      refine (readsList_object _).readsAs_listText spacesInside
        (fun piece isPiece rest endsNumber => ?_)
        (fun piece isPiece rest => ?_) isBound
      · rw [List.append_assoc]
        exact readsAs_readMember piece.1
          (readsEach depth piece isPiece rest endsNumber)
      · rw [List.append_assoc]
        exact piece.1.beginsPart _

/-- Reading a text of a written value gives what the value says, with as many
brackets as the depth allows. -/
theorem readsAs_readValue (isSpelled : Spells value chars)
    (isBound : chars.length ≤ bound) (endsNumber : EndsNumber rest) :
    ReadsAs (value.valueWithin depth) rest
      (readValue bound depth (chars ++ rest)) := by
  induction isSpelled generalizing depth rest with
  | @scalar chars isScalar =>
      have isValue : (Written.scalar chars).valueWithin depth =
          outcomeOf (readScalar chars) := by
        cases depth <;> rfl
      have reads := (readsAlike_readScalar isScalar).readsAs endsNumber
      obtain ⟨char, tail, rfl, notSpace, noBracket⟩ := isScalar.exists_cons
      simp only [List.mem_cons, List.not_mem_nil, or_false, not_or] at noBracket
      rw [isValue, List.cons_append,
        readValue_eq_readScalar notSpace noBracket.1 noBracket.2.2.1]
      exact reads
  | @spaced value before chars after spacesBefore isSpelled spacesAfter ih =>
      rw [List.length_append, List.length_append] at isBound
      have reads : ReadsAs (value.valueWithin depth) (after ++ rest)
          (readValue bound depth (chars ++ (after ++ rest))) :=
        ih (by omega) (endsNumber.append spacesAfter)
      rw [List.append_assoc, List.append_assoc, ← readValue_skipSpace,
        skipSpace_append spacesBefore, readValue_skipSpace]
      exact reads.of_skipSpace_eq (skipSpace_append spacesAfter)
  | @array inside spacesInside pieces areSpelled ih =>
      rw [List.length_cons, length_listText] at isBound
      refine readsAs_array spacesInside areSpelled ?_
        fun depth piece isPiece rest endsNumber =>
          ih piece isPiece ?_ endsNumber
      · have isCount :=
          length_le_length_intercalate_succ (pieces.map Prod.snd)
        rw [List.length_map] at isCount
        omega
      · have isPart : piece.2 ∈ pieces.map Prod.snd :=
          List.mem_map_of_mem isPiece
        have isShorter := length_le_length_intercalate isPart
        omega
  | @object inside spacesInside pieces areSpelled ih =>
      rw [List.length_cons, length_listText] at isBound
      refine readsAs_object spacesInside ?_
        fun depth piece isPiece rest endsNumber =>
          ih piece isPiece ?_ endsNumber
      · have isCount := length_le_length_intercalate_succ
          (pieces.map fun piece => piece.1.chars ++ piece.2.2)
        rw [List.length_map] at isCount
        omega
      · have isPart : piece.1.chars ++ piece.2.2 ∈
            pieces.map fun piece => piece.1.chars ++ piece.2.2 :=
          List.mem_map.2 ⟨piece, isPiece, rfl⟩
        have isShorter := length_le_length_intercalate isPart
        rw [List.length_append] at isShorter
        omega

/-- A text is read as the value that it spells, or not at all. -/
theorem ofText_of_spells {text : String} (isSpelled : Spells value text.toList) :
    (∃ document, value.valueWithin greatestDepth = .ok document ∧
        ofText text = .ok document) ∨
      ∃ fault position, value.valueWithin greatestDepth = .error fault ∧
        ofText text = .error ⟨fault, position⟩ := by
  have reads := @readsAs_readValue value text.toList [] text.toList.length
    greatestDepth isSpelled (Nat.le_refl _) nofun
  rw [List.append_nil] at reads
  rcases reads with ⟨document, left, isValue, isRead, sameRest⟩ |
    ⟨fault, unread, isValue, isFault⟩
  · refine .inl ⟨document, isValue, ?_⟩
    have noRest : skipSpace left = [] := sameRest
    rw [ofText, readAll, isRead]
    simp only [bind, Except.bind, noRest]
    rfl
  · have isError : readAll text.toList = .error ⟨fault, unread⟩ := by
      rw [readAll, isFault]
      rfl
    exact .inr ⟨fault, _, isValue, by rw [ofText, isError]; rfl⟩

end Values

end Json

end KeyedPaths
