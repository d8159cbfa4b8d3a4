import KeyedPaths.JsonText
import KeyedPaths.Proofs.JsonGrammar

/-!
# Reading compact texts

A compact text is read as the value that it was written from, if no more
brackets are open at once than the reader allows.  Otherwise the first bracket
that goes too deep is the fault, because all that stands before it is read.

This is stated for values without numbers: the text of a floating point number
depends on the arithmetic of the machine.
-/

namespace KeyedPaths

namespace Json

section Strings

theorem hexDigit?_digitChar : ∀ digit < 16,
    hexDigit? (Nat.digitChar digit) = some digit := by
  decide

theorem escapedChar?_of_escapeLetter? {char letter : Char}
    (isLetter : escapeLetter? char = some letter) :
    escapedChar? letter = some char := by
  unfold escapeLetter? at isLetter
  split at isLetter <;> cases isLetter <;> decide

theorem hexChar?_of_lt {code : Nat} (isLow : code < 0xD800) :
    hexChar? none code = some (Char.ofNat code) := by
  have notLeading : isLeadingSurrogate code = false := by
    rw [isLeadingSurrogate, Bool.and_eq_false_iff]
    exact .inl (decide_eq_false (by omega))
  have notTrailing : isTrailingSurrogate code = false := by
    rw [isTrailingSurrogate, Bool.and_eq_false_iff]
    exact .inl (decide_eq_false (by omega))
  rw [hexChar?, notLeading, notTrailing]
  rfl

theorem readStringFrom_code {high low : Nat} (collected rest : List Char)
    (isHigh : high < 16) (isLow : low < 16) :
    readStringFrom collected .plain
        ('\\' :: 'u' :: '0' :: '0' :: Nat.digitChar high ::
          Nat.digitChar low :: rest) =
      readStringFrom (Char.ofNat (16 * high + low) :: collected) .plain
        rest := by
  have isZero : hexDigit? '0' = some 0 := by decide
  have isCode : hexChar? none (16 * high + low) =
      some (Char.ofNat (16 * high + low)) := hexChar?_of_lt (by omega)
  rw [readStringFrom, if_neg (by decide), if_pos rfl, readStringFrom,
    if_pos rfl, readStringFrom_digits isZero isZero
      (hexDigit?_digitChar high isHigh) (hexDigit?_digitChar low isLow)]
  simp only [Nat.mul_zero, Nat.zero_add, isCode]

/-- A written character is read as this character. -/
theorem readStringFrom_quoteChar (collected rest : List Char) (char : Char) :
    readStringFrom collected .plain (quoteChar char ++ rest) =
      readStringFrom (char :: collected) .plain rest := by
  unfold quoteChar
  split
  next letter isLetter =>
    exact readStringFrom_escape collected rest
      (escapedChar?_of_escapeLetter? isLetter)
  next noLetter =>
    split
    next isControl =>
      have isSplit : 16 * (char.toNat / 16) + char.toNat % 16 = char.toNat :=
        Nat.div_add_mod _ _
      have isRead := readStringFrom_code collected rest
        (show char.toNat / 16 < 16 by omega)
        (show char.toNat % 16 < 16 by omega)
      rw [isSplit, Char.ofNat_toNat] at isRead
      exact isRead
    next notControl =>
      have notQuote : char ≠ '"' := by
        rintro rfl
        cases noLetter
      have notBackslash : char ≠ '\\' := by
        rintro rfl
        cases noLetter
      rw [List.singleton_append, readStringFrom, if_neg notQuote,
        if_neg notBackslash, if_neg notControl]

theorem readStringFrom_flatMap_quoteChar (collected chars rest : List Char) :
    readStringFrom collected .plain
        (chars.flatMap quoteChar ++ '"' :: rest) =
      .ok (String.ofList (collected.reverse ++ chars), rest) := by
  induction chars generalizing collected with
  | nil => simp [readStringFrom]
  | cons char chars ih =>
      rw [List.flatMap_cons, List.append_assoc, readStringFrom_quoteChar, ih,
        List.reverse_cons, List.append_assoc, List.singleton_append]

theorem readString_flatMap_quoteChar (text : String) (rest : List Char) :
    readString (text.toList.flatMap quoteChar ++ '"' :: rest) =
      .ok (text, rest) := by
  rw [readString, readStringFrom_flatMap_quoteChar, List.reverse_nil,
    List.nil_append, String.ofList_toList]

theorem isStringBody_quoteChar (char : Char) {body : List Char}
    (isBody : IsStringBody body) : IsStringBody (quoteChar char ++ body) := by
  unfold quoteChar
  split
  next letter isLetter =>
    exact .escape (escapedChar?_of_escapeLetter? isLetter) isBody
  next noLetter =>
    split
    next isControl =>
      refine .code (fun digit isDigit => ?_) isBody
      have isHigh := hexDigit?_digitChar (char.toNat / 16) (by omega)
      have isLow := hexDigit?_digitChar (char.toNat % 16) (by omega)
      simp only [List.mem_cons, List.not_mem_nil, or_false] at isDigit
      rcases isDigit with rfl | rfl | rfl | rfl
      · decide
      · decide
      · rw [isHigh, Option.isSome_some]
      · rw [isLow, Option.isSome_some]
    next notControl =>
      refine .plain ?_ ?_ notControl isBody
      · rintro rfl
        cases noLetter
      · rintro rfl
        cases noLetter

theorem isStringBody_flatMap_quoteChar (chars : List Char) :
    IsStringBody (chars.flatMap quoteChar) := by
  induction chars with
  | nil => exact .nil
  | cons char chars ih =>
      rw [List.flatMap_cons]
      exact isStringBody_quoteChar char ih

end Strings

mutual

/-- The number of brackets that are open at once in the text of a value. -/
def nesting : Json → Nat
  | .null | .boolean _ | .integer _ | .float _ | .string _ => 0
  | .array elements => nestingOfAll elements + 1
  | .object members => nestingOfMembers members + 1

def nestingOfAll : List Json → Nat
  | [] => 0
  | element :: rest => max element.nesting (nestingOfAll rest)

def nestingOfMembers : List (String × Json) → Nat
  | [] => 0
  | (_, value) :: rest => max value.nesting (nestingOfMembers rest)

end

inductive NumberFree : Json → Prop
  | null : NumberFree .null
  | boolean (value : Bool) : NumberFree (.boolean value)
  | string (value : String) : NumberFree (.string value)
  | array {elements : List Json}
      (areFree : ∀ element ∈ elements, element.NumberFree) :
      NumberFree (.array elements)
  | object {members : List (String × Json)}
      (areFree : ∀ member ∈ members, member.2.NumberFree) :
      NumberFree (.object members)

theorem nestingOfAll_le_iff {elements : List Json} {depth : Nat} :
    nestingOfAll elements ≤ depth ↔
      ∀ element ∈ elements, element.nesting ≤ depth := by
  induction elements with
  | nil => simp [nestingOfAll]
  | cons element rest ih =>
      rw [nestingOfAll, Nat.max_le, ih, List.forall_mem_cons]

theorem nestingOfMembers_le_iff {members : List (String × Json)}
    {depth : Nat} :
    nestingOfMembers members ≤ depth ↔
      ∀ member ∈ members, member.2.nesting ≤ depth := by
  induction members with
  | nil => simp [nestingOfMembers]
  | cons member rest ih =>
      obtain ⟨key, value⟩ := member
      rw [nestingOfMembers, Nat.max_le, ih, List.forall_mem_cons]

section Compact

mutual

/-- A value as its compact text spells it. -/
def written : Json → Written
  | .array elements => .array (writtenElements elements)
  | .object members => .object (writtenMembers members)
  | scalar => .scalar scalar.compactChars

def writtenElements : List Json → List Written
  | [] => []
  | element :: rest => element.written :: writtenElements rest

def writtenMembers : List (String × Json) → List (List Char × Written)
  | [] => []
  | (key, value) :: rest =>
      (key.toList.flatMap quoteChar, value.written) :: writtenMembers rest

end

theorem writtenElements_eq_map (elements : List Json) :
    writtenElements elements = elements.map written := by
  induction elements with
  | nil => rfl
  | cons element rest ih => rw [writtenElements, ih, List.map_cons]

theorem writtenMembers_eq_map (members : List (String × Json)) :
    writtenMembers members = members.map fun member =>
      (member.1.toList.flatMap quoteChar, member.2.written) := by
  induction members with
  | nil => rfl
  | cons member rest ih =>
      obtain ⟨key, value⟩ := member
      rw [writtenMembers, ih, List.map_cons]

/-- The compact text of a key, as that of a member without value. -/
def keyText (key : String) : KeyText where
  before := []
  key := key.toList.flatMap quoteChar
  after := []
  spacesBefore := nofun
  isBody := isStringBody_flatMap_quoteChar key.toList
  spacesAfter := nofun

theorem keyText_chars (key : String) :
    (keyText key).chars = quote key ++ [':'] := by
  simp [keyText, KeyText.chars, quote]

theorem compactChars_array (elements : List Json) :
    (Json.array elements).compactChars =
      '[' :: listText [] (elements.map compactChars) ']' := by
  have joins (first : Json) (rest : List Json) :
      first.compactChars ++ compactElements rest =
        [','].intercalate ((first :: rest).map compactChars) ++ [']'] := by
    induction rest generalizing first with
    | nil => simp [compactElements]
    | cons second rest ih =>
        rw [compactElements, ih]
        simp [List.intercalate_cons_cons]
  cases elements with
  | nil => rfl
  | cons first rest =>
      rw [compactChars, joins]
      rfl

theorem compactChars_object (members : List (String × Json)) :
    (Json.object members).compactChars =
      '{' :: listText [] (members.map fun member =>
        (keyText member.1).chars ++ member.2.compactChars) '}' := by
  have joins (first : String × Json) (rest : List (String × Json)) :
      quote first.1 ++ ':' :: (first.2.compactChars ++ compactMembers rest) =
        [','].intercalate ((first :: rest).map fun member =>
          (keyText member.1).chars ++ member.2.compactChars) ++ ['}'] := by
    induction rest generalizing first with
    | nil => simp [compactMembers, keyText_chars]
    | cons second rest ih =>
        rw [compactMembers, ih second]
        simp [List.intercalate_cons_cons, keyText_chars]
  cases members with
  | nil => rfl
  | cons first rest =>
      rw [compactChars, joins]
      rfl

/-- The compact text of a value without numbers is a text of the value. -/
theorem spells_compactChars {value : Json} (isFree : value.NumberFree) :
    Spells value.written value.compactChars := by
  induction isFree with
  | null => exact .scalar .null
  | boolean value =>
      cases value with
      | false => exact .scalar .false
      | true => exact .scalar .true
  | string text =>
      exact .scalar (.string (isStringBody_flatMap_quoteChar text.toList))
  | @array elements areFree ih =>
      have isSpelled := @Spells.array [] nofun
        (elements.map fun element => (element.written, element.compactChars))
        (List.forall_mem_map.2 ih)
      rw [List.map_map, List.map_map] at isSpelled
      rw [written, writtenElements_eq_map, compactChars_array]
      exact isSpelled
  | @object members areFree ih =>
      have isSpelled := @Spells.object [] nofun
        (members.map fun member =>
          (keyText member.1, member.2.written, member.2.compactChars))
        (List.forall_mem_map.2 ih)
      rw [List.map_map, List.map_map] at isSpelled
      rw [written, writtenMembers_eq_map, compactChars_object]
      exact isSpelled

theorem mapM_eq_ite_of_forall {Source Target : Type}
    {function : Source → Except Fault Target} {isRead : Source → Prop}
    [DecidablePred isRead] {result : Source → Target} {fault : Fault}
    {sources : List Source}
    (each : ∀ source ∈ sources, function source =
      if isRead source then .ok (result source) else .error fault) :
    sources.mapM function =
      if ∀ source ∈ sources, isRead source then .ok (sources.map result)
      else .error fault := by
  induction sources with
  | nil => simp [pure, Except.pure]
  | cons source rest ih =>
      rw [List.forall_mem_cons] at each
      rw [List.mapM_cons, each.1, ih each.2]
      simp only [List.forall_mem_cons]
      by_cases isFirst : isRead source
      · simp only [isFirst, if_true, true_and]
        split <;> rfl
      · simp only [isFirst, if_false, false_and]
        rfl

theorem keyOfBody_flatMap_quoteChar (key : String) :
    keyOfBody (key.toList.flatMap quoteChar) = .ok key := by
  rw [keyOfBody, readString_flatMap_quoteChar]
  rfl

/-- A value without numbers is read from its compact text, if its brackets are
nested no deeper than they may. -/
theorem valueWithin_written {value : Json} (isFree : value.NumberFree)
    (depth : Nat) :
    value.written.valueWithin depth =
      if value.nesting ≤ depth then .ok value
      else .error .nestingTooDeep := by
  induction isFree generalizing depth with
  | null => cases depth <;> rfl
  | boolean value => cases depth <;> cases value <;> rfl
  | string text =>
      have isValue : outcomeOf (readScalar (quote text)) =
          .ok (.string text) := by
        rw [quote, List.cons_append, readScalar_quote,
          readString_flatMap_quoteChar]
        rfl
      cases depth <;> exact isValue
  | @array elements areFree ih =>
      cases depth with
      | zero => rfl
      | succ depth =>
          have areRead := mapM_eq_ite_of_forall fun element isElement =>
            ih element isElement depth
          rw [written, writtenElements_eq_map, Written.valueWithin,
            List.mapM_map]
          simp only [Function.comp_def, areRead, List.map_id', nesting,
            Nat.add_le_add_iff_right, nestingOfAll_le_iff]
          split <;> rfl
  | @object members areFree ih =>
      cases depth with
      | zero => rfl
      | succ depth =>
          have areRead : ∀ member ∈ members,
              memberOfParts (Written.valueWithin depth)
                  (member.1.toList.flatMap quoteChar, member.2.written) =
                if member.2.nesting ≤ depth then .ok member
                else .error .nestingTooDeep := by
            intro member isMember
            rw [memberOfParts, keyOfBody_flatMap_quoteChar,
              ih member isMember depth]
            split <;> rfl
          rw [written, writtenMembers_eq_map, Written.valueWithin,
            List.mapM_map]
          simp only [Function.comp_def, mapM_eq_ite_of_forall areRead,
            List.map_id', nesting, Nat.add_le_add_iff_right,
            nestingOfMembers_le_iff]
          split <;> rfl

theorem spells_compact {value : Json} (isFree : value.NumberFree) :
    Spells value.written value.compact.toList := by
  rw [compact, String.toList_ofList]
  exact spells_compactChars isFree

theorem ofText_compact {value : Json} (isFree : value.NumberFree)
    (isWithin : value.nesting ≤ greatestDepth) :
    ofText value.compact = .ok value := by
  rcases ofText_of_spells (spells_compact isFree) with
    ⟨document, isValue, isRead⟩ | ⟨fault, position, isFault, -⟩
  · rw [valueWithin_written isFree, if_pos isWithin] at isValue
    cases isValue
    exact isRead
  · rw [valueWithin_written isFree, if_pos isWithin] at isFault
    cases isFault

theorem ofText_compact_of_greatestDepth_lt {value : Json}
    (isFree : value.NumberFree) (isBeyond : greatestDepth < value.nesting) :
    ∃ position, ofText value.compact = .error ⟨.nestingTooDeep, position⟩ := by
  have notWithin := Nat.not_le.2 isBeyond
  rcases ofText_of_spells (spells_compact isFree) with
    ⟨document, isValue, -⟩ | ⟨fault, position, isFault, isRead⟩
  · rw [valueWithin_written isFree, if_neg notWithin] at isValue
    cases isValue
  · rw [valueWithin_written isFree, if_neg notWithin] at isFault
    cases isFault
    exact ⟨position, isRead⟩

end Compact

end Json

end KeyedPaths
