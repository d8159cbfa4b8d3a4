import Mathlib.Data.String.Basic
import Mathlib.Tactic.SplitIfs
import KeyedPaths.StringMap

/-!
# The order of bytes

Texts are compared by code points.  In UTF-8 this is the order of the bytes: the
first byte of a character grows with the number of its bytes, and the bytes of a
character hold the digits of its code point, the most significant one first.
-/

namespace KeyedPaths

/-- The bytes of a text in UTF-8. -/
def utf8Bytes (text : String) : List UInt8 :=
  text.toUTF8.data.toList

theorem utf8Bytes_eq_flatMap (text : String) :
    utf8Bytes text = text.toList.flatMap String.utf8EncodeChar := by
  obtain ⟨chars, rfl⟩ : ∃ chars, text = String.ofList chars :=
    ⟨text.toList, String.ofList_toList.symm⟩
  have sameBytes : (String.ofList chars).toUTF8 = chars.utf8Encode :=
    String.toByteArray_ofList
  rw [utf8Bytes, sameBytes, List.utf8Encode, List.toList_data_toByteArray,
    String.toList_ofList]

theorem div_lt_or_mod_lt {first second : Nat} (isLess : first < second) :
    first / 64 < second / 64 ∨
      first / 64 = second / 64 ∧ first % 64 < second % 64 := by
  omega

/-- The first digit to the base 64 that differs, of four digits, says which of
two numbers is less. -/
theorem digits_lt {first second : Nat} (isLess : first < second) :
    first / 262144 < second / 262144 ∨
      first / 262144 = second / 262144 ∧
        (first / 4096 % 64 < second / 4096 % 64 ∨
          first / 4096 % 64 = second / 4096 % 64 ∧
            (first / 64 % 64 < second / 64 % 64 ∨
              first / 64 % 64 = second / 64 % 64 ∧
                first % 64 < second % 64)) := by
  rcases div_lt_or_mod_lt isLess with isHigher | ⟨sameHigher, isLower⟩
  · rcases div_lt_or_mod_lt isHigher with isHighest | ⟨sameHighest, isMiddle⟩
    · rcases div_lt_or_mod_lt isHighest with isLeading | ⟨sameLeading, isNext⟩
      · omega
      · omega
    · omega
  · omega

theorem ofNat_cons_lt_iff {first second : Nat} {rest otherRest : List UInt8}
    (firstSmall : first < 256) (secondSmall : second < 256) :
    UInt8.ofNat first :: rest < UInt8.ofNat second :: otherRest ↔
      first < second ∨ first = second ∧ rest < otherRest := by
  rw [List.cons_lt_cons_iff, UInt8.lt_iff_toNat_lt, ← UInt8.toNat_inj,
    UInt8.toNat_ofNat_of_lt' firstSmall, UInt8.toNat_ofNat_of_lt' secondSmall]

theorem code_lt (char : Char) : char.val.toNat < 0x110000 := by
  have isValid := char.valid
  unfold UInt32.isValidChar Nat.isValidChar at isValid
  omega

/-- The bytes of the lesser character decide, whatever stands behind them. -/
theorem utf8EncodeChar_append_lt {first second : Char}
    (isLess : first < second) (rest otherRest : List UInt8) :
    String.utf8EncodeChar first ++ rest <
      String.utf8EncodeChar second ++ otherRest := by
  have codeLess : first.val.toNat < second.val.toNat := isLess
  have inRange := code_lt second
  unfold String.utf8EncodeChar
  dsimp only
  generalize first.val.toNat = code at *
  generalize second.val.toNat = otherCode at *
  have isDecided := digits_lt codeLess
  have isLead : code / 262144 % 8 = code / 262144 :=
    Nat.mod_eq_of_lt (by omega)
  have isOtherLead : otherCode / 262144 % 8 = otherCode / 262144 :=
    Nat.mod_eq_of_lt (by omega)
  rw [isLead, isOtherLead]
  -- For two characters of one length the digits decide.  Otherwise the lead
  -- bytes do, whose ranges are disjoint and grow with the length.
  split_ifs <;> simp (disch := omega) only [List.cons_append, List.nil_append,
    ofNat_cons_lt_iff] <;> omega

theorem flatMap_utf8EncodeChar_lt {first second : List Char}
    (isLess : first < second) :
    first.flatMap String.utf8EncodeChar <
      second.flatMap String.utf8EncodeChar := by
  induction first generalizing second with
  | nil =>
      cases second with
      | nil => exact absurd isLess (List.lt_irrefl [])
      | cons char chars =>
          obtain ⟨byte, bytes, isEncoded⟩ := List.exists_cons_of_ne_nil
            (String.utf8EncodeChar_ne_nil (c := char))
          rw [List.flatMap_cons, isEncoded]
          exact List.nil_lt_cons _ _
  | cons char chars ih =>
      cases second with
      | nil => exact absurd isLess (List.not_lt_nil _)
      | cons otherChar otherChars =>
          rw [List.flatMap_cons, List.flatMap_cons]
          rcases List.cons_lt_cons_iff.1 isLess with
            charLess | ⟨rfl, laterLess⟩
          · exact utf8EncodeChar_append_lt charLess _ _
          · exact List.append_left_lt (ih laterLess)

theorem utf8Bytes_lt {first second : String} (isLess : first < second) :
    utf8Bytes first < utf8Bytes second := by
  rw [utf8Bytes_eq_flatMap, utf8Bytes_eq_flatMap]
  exact flatMap_utf8EncodeChar_lt isLess

/-- Texts are ordered as their UTF-8 bytes are. -/
theorem utf8Bytes_lt_iff {first second : String} :
    utf8Bytes first < utf8Bytes second ↔ first < second := by
  refine ⟨fun bytesLess => ?_, utf8Bytes_lt⟩
  by_contra notLess
  rcases lt_or_eq_of_le (String.not_lt.1 notLess) with isGreater | rfl
  · exact List.lt_asymm bytesLess (utf8Bytes_lt isGreater)
  · exact List.lt_irrefl _ bytesLess

end KeyedPaths
