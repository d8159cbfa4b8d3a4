/-!
# Classes of characters

The rules about text often hang on a property that the Unicode standard gives
to some characters.  A class of characters is the table of such a property: the
code points that have it, as closed ranges in ascending order.  The order lets
a search stop at the first range that ends at or beyond the code point sought,
and `CharacterClass.contains_iff` says that nothing is missed that way.
-/

namespace KeyedPaths

/-- Whether the ranges are not empty, begin at or after the bound, and each lies
wholly before the next. -/
def ascendingFrom (bound : Nat) : List (Nat × Nat) → Bool
  | [] => true
  | (first, last) :: rest =>
      decide (bound ≤ first) && decide (first ≤ last) &&
        ascendingFrom (last + 1) rest

/-- A class of characters, by its closed ranges of code points in order. -/
structure CharacterClass where
  ranges : List (Nat × Nat)
  ascending : ascendingFrom 0 ranges = true := by decide +kernel

/-- Whether a code point lies in one of the ranges, which are in ascending
order. -/
def inRanges (code : Nat) : List (Nat × Nat) → Bool
  | [] => false
  | (first, last) :: rest =>
      if code ≤ last then decide (first ≤ code) else inRanges code rest

theorem not_inRanges_of_lt {code bound : Nat} {ranges : List (Nat × Nat)}
    (ascending : ascendingFrom bound ranges = true) (below : code < bound) :
    ∀ range ∈ ranges, ¬ (range.1 ≤ code ∧ code ≤ range.2) := by
  induction ranges generalizing bound with
  | nil => simp
  | cons range rest ih =>
      simp only [ascendingFrom, Bool.and_eq_true, decide_eq_true_eq]
        at ascending
      intro other member
      rcases List.mem_cons.mp member with rfl | member
      · omega
      · exact ih ascending.2 (by omega) other member

theorem inRanges_iff {code bound : Nat} {ranges : List (Nat × Nat)}
    (ascending : ascendingFrom bound ranges = true) :
    inRanges code ranges = true ↔
      ∃ range ∈ ranges, range.1 ≤ code ∧ code ≤ range.2 := by
  induction ranges generalizing bound with
  | nil => simp [inRanges]
  | cons range rest ih =>
      simp only [ascendingFrom, Bool.and_eq_true, decide_eq_true_eq]
        at ascending
      by_cases ends : code ≤ range.2
      · have later := not_inRanges_of_lt ascending.2
          (Nat.lt_succ_of_le ends)
        simp only [inRanges, if_pos ends, decide_eq_true_eq, List.mem_cons]
        constructor
        · intro begins
          exact ⟨range, Or.inl rfl, begins, ends⟩
        · rintro ⟨other, rfl | member, holds⟩
          · exact holds.1
          · exact absurd holds (later other member)
      · simp only [inRanges, if_neg ends, ih ascending.2, List.mem_cons]
        constructor
        · rintro ⟨other, member, holds⟩
          exact ⟨other, Or.inr member, holds⟩
        · rintro ⟨other, rfl | member, holds⟩
          · exact absurd holds.2 ends
          · exact ⟨other, member, holds⟩

namespace CharacterClass

def contains (charClass : CharacterClass) (char : Char) : Bool :=
  inRanges char.toNat charClass.ranges

theorem contains_iff (charClass : CharacterClass) (char : Char) :
    charClass.contains char = true ↔
      ∃ range ∈ charClass.ranges,
        range.1 ≤ char.toNat ∧ char.toNat ≤ range.2 :=
  inRanges_iff charClass.ascending

def size (charClass : CharacterClass) : Nat :=
  charClass.ranges.foldl (fun total range => total + (range.2 + 1 - range.1)) 0

end CharacterClass

end KeyedPaths
