import KeyedPaths.Proofs.SegmentCuts

/-!
# Further segments

Segments can be followed by further ones.  The elements of complete blocks stay
as they are, so the path of the longer list begins with that of the shorter one.
A block that falls short takes the further segments as its values: its error
counts them as long as some are still missing, and it gives an element as soon as
none is.
-/

namespace KeyedPaths

open StructuralPath

/-- A block with further values behind its own. -/
def Block.append (block : Block) (further : List String) : Block where
  name := block.name
  values := block.values ++ further

theorem Block.segments_append (block : Block) (further : List String) :
    (block.append further).segments = block.segments ++ further :=
  rfl

theorem Block.length_values_append (block : Block) (further : List String) :
    (block.append further).values.length =
      block.values.length + further.length :=
  List.length_append

namespace RuleTable

variable {table : RuleTable} {segments : List String} {elements : Path}

theorem map_name_blockElements (table : RuleTable) (path : String)
    (blocks : List Block) :
    ((locateBelow Block.name path blocks).map table.blockElement).map
        PathElement.name =
      blocks.map Block.name := by
  rw [List.map_map]
  exact map_comp_snd_locateBelow Block.name Block.name path blocks

/-- What follows resolved segments is resolved below the names of their
elements. -/
theorem resolve_append_of_ok (isResolved : table.resolve segments = .ok elements)
    (further : List String) :
    table.resolve (segments ++ further) =
      (table.resolveBelow (ofNames (elements.map PathElement.name))
        further).map (elements ++ ·) := by
  obtain ⟨areComplete, rfl⟩ := table.resolve_eq_ok_iff.1 isResolved
  have resumed := table.resolveBelow_blocks areComplete further
  rw [flatMap_blocks] at resumed
  rw [locate, map_name_blockElements]
  exact resumed

theorem prefix_of_resolve_append
    (isResolved : table.resolve segments = .ok elements)
    {further : List String} {longer : Path}
    (isLonger : table.resolve (segments ++ further) = .ok longer) :
    elements <+: longer := by
  rw [resolve_append_of_ok isResolved, map_eq_ok_iff] at isLonger
  obtain ⟨later, -, isAppended⟩ := isLonger
  exact ⟨later, isAppended⟩

section Short

variable {blocks : List Block} {block : Block} {further : List String}

/-- Segments that do not resolve are those of complete blocks and of a block
that falls short behind them. -/
theorem exists_short_of_resolve_eq_error {failure : InsufficientKeys}
    (isError : table.resolve segments = .error failure) :
    ∃ (blocks : List Block) (block : Block),
      (∀ located ∈ locate Block.name blocks, table.IsComplete located) ∧
        segments = blocks.flatMap Block.segments ++ block.segments ∧
        block.values.length < (table.keyNamesAt
          (extend (ofNames (blocks.map Block.name)) block.name)).length ∧
        failure = ⟨block.values.length,
          (table.keyNamesAt
            (extend (ofNames (blocks.map Block.name)) block.name)).length,
          extend (ofNames (blocks.map Block.name)) block.name⟩ := by
  obtain ⟨⟨blocks, short?⟩, isCut⟩ := table.exists_isCutBelow "" segments
  have isOutcome :
      table.resolve segments = table.cutOutcome "" ⟨blocks, short?⟩ :=
    isCut.resolveBelow_eq
  rw [isOutcome] at isError
  cases short? with
  | none => cases isError
  | some block =>
      have throughNames :=
        Cut.foldl_extend_namesThrough ⟨blocks, some block⟩ block ""
      have isShort := isCut.isShort block rfl
      rw [throughNames] at isShort
      rw [cutOutcome] at isError
      simp only [throughNames] at isError
      cases isError
      exact ⟨blocks, block, isCut.areComplete, isCut.segments_eq.symm, isShort,
        rfl⟩

variable (areComplete : ∀ located ∈ locate Block.name blocks,
    table.IsComplete located)

include areComplete

/-- Segments behind a block are its next values. -/
theorem resolve_append_block :
    table.resolve (blocks.flatMap Block.segments ++ block.segments ++ further) =
      (table.resolveBelow (ofNames (blocks.map Block.name))
          (block.append further).segments).map
        ((locate Block.name blocks).map table.blockElement ++ ·) := by
  rw [List.append_assoc, ← Block.segments_append]
  exact table.resolveBelow_blocks areComplete _

theorem resolve_append_of_short
    (isShort : block.values.length + further.length < (table.keyNamesAt
      (extend (ofNames (blocks.map Block.name)) block.name)).length) :
    table.resolve (blocks.flatMap Block.segments ++ block.segments ++ further) =
      .error ⟨block.values.length + further.length,
        (table.keyNamesAt
          (extend (ofNames (blocks.map Block.name)) block.name)).length,
        extend (ofNames (blocks.map Block.name)) block.name⟩ := by
  rw [← Block.length_values_append] at isShort ⊢
  rw [resolve_append_block areComplete, resolveBelow_short isShort]
  rfl

theorem exists_resolve_append_of_filled
    (isFilled : block.values.length + further.length = (table.keyNamesAt
      (extend (ofNames (blocks.map Block.name)) block.name)).length) :
    ∃ elements, table.resolve
      (blocks.flatMap Block.segments ++ block.segments ++ further) =
        .ok elements := by
  rw [← Block.length_values_append] at isFilled
  have isComplete : table.IsComplete
      (extend (ofNames (blocks.map Block.name)) (block.append further).name,
        block.append further) := isFilled
  have isResolved := table.resolveBelow_block isComplete []
  rw [List.append_nil, resolveBelow] at isResolved
  rw [resolve_append_block areComplete, isResolved]
  exact ⟨_, rfl⟩

end Short

/-- What segments resolve to when further ones follow them.  The elements that
they resolve to come first in every path.  If the values of a block are missing
at their end, the further segments are its values: with fewer than are missing
the error stays, but for the number of values that are there; with as many the
segments resolve; and with more the path begins with what they resolve to
then. -/
theorem resolve_with_further_segments (table : RuleTable)
    (segments further : List String) :
    (∀ elements, table.resolve segments = .ok elements →
        ∀ longer, table.resolve (segments ++ further) = .ok longer →
          elements <+: longer) ∧
      ∀ available required path,
        table.resolve segments = .error ⟨available, required, path⟩ →
          available < required ∧
          (further.length < required - available →
            table.resolve (segments ++ further) =
              .error ⟨available + further.length, required, path⟩) ∧
          (further.length = required - available →
            ∃ elements, table.resolve (segments ++ further) = .ok elements) ∧
          (required - available < further.length →
            ∃ elements,
              table.resolve
                  (segments ++ further.take (required - available)) =
                .ok elements ∧
              ∀ longer, table.resolve (segments ++ further) = .ok longer →
                elements <+: longer) := by
  constructor
  · intro elements isResolved longer isLonger
    exact prefix_of_resolve_append isResolved isLonger
  · intro available required path isError
    obtain ⟨blocks, block, areComplete, rfl, isShort, sameFailure⟩ :=
      exists_short_of_resolve_eq_error isError
    rw [InsufficientKeys.mk.injEq] at sameFailure
    obtain ⟨rfl, sameRequired, rfl⟩ := sameFailure
    rw [← sameRequired] at isShort
    have isFilled (given : List String)
        (isEnough : given.length = required - block.values.length) :
        ∃ elements, table.resolve
          (blocks.flatMap Block.segments ++ block.segments ++ given) =
            .ok elements :=
      exists_resolve_append_of_filled areComplete (by omega)
    refine ⟨isShort, fun isFewer => ?_, isFilled further, fun isMore => ?_⟩
    · rw [sameRequired]
      exact resolve_append_of_short areComplete (by omega)
    · obtain ⟨elements, isResolved⟩ := isFilled _
        (List.length_take_of_le (Nat.le_of_lt isMore))
      refine ⟨elements, isResolved, fun longer isLonger => ?_⟩
      rw [← List.take_append_drop (required - block.values.length) further,
        ← List.append_assoc] at isLonger
      exact prefix_of_resolve_append isResolved isLonger

theorem nestedKeyTable_with_further_segments :
    (∃ elements longer,
        nestedKeyTable.resolve ["list", "1", "2", "3"] = .ok elements ∧
        nestedKeyTable.resolve
            (["list", "1", "2", "3"] ++ ["inner", "4", "5", "6"]) =
          .ok longer ∧
        elements <+: longer) ∧
      nestedKeyTable.resolve ["list", "1"] = .error ⟨1, 3, "/list"⟩ ∧
      nestedKeyTable.resolve (["list", "1"] ++ ["2"]) =
        .error ⟨2, 3, "/list"⟩ ∧
      (∃ elements,
        nestedKeyTable.resolve (["list", "1"] ++ ["2", "3"]) =
          .ok elements) ∧
      ∃ elements longer,
        nestedKeyTable.resolve (["list", "1"] ++ ["2", "3"]) = .ok elements ∧
        nestedKeyTable.resolve (["list", "1"] ++ ["2", "3", "inner"]) =
          .error ⟨0, 3, "/list/inner"⟩ ∧
        nestedKeyTable.resolve (["list", "1"] ++ ["2", "3", "leaf"]) =
          .ok longer ∧
        elements <+: longer := by
  have isShort :
      nestedKeyTable.resolve ["list", "1"] = .error ⟨1, 3, "/list"⟩ := by
    decide +kernel
  have isResolved : nestedKeyTable.resolve ["list", "1", "2", "3"] =
      .ok [.withKeys "list" [("id", "2"), ("k", "3")]] := by
    decide +kernel
  have isNested : nestedKeyTable.resolve
      (["list", "1", "2", "3"] ++ ["inner", "4", "5", "6"]) =
        .ok [.withKeys "list" [("id", "2"), ("k", "3")],
          .withKeys "inner" [("a", "6"), ("b", "5")]] := by
    decide +kernel
  have isLeaf : nestedKeyTable.resolve
      (["list", "1"] ++ ["2", "3", "leaf"]) =
        .ok [.withKeys "list" [("id", "2"), ("k", "3")], .ofName "leaf"] := by
    decide +kernel
  have filled := ((resolve_with_further_segments nestedKeyTable ["list", "1"]
    ["2", "3"]).2 _ _ _ isShort).2.2.1 rfl
  obtain ⟨elements, isFilled, isBeginning⟩ :=
    ((resolve_with_further_segments nestedKeyTable ["list", "1"]
      ["2", "3", "leaf"]).2 _ _ _ isShort).2.2.2 (by decide)
  exact ⟨⟨_, _, isResolved, isNested,
      (resolve_with_further_segments nestedKeyTable _ _).1 _ isResolved _
        isNested⟩,
    isShort,
    ((resolve_with_further_segments nestedKeyTable ["list", "1"]
      ["2"]).2 _ _ _ isShort).2.1 (by decide),
    filled,
    elements, _, isFilled, by decide +kernel, isLeaf, isBeginning _ isLeaf⟩

end RuleTable

end KeyedPaths
