import Mathlib.Data.List.Forall2
import Mathlib.Logic.ExistsUnique
import KeyedPaths.Proofs.RoundTrip

/-!
# Cutting segments

Segments can be cut from the left into complete blocks, with one block behind
them that falls short of values if the segments end too early.  There is exactly
one such cut, and it says what resolving gives: an element for every complete
block, or the error at the block that falls short.

The last part follows the cut by positions.  Every position that is read, and
every number of segments that is subtracted from another one, is in range.
-/

namespace KeyedPaths

open StructuralPath

theorem Block.segments_injective {first second : Block}
    (sameSegments : first.segments = second.segments) : first = second := by
  obtain ⟨name, values⟩ := first
  obtain ⟨otherName, otherValues⟩ := second
  obtain ⟨rfl, rfl⟩ := List.cons.inj sameSegments
  rfl

/-- Complete blocks, and the block behind them that falls short of values if
there is one. -/
structure Cut where
  complete : List Block
  short? : Option Block

namespace Cut

def segments (cut : Cut) : List String :=
  cut.complete.flatMap Block.segments ++
    (cut.short?.map Block.segments).getD []

/-- The names of the complete blocks and that of a block behind them. -/
def namesThrough (cut : Cut) (block : Block) : List String :=
  cut.complete.map Block.name ++ [block.name]

theorem foldl_extend_namesThrough (cut : Cut) (block : Block)
    (path : String) :
    (cut.namesThrough block).foldl extend path =
      extend ((cut.complete.map Block.name).foldl extend path) block.name := by
  rw [namesThrough, List.foldl_append, List.foldl_cons, List.foldl_nil]

theorem segments_cons (block : Block) (blocks : List Block)
    (short? : Option Block) :
    segments ⟨block :: blocks, short?⟩ =
      block.segments ++ segments ⟨blocks, short?⟩ := by
  rw [segments, segments, List.flatMap_cons, List.append_assoc]

/-- Without complete blocks the segments are those of the block that falls
short. -/
theorem short?_eq_of_segments_eq {short? otherShort? : Option Block}
    (sameSegments : segments ⟨[], short?⟩ = segments ⟨[], otherShort?⟩) :
    short? = otherShort? := by
  cases short? with
  | none =>
      cases otherShort? with
      | none => rfl
      | some otherShort => cases sameSegments
  | some short =>
      cases otherShort? with
      | none => cases sameSegments
      | some otherShort =>
          have sameBlock : short.segments = otherShort.segments := sameSegments
          rw [Block.segments_injective sameBlock]

end Cut

/-- The value at the last position at which the key name is listed. -/
def HoldsLast (keyNames values : List String) (key value : String) : Prop :=
  ∃ before after, keyNames = before ++ key :: after ∧ key ∉ after ∧
    values[before.length]? = some value

/-- The value bound to a key is the one behind which the key is not listed any
more. -/
theorem StringMap.get?_ofList_eq_some_iff {Value : Type}
    {bindings : List (String × Value)} {key : String} {value : Value} :
    (ofList bindings).get? key = some value ↔
      ∃ before after, bindings = before ++ (key, value) :: after ∧
        ∀ binding ∈ after, binding.1 ≠ key := by
  rw [get?_ofList, List.lookup_eq_some_iff]
  constructor
  · rintro ⟨after, before, isSplit, isLast⟩
    refine ⟨before.reverse, after.reverse, ?_, fun binding isLater => ?_⟩
    · rw [← List.reverse_reverse bindings, isSplit]
      simp
    · exact (bne_iff_ne.1 (isLast binding (List.mem_reverse.1 isLater))).symm
  · rintro ⟨before, after, rfl, isLast⟩
    refine ⟨after.reverse, before.reverse, by simp, fun binding isLater => ?_⟩
    exact bne_iff_ne.2 (isLast binding (List.mem_reverse.1 isLater)).symm

/-- Values that are bound position by position are found at the last position of
their key name. -/
theorem get?_ofList_zip_eq_some_iff {keyNames values : List String}
    (sameLength : values.length = keyNames.length) {key value : String} :
    (StringMap.ofList (keyNames.zip values)).get? key = some value ↔
      HoldsLast keyNames values key value := by
  rw [StringMap.get?_ofList_eq_some_iff]
  constructor
  · rintro ⟨before, after, isSplit, isLast⟩
    have firsts := List.map_fst_zip (Nat.le_of_eq sameLength.symm)
    have seconds := List.map_snd_zip (Nat.le_of_eq sameLength)
    rw [isSplit, List.map_append, List.map_cons] at firsts seconds
    refine ⟨before.map Prod.fst, after.map Prod.fst, firsts.symm, ?_, ?_⟩
    · rintro isListed
      obtain ⟨binding, isLater, isKey⟩ := List.mem_map.1 isListed
      exact isLast binding isLater isKey
    · rw [← seconds]
      simp
  · rintro ⟨before, after, rfl, isLast, isValue⟩
    obtain ⟨inBounds, rfl⟩ := List.getElem?_eq_some_iff.1 isValue
    have isSplit : values.take before.length ++
        values[before.length] :: values.drop (before.length + 1) = values := by
      rw [← List.drop_eq_getElem_cons, List.take_append_drop]
    have sameTake : before.length = (values.take before.length).length := by
      rw [List.length_take]
      omega
    refine ⟨before.zip (values.take before.length),
      after.zip (values.drop (before.length + 1)), ?_, ?_⟩
    · rw [← List.zip_cons_cons, ← List.zip_append sameTake, isSplit]
    · rintro ⟨other, otherValue⟩ isLater rfl
      exact isLast (List.of_mem_zip isLater).1

namespace RuleTable

variable (table : RuleTable)

/-- A way to cut segments below a structural path: the blocks hold as many
values as the rules at their structural paths want, and only the last one may
hold fewer. -/
structure IsCutBelow (path : String) (segments : List String) (cut : Cut) :
    Prop where
  segments_eq : cut.segments = segments
  areComplete : ∀ located ∈ locateBelow Block.name path cut.complete,
    table.IsComplete located
  isShort : ∀ block, cut.short? = some block →
    block.values.length <
      (table.keyNamesAt ((cut.namesThrough block).foldl extend path)).length

def IsCut (segments : List String) (cut : Cut) : Prop :=
  table.IsCutBelow "" segments cut

variable {table} {path : String} {segments : List String}

theorem isCutBelow_cons_iff {block : Block} {blocks : List Block}
    {short? : Option Block} :
    table.IsCutBelow path segments ⟨block :: blocks, short?⟩ ↔
      ∃ rest, segments = block.segments ++ rest ∧
        table.IsComplete (extend path block.name, block) ∧
          table.IsCutBelow (extend path block.name) rest ⟨blocks, short?⟩ := by
  constructor
  · rintro ⟨rfl, areComplete, isShort⟩
    obtain ⟨isComplete, laterComplete⟩ := List.forall_mem_cons.1 areComplete
    exact ⟨_, Cut.segments_cons block blocks short?, isComplete, rfl,
      laterComplete, isShort⟩
  · rintro ⟨rest, rfl, isComplete, rfl, laterComplete, isShort⟩
    exact ⟨Cut.segments_cons block blocks short?,
      List.forall_mem_cons.2 ⟨isComplete, laterComplete⟩, isShort⟩

theorem exists_isCutBelow (table : RuleTable) (path : String)
    (segments : List String) : ∃ cut, table.IsCutBelow path segments cut := by
  fun_induction blocksBelow table path segments with
  | case1 path => exact ⟨⟨[], none⟩, rfl, List.forall_mem_nil _, by simp⟩
  | case2 path name rest ih =>
      by_cases isShort :
          rest.length < (table.keyNamesAt (extend path name)).length
      · refine ⟨⟨[], some ⟨name, rest⟩⟩, rfl, List.forall_mem_nil _, ?_⟩
        rintro _ ⟨⟩
        exact isShort
      · obtain ⟨⟨blocks, short?⟩, isCut⟩ := ih
        refine ⟨⟨⟨name, rest.take
            (table.keyNamesAt (extend path name)).length⟩ :: blocks, short?⟩,
          isCutBelow_cons_iff.2 ⟨_, ?_, ?_, isCut⟩⟩
        · rw [Block.segments, List.cons_append, List.take_append_drop]
        · simp only [IsComplete, List.length_take]
          omega

/-- Segments whose first block is complete begin with no other block. -/
theorem eq_of_isComplete {first second : Block} {firstRest secondRest}
    (firstComplete : table.IsComplete (extend path first.name, first))
    (secondComplete : table.IsComplete (extend path second.name, second))
    (sameSegments :
      first.segments ++ firstRest = second.segments ++ secondRest) :
    first = second ∧ firstRest = secondRest := by
  obtain ⟨name, values⟩ := first
  obtain ⟨otherName, otherValues⟩ := second
  obtain ⟨rfl, sameLater⟩ := List.cons.inj sameSegments
  have sameLength : values.length = otherValues.length :=
    firstComplete.trans secondComplete.symm
  obtain ⟨rfl, sameRest⟩ := List.append_inj sameLater sameLength
  exact ⟨rfl, sameRest⟩

/-- Segments that are cut into no complete blocks do not begin with one. -/
theorem IsCutBelow.ne_of_isComplete {short? : Option Block} {block : Block}
    {rest : List String} (isCut : table.IsCutBelow path segments ⟨[], short?⟩)
    (isComplete : table.IsComplete (extend path block.name, block)) :
    segments ≠ block.segments ++ rest := by
  rintro rfl
  cases short? with
  | none => cases isCut.segments_eq
  | some short =>
      obtain ⟨sameName, sameValues⟩ := List.cons.inj isCut.segments_eq
      have isShort : short.values.length <
          (table.keyNamesAt (extend path short.name)).length :=
        isCut.isShort short rfl
      have isLonger : short.values.length = (block.values ++ rest).length :=
        congrArg List.length sameValues
      have isEnough : block.values.length =
          (table.keyNamesAt (extend path block.name)).length := isComplete
      rw [List.length_append, isEnough, ← sameName] at isLonger
      omega

theorem IsCutBelow.eq {cut other : Cut}
    (isCut : table.IsCutBelow path segments cut)
    (isOther : table.IsCutBelow path segments other) : cut = other := by
  obtain ⟨blocks, short?⟩ := cut
  obtain ⟨otherBlocks, otherShort?⟩ := other
  -- The rule for the first name decides whether there is a complete block and
  -- how long it is, so both cuts begin alike and then cut the same rest.
  induction blocks generalizing path segments otherBlocks with
  | nil =>
      cases otherBlocks with
      | nil =>
          have sameShort := Cut.short?_eq_of_segments_eq
            (isCut.segments_eq.trans isOther.segments_eq.symm)
          rw [sameShort]
      | cons otherBlock otherBlocks =>
          obtain ⟨rest, isSplit, isComplete, -⟩ := isCutBelow_cons_iff.1 isOther
          exact absurd isSplit (isCut.ne_of_isComplete isComplete)
  | cons block blocks ih =>
      obtain ⟨rest, isSplit, isComplete, isLater⟩ := isCutBelow_cons_iff.1 isCut
      cases otherBlocks with
      | nil => exact absurd isSplit (isOther.ne_of_isComplete isComplete)
      | cons otherBlock otherBlocks =>
          obtain ⟨otherRest, rfl, isOtherComplete, isOtherLater⟩ :=
            isCutBelow_cons_iff.1 isOther
          obtain ⟨rfl, rfl⟩ :=
            eq_of_isComplete isOtherComplete isComplete isSplit
          cases ih isLater otherBlocks isOtherLater
          rfl

/-- What resolving gives for segments that are cut in the given way. -/
def cutOutcome (table : RuleTable) (path : String) (cut : Cut) :
    Except InsufficientKeys Path :=
  match cut.short? with
  | none =>
      .ok ((locateBelow Block.name path cut.complete).map table.blockElement)
  | some block =>
      .error ⟨block.values.length,
        (table.keyNamesAt ((cut.namesThrough block).foldl extend path)).length,
        (cut.namesThrough block).foldl extend path⟩

theorem resolveBelow_short {block : Block}
    (isShort : block.values.length <
      (table.keyNamesAt (extend path block.name)).length) :
    table.resolveBelow path block.segments =
      .error ⟨block.values.length,
        (table.keyNamesAt (extend path block.name)).length,
        extend path block.name⟩ := by
  rw [Block.segments, resolveBelow_cons, if_pos isShort]

theorem IsCutBelow.resolveBelow_eq {cut : Cut}
    (isCut : table.IsCutBelow path segments cut) :
    table.resolveBelow path segments = table.cutOutcome path cut := by
  rw [← isCut.segments_eq, Cut.segments,
    table.resolveBelow_blocks isCut.areComplete, cutOutcome]
  cases isLast : cut.short? with
  | none =>
      rw [Option.map_none, Option.getD_none, resolveBelow]
      exact congrArg Except.ok (List.append_nil _)
  | some block =>
      have isShort := isCut.isShort block isLast
      rw [Cut.foldl_extend_namesThrough] at isShort
      rw [Option.map_some, Option.getD_some, resolveBelow_short isShort]
      simp only [Cut.foldl_extend_namesThrough]
      rfl

/-- An element that has the name of a block and binds the key names at its
structural path, each to the value at the last position of the key name. -/
structure IsElementOf (table : RuleTable) (located : String × Block)
    (element : PathElement) : Prop where
  name_eq : element.name = located.2.name
  mem_keys_iff : ∀ key,
    key ∈ element.keys.keys ↔ key ∈ table.keyNamesAt located.1
  get?_eq_some_iff : ∀ key value, element.keys.get? key = some value ↔
    HoldsLast (table.keyNamesAt located.1) located.2.values key value

theorem IsComplete.isElementOf {located : String × Block}
    (isComplete : table.IsComplete located) :
    table.IsElementOf located (table.blockElement located) where
  name_eq := rfl
  mem_keys_iff key := by
    rw [blockElement, PathElement.withKeys, StringMap.mem_keys_ofList,
      List.map_fst_zip (Nat.le_of_eq isComplete.symm)]
  get?_eq_some_iff _ _ := get?_ofList_zip_eq_some_iff isComplete

theorem forall₂_blockElement {blocks : List (String × Block)}
    (areComplete : ∀ located ∈ blocks, table.IsComplete located) :
    List.Forall₂ table.IsElementOf blocks
      (blocks.map table.blockElement) := by
  rw [List.forall₂_map_right_iff, List.forall₂_same]
  exact fun located isBlock => (areComplete located isBlock).isElementOf

end RuleTable

section Positions

/-- The difference of two numbers, unless it is below zero. -/
def difference? (whole part : Nat) : Option Nat :=
  if part ≤ whole then some (whole - part) else none

/-- The segments from one position up to another one, unless the first lies
behind the second or the second behind the last segment. -/
def slice? (segments : List String) (start stop : Nat) :
    Option (List String) :=
  if start ≤ stop ∧ stop ≤ segments.length then
    some ((segments.take stop).drop start)
  else none

theorem difference?_eq_some {whole part : Nat} (inRange : part ≤ whole) :
    difference? whole part = some (whole - part) :=
  if_pos inRange

theorem slice?_eq_some {segments : List String} {start stop : Nat}
    (isOrdered : start ≤ stop) (inRange : stop ≤ segments.length) :
    slice? segments start stop =
      some ((segments.drop start).take (stop - start)) := by
  rw [slice?, if_pos ⟨isOrdered, inRange⟩, List.drop_take]

end Positions

namespace RuleTable

/-- Resolve the segments from a position on and put the elements behind those
that are resolved already.  Nothing is returned if a position or a difference is
out of range. -/
def resolveFrom? (table : RuleTable) (segments : List String) (position : Nat)
    (path : String) (resolved : Path) :
    Option (Except InsufficientKeys Path) :=
  if position < segments.length then do
    let name ← segments[position]?
    let start := position + 1
    let path := extend path name
    match table.keyNames? path with
    | none =>
        table.resolveFrom? segments start path (resolved ++ [.ofName name])
    | some keyNames =>
        let available ← difference? segments.length start
        if available < keyNames.length then
          return .error ⟨available, keyNames.length, path⟩
        else
          let values ← slice? segments start (start + keyNames.length)
          table.resolveFrom? segments (start + keyNames.length) path
            (resolved ++ [.withKeys name (keyNames.zip values)])
  else return .ok resolved
termination_by segments.length - position
decreasing_by
  · omega
  · omega

variable {table : RuleTable} {path : String} {segments : List String}

/-- One step of resolving by positions.  What is left is the name at the
position and everything behind it, so that nothing is out of range. -/
theorem resolveFrom?_step {position : Nat} {name : String} {rest : List String}
    (isRest : segments.drop position = name :: rest) (resolved : Path) :
    table.resolveFrom? segments position path resolved =
      if rest.length < (table.keyNamesAt (extend path name)).length then
        some (.error ⟨rest.length,
          (table.keyNamesAt (extend path name)).length, extend path name⟩)
      else
        table.resolveFrom? segments
          (position + 1 + (table.keyNamesAt (extend path name)).length)
          (extend path name)
          (resolved ++ [.withKeys name
            ((table.keyNamesAt (extend path name)).zip rest)]) := by
  have restLength := congrArg List.length isRest
  rw [List.length_drop, List.length_cons] at restLength
  have inRange : position < segments.length := by omega
  have isName : segments[position]? = some name := by
    rw [← Nat.add_zero position, ← List.getElem?_drop, isRest]
    rfl
  have isLater : segments.drop (position + 1) = rest := by
    rw [← List.drop_drop, isRest]
    rfl
  have isAvailable :
      difference? segments.length (position + 1) = some rest.length := by
    rw [difference?_eq_some inRange, ← List.length_drop, isLater]
  rw [resolveFrom?, if_pos inRange, isName]
  cases isRule : table.keyNames? (extend path name) with
  | none =>
      rw [keyNamesAt_of_none table isRule]
      simp [isRule, PathElement.withKeys, PathElement.ofName, StringMap.ofList]
  | some keyNames =>
      rw [keyNamesAt_of_some table isRule]
      by_cases isShort : rest.length < keyNames.length
      · simp [isRule, isAvailable, isShort]
      · have isSlice : slice? segments (position + 1)
            (position + 1 + keyNames.length) =
              some (rest.take keyNames.length) := by
          rw [slice?_eq_some (Nat.le_add_right _ _) (by omega), isLater,
            Nat.add_sub_cancel_left]
        simp [isRule, isAvailable, isShort, isSlice, zip_take_length]

/-- Resolving by positions never leaves the segments, and it goes on from a
position as resolving does with the segments behind it. -/
theorem resolveFrom?_eq {position : Nat} {rest : List String}
    (isRest : segments.drop position = rest) (resolved : Path) :
    table.resolveFrom? segments position path resolved =
      some ((table.resolveBelow path rest).map (resolved ++ ·)) := by
  fun_induction blocksBelow table path rest generalizing position resolved with
  | case1 path =>
      have isBehind : ¬ position < segments.length := by
        have restLength := congrArg List.length isRest
        rw [List.length_drop, List.length_nil] at restLength
        omega
      rw [resolveFrom?, if_neg isBehind, resolveBelow]
      simp [Except.map]
  | case2 path name rest ih =>
      rw [resolveFrom?_step isRest, resolveBelow_cons]
      split
      · rfl
      · have isLater : segments.drop (position + 1 +
            (table.keyNamesAt (extend path name)).length) =
              rest.drop (table.keyNamesAt (extend path name)).length := by
          rw [← List.drop_drop, ← List.drop_drop, isRest]
          rfl
        rw [ih isLater]
        cases table.resolveBelow (extend path name)
            (rest.drop (table.keyNamesAt (extend path name)).length) with
        | error failure => rfl
        | ok later => simp [Except.map]

/-- Segments are cut in one way.  If no block falls short they resolve to one
element for each block, otherwise the error tells the number of values, the
number of key names and the structural path of the block that does.  Nothing
that is read or subtracted on the way is out of range. -/
theorem resolve_by_cuts (table : RuleTable) (segments : List String) :
    (∃! cut, table.IsCut segments cut) ∧
      (∀ cut, table.IsCut segments cut →
        ((∃ path, table.resolve segments = .ok path) ↔ cut.short? = none) ∧
          (∀ path, table.resolve segments = .ok path →
            List.Forall₂ table.IsElementOf (locate Block.name cut.complete)
              path) ∧
          ∀ block, cut.short? = some block →
            table.resolve segments = .error ⟨block.values.length,
              (table.keyNamesAt (ofNames (cut.namesThrough block))).length,
              ofNames (cut.namesThrough block)⟩) ∧
      table.resolveFrom? segments 0 "" [] = some (table.resolve segments) := by
  obtain ⟨cut, isCut⟩ := table.exists_isCutBelow "" segments
  refine ⟨⟨cut, isCut, fun other isOther => IsCutBelow.eq isOther isCut⟩,
    fun other isOther => ?_, ?_⟩
  · have isResolved : table.resolve segments = table.cutOutcome "" other :=
      IsCutBelow.resolveBelow_eq isOther
    obtain ⟨blocks, short?⟩ := other
    rw [isResolved]
    cases short? with
    | none =>
        refine ⟨⟨fun _ => rfl, fun _ => ⟨_, rfl⟩⟩, ?_, by simp⟩
        rintro _ ⟨⟩
        exact forall₂_blockElement isOther.areComplete
    | some block =>
        refine ⟨⟨?_, by simp⟩, ?_, ?_⟩
        · rintro ⟨path, ⟨⟩⟩
        · rintro path ⟨⟩
        · rintro _ ⟨⟩
          rfl
  · rw [resolveFrom?_eq List.drop_zero, resolve]
    cases table.resolveBelow "" segments <;> rfl

/-- A keyed list with a rule that repeats a key name below another one. -/
def nestedKeyTable : RuleTable :=
  repeatedKeyTable.insert "/list/inner" ["a", "b", "a"] (by decide)

theorem nestedKeyTable_cuts :
    (∃ path, nestedKeyTable.resolve
          ["list", "1", "2", "3", "inner", "4", "5", "6", "leaf"] = .ok path ∧
        List.Forall₂ nestedKeyTable.IsElementOf
          [("/list", ⟨"list", ["1", "2", "3"]⟩),
            ("/list/inner", ⟨"inner", ["4", "5", "6"]⟩),
            ("/list/inner/leaf", ⟨"leaf", []⟩)] path) ∧
      nestedKeyTable.resolve ["list", "1", "2", "3", "inner", "4", "5"] =
        .error ⟨2, 3, "/list/inner"⟩ := by
  have isComplete : nestedKeyTable.IsCut
      ["list", "1", "2", "3", "inner", "4", "5", "6", "leaf"]
      ⟨[⟨"list", ["1", "2", "3"]⟩, ⟨"inner", ["4", "5", "6"]⟩,
        ⟨"leaf", []⟩], none⟩ := by
    refine ⟨rfl, ?_, by simp⟩
    simp only [IsComplete]
    decide +kernel
  have isShort : nestedKeyTable.IsCut
      ["list", "1", "2", "3", "inner", "4", "5"]
      ⟨[⟨"list", ["1", "2", "3"]⟩], some ⟨"inner", ["4", "5"]⟩⟩ := by
    refine ⟨rfl, ?_, ?_⟩
    · simp only [IsComplete]
      decide +kernel
    · rintro _ ⟨⟩
      decide +kernel
  obtain ⟨isResolved, areElements, -⟩ :=
    (resolve_by_cuts nestedKeyTable _).2.1 _ isComplete
  obtain ⟨path, isPath⟩ := isResolved.2 rfl
  have isError :=
    ((resolve_by_cuts nestedKeyTable _).2.1 _ isShort).2.2 _ rfl
  exact ⟨⟨path, isPath, areElements path isPath⟩, isError⟩

end RuleTable

end KeyedPaths
