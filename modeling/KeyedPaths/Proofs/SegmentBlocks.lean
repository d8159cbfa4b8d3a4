import KeyedPaths.Resolution
import KeyedPaths.Proofs.BindingLists
import KeyedPaths.Proofs.NameLists
import KeyedPaths.Proofs.Outcomes

/-!
# Blocks of segments

A list of segments falls into blocks: a name and, if the names up to it lead to
a keyed list, one value for each key name of the rule.  Only the last block can
fall short of values.  Segments resolve exactly when no block falls short, and
then every block gives one element of the path.
-/

namespace KeyedPaths

open StructuralPath

/-- A name with the segments behind it that are taken as its key values. -/
structure Block where
  name : String
  values : List String
deriving DecidableEq

def Block.segments (block : Block) : List String :=
  block.name :: block.values

namespace RuleTable

/-- The key names at a structural path, of which there are none where no keyed
list stands. -/
def keyNamesAt (table : RuleTable) (path : String) : List String :=
  (table.keyNames? path).getD []

/-- Cut segments that stand below a structural path into blocks. -/
def blocksBelow (table : RuleTable) (path : String) :
    List String → List Block
  | [] => []
  | name :: rest =>
      ⟨name, rest.take (table.keyNamesAt (extend path name)).length⟩ ::
        table.blocksBelow (extend path name)
          (rest.drop (table.keyNamesAt (extend path name)).length)
termination_by segments => segments.length
decreasing_by exact Nat.lt_succ_of_le (List.length_drop ▸ Nat.sub_le _ _)

def blocks (table : RuleTable) (segments : List String) : List Block :=
  table.blocksBelow "" segments

/-- Whether a block holds a value for each key name at its structural path. -/
def IsComplete (table : RuleTable) (located : String × Block) : Prop :=
  located.2.values.length = (table.keyNamesAt located.1).length

def blockElement (table : RuleTable) (located : String × Block) :
    PathElement :=
  .withKeys located.2.name
    ((table.keyNamesAt located.1).zip located.2.values)

variable (table : RuleTable)

theorem blockElement_name (located : String × Block) :
    (table.blockElement located).name = located.2.name :=
  rfl

theorem keyNamesAt_of_some {path : String} {keyNames : List String}
    (isRule : table.keyNames? path = some keyNames) :
    table.keyNamesAt path = keyNames := by
  rw [keyNamesAt, isRule, Option.getD_some]

theorem keyNamesAt_of_none {path : String}
    (noRule : table.keyNames? path = none) : table.keyNamesAt path = [] := by
  rw [keyNamesAt, noRule, Option.getD_none]

/-- No key names stand at a path exactly where it has no rule, as a rule lists
at least one. -/
theorem keyNamesAt_eq_nil_iff {path : String} :
    table.keyNamesAt path = [] ↔ table.keyNames? path = none := by
  cases isRule : table.keyNames? path with
  | none => simp [keyNamesAt_of_none table isRule]
  | some keyNames =>
      simp [keyNamesAt_of_some table isRule, table.keyNames_ne_nil isRule]

/-- Names with and without a rule resolve alike: what follows a name are the
values of the key names at its path. -/
theorem resolveBelow_cons (path name : String) (rest : List String) :
    table.resolveBelow path (name :: rest) =
      if rest.length < (table.keyNamesAt (extend path name)).length then
        .error ⟨rest.length, (table.keyNamesAt (extend path name)).length,
          extend path name⟩
      else
        (table.resolveBelow (extend path name)
            (rest.drop (table.keyNamesAt (extend path name)).length)).map
          (.withKeys name ((table.keyNamesAt (extend path name)).zip rest) ::
            ·) := by
  rw [resolveBelow]
  cases isRule : table.keyNames? (extend path name) with
  | none =>
      rw [keyNamesAt_of_none table isRule]
      simp only [List.length_nil, Nat.not_lt_zero, if_false, List.drop_zero,
        List.zip_nil_left]
      cases table.resolveBelow (extend path name) rest <;> rfl
  | some keyNames =>
      rw [keyNamesAt_of_some table isRule]
      simp only
      split
      · rfl
      · cases table.resolveBelow (extend path name)
          (rest.drop keyNames.length) <;> rfl

/-- The values of keys at a path, with and without a rule: those of the key
names at the path come first. -/
theorem keyValues_eq (path : String) (keys : StringMap String) :
    table.keyValues path keys =
      (table.keyNamesAt path).filterMap keys.get? ++
        (keys.bindings.filter fun binding =>
          !(table.keyNamesAt path).contains binding.1).map Prod.snd := by
  rw [keyValues]
  cases isRule : table.keyNames? path with
  | none =>
      have allOthers : (keys.bindings.filter fun binding =>
          !([] : List String).contains binding.1) = keys.bindings :=
        List.filter_eq_self.2 fun _ _ => rfl
      rw [keyNamesAt_of_none table isRule, allOthers]
      rfl
  | some keyNames => rw [keyNamesAt_of_some table isRule]

/-- Keys that all belong to the key names at their path give no other
values. -/
theorem keyValues_of_keys_subset {path : String} {keys : StringMap String}
    (isNamed : ∀ key ∈ keys.keys, key ∈ table.keyNamesAt path) :
    table.keyValues path keys =
      (table.keyNamesAt path).filterMap keys.get? := by
  have noOther : (keys.bindings.filter fun binding =>
      !(table.keyNamesAt path).contains binding.1) = [] := by
    rw [List.filter_eq_nil_iff]
    intro binding isBinding
    have isListed := isNamed binding.1 (StringMap.mem_keys_of_mem isBinding)
    simp [isListed]
  rw [keyValues_eq, noOther, List.map_nil, List.append_nil]

theorem flatMap_blocksBelow (path : String) (segments : List String) :
    (table.blocksBelow path segments).flatMap Block.segments = segments := by
  fun_induction blocksBelow table path segments with
  | case1 path => rfl
  | case2 path name rest ih =>
      rw [List.flatMap_cons, ih, Block.segments, List.cons_append,
        List.take_append_drop]

theorem flatMap_blocks (segments : List String) :
    (table.blocks segments).flatMap Block.segments = segments :=
  table.flatMap_blocksBelow "" segments

theorem zip_take_length (keyNames segments : List String) :
    keyNames.zip (segments.take keyNames.length) = keyNames.zip segments := by
  induction keyNames generalizing segments with
  | nil => rfl
  | cons keyName keyNames ih =>
      cases segments with
      | nil => rfl
      | cons segment segments => simp [ih]

theorem resolveBelow_block {path : String} {block : Block}
    (isComplete : table.IsComplete (extend path block.name, block))
    (rest : List String) :
    table.resolveBelow path (block.segments ++ rest) =
      (table.resolveBelow (extend path block.name) rest).map
        (table.blockElement (extend path block.name, block) :: ·) := by
  have sameLength : (table.keyNamesAt (extend path block.name)).length =
      block.values.length := isComplete.symm
  have enough : ¬ (block.values ++ rest).length <
      (table.keyNamesAt (extend path block.name)).length := by
    rw [sameLength, List.length_append]
    omega
  rw [Block.segments, List.cons_append, resolveBelow_cons, if_neg enough,
    blockElement, ← zip_take_length, sameLength, List.drop_left,
    List.take_left]

/-- Complete blocks resolve to their elements whatever stands behind them, and
what stands behind them is resolved below their names. -/
theorem resolveBelow_blocks {path : String} {blocks : List Block}
    (areComplete : ∀ located ∈ locateBelow Block.name path blocks,
      table.IsComplete located)
    (rest : List String) :
    table.resolveBelow path (blocks.flatMap Block.segments ++ rest) =
      (table.resolveBelow ((blocks.map Block.name).foldl extend path) rest).map
        ((locateBelow Block.name path blocks).map table.blockElement ++ ·) := by
  induction blocks generalizing path with
  | nil =>
      rw [List.flatMap_nil, List.nil_append, List.map_nil, List.foldl_nil]
      cases table.resolveBelow path rest <;> rfl
  | cons block blocks ih =>
      obtain ⟨isComplete, laterComplete⟩ := List.forall_mem_cons.1 areComplete
      rw [List.flatMap_cons, List.append_assoc,
        table.resolveBelow_block isComplete, ih laterComplete, List.map_cons,
        List.foldl_cons]
      cases table.resolveBelow ((blocks.map Block.name).foldl extend
        (extend path block.name)) rest <;> rfl

/-- Segments resolve exactly when every block is complete, and then to the
elements of the blocks. -/
theorem resolveBelow_eq_ok_iff {path : String} {segments : List String}
    {elements : Path} :
    table.resolveBelow path segments = .ok elements ↔
      (∀ located ∈ locateBelow Block.name path
          (table.blocksBelow path segments), table.IsComplete located) ∧
        elements = (locateBelow Block.name path
          (table.blocksBelow path segments)).map table.blockElement := by
  fun_induction blocksBelow table path segments generalizing elements with
  | case1 path => simp [resolveBelow, locateBelow, eq_comm]
  | case2 path name rest ih =>
      rw [resolveBelow_cons, locateBelow, List.forall_mem_cons, List.map_cons]
      -- Only the last block can fall short, and no segments are left behind it.
      by_cases isShort :
          rest.length < (table.keyNamesAt (extend path name)).length
      · have notComplete : ¬ table.IsComplete (extend path name, ⟨name,
            rest.take (table.keyNamesAt (extend path name)).length⟩) := by
          simp only [IsComplete, List.length_take]
          omega
        rw [if_pos isShort]
        constructor
        · intro isOk
          cases isOk
        · intro isOk
          exact absurd isOk.1.1 notComplete
      · have isComplete : table.IsComplete (extend path name, ⟨name,
            rest.take (table.keyNamesAt (extend path name)).length⟩) := by
          simp only [IsComplete, List.length_take]
          omega
        rw [if_neg isShort, map_eq_ok_iff, blockElement, zip_take_length]
        constructor
        · rintro ⟨later, isOk, rfl⟩
          obtain ⟨laterComplete, rfl⟩ := ih.1 isOk
          exact ⟨⟨isComplete, laterComplete⟩, rfl⟩
        · rintro ⟨⟨-, laterComplete⟩, rfl⟩
          exact ⟨_, ih.2 ⟨laterComplete, rfl⟩, rfl⟩

theorem resolve_eq_ok_iff {segments : List String} {elements : Path} :
    table.resolve segments = .ok elements ↔
      (∀ located ∈ locate Block.name (table.blocks segments),
          table.IsComplete located) ∧
        elements =
          (locate Block.name (table.blocks segments)).map table.blockElement :=
  table.resolveBelow_eq_ok_iff

end RuleTable

end KeyedPaths
