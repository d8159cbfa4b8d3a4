import Mathlib.Order.Nat
import KeyedPaths.Proofs.Recognition

/-!
# Annotating paths

Annotating walks along a path up to the first keyed list that has keys.  Every
keyed list before it gets the wildcard for each of its keys.  That element and
all behind it stay as they are, and so does every element that is no keyed list,
whatever keys it carries.

An annotated keyed list has keys, because a rule lists at least one key name.
Annotating a second time therefore stops at the first keyed list of the path, and
it changes nothing.
-/

namespace KeyedPaths

open StructuralPath

theorem Path.structuralPathTo_eq_of_map_name_eq {path other : Path}
    (sameNames : other.map PathElement.name = path.map PathElement.name)
    (index : Nat) :
    other.structuralPathTo index = path.structuralPathTo index := by
  rw [structuralPathTo, structuralPathTo, namesUpTo, namesUpTo, List.map_take,
    List.map_take, sameNames]

theorem Path.structuralPathTo_eq_extend {path : Path} {index : Nat}
    {element : PathElement} (isElement : path[index]? = some element) :
    path.structuralPathTo index =
      extend (ofNames ((path.take index).map PathElement.name))
        element.name := by
  rw [structuralPathTo, namesUpTo, List.take_add_one, isElement,
    Option.toList_some, List.map_append, List.map_singleton,
    ofNames_append_singleton]

theorem Path.getElem?_locate_take {path : Path} {stop index : Nat} :
    (locate PathElement.name (path.take stop))[index]? =
      if index < stop then
        path[index]?.map fun element => (path.structuralPathTo index, element)
      else none := by
  rw [getElem?_locate, List.getElem?_take]
  split
  next isBefore =>
    rw [List.take_take, Nat.min_eq_left isBefore]
    rfl
  next => rfl

theorem Path.mem_locate_take {path : Path} {stop : Nat}
    {located : String × PathElement} :
    located ∈ locate PathElement.name (path.take stop) ↔
      ∃ index < stop, ∃ element, path[index]? = some element ∧
        (path.structuralPathTo index, element) = located := by
  simp only [List.mem_iff_getElem?, getElem?_locate_take,
    Option.ite_none_right_eq_some, Option.map_eq_some_iff]

/-- What annotating leaves behind of a path that begins with some elements, when
it is known of the elements behind them. -/
def Annotated.behind (earlier : Path) (later : Annotated) : Annotated where
  path := earlier ++ later.path
  outcome := later.outcome

namespace RuleTable

/-- Whether an element stands at the structural path of a keyed list and has
keys already. -/
def IsBlocked (table : RuleTable) (located : String × PathElement) : Prop :=
  table.contains located.1 = true ∧ located.2.hasKeys = true
deriving Decidable

/-- The element that annotating puts in the place of one without keys. -/
def annotatedElement (table : RuleTable) (located : String × PathElement) :
    PathElement :=
  match table.keyNames? located.1 with
  | none => located.2
  | some keyNames => wildcardElement located.2.name keyNames

variable (table : RuleTable)

theorem contains_eq_isSome (path : String) :
    table.contains path = (table.keyNames? path).isSome :=
  rfl

theorem annotatedElement_name (located : String × PathElement) :
    (table.annotatedElement located).name = located.2.name := by
  rw [annotatedElement]
  split <;> rfl

/-- One step of the walk at an element that is not blocked. -/
theorem annotateBelow_cons {path : String} {changed : Bool}
    {element : PathElement}
    (isUnblocked : ¬ table.IsBlocked (extend path element.name, element))
    (later : Path) :
    table.annotateBelow path changed (element :: later) =
      (table.annotateBelow (extend path element.name)
          (changed || table.contains (extend path element.name)) later).behind
        [table.annotatedElement (extend path element.name, element)] := by
  rw [annotateBelow, annotatedElement, contains_eq_isSome]
  cases isRule : table.keyNames? (extend path element.name) with
  | none =>
      rw [Option.isSome_none, Bool.or_false]
      rfl
  | some keyNames =>
      have noKeys : ¬ element.hasKeys = true := by
        intro hasKeys
        refine isUnblocked ⟨?_, hasKeys⟩
        rw [contains_eq_isSome, isRule, Option.isSome_some]
      simp only [if_neg noKeys]
      rw [Option.isSome_some, Bool.or_true]
      rfl

/-- The walk stops at an element that is blocked. -/
theorem annotateBelow_of_isBlocked {path : String} {changed : Bool}
    {element : PathElement}
    (isBlocked : table.IsBlocked (extend path element.name, element))
    (later : Path) :
    table.annotateBelow path changed (element :: later) =
      ⟨element :: later, .error ⟨extend path element.name⟩⟩ := by
  obtain ⟨hasRule, hasKeys⟩ := isBlocked
  rw [contains_eq_isSome, Option.isSome_iff_exists] at hasRule
  obtain ⟨keyNames, isRule⟩ := hasRule
  dsimp only at isRule hasKeys
  rw [annotateBelow, isRule]
  exact if_pos hasKeys

theorem annotatedElement_of_not_contains {located : String × PathElement}
    (noRule : ¬ table.contains located.1 = true) :
    table.annotatedElement located = located.2 := by
  rw [contains_eq_isSome, Option.not_isSome_iff_eq_none] at noRule
  rw [annotatedElement, noRule]

/-- The walk goes through elements that are not blocked, and each of them that
has a rule gets the keys of the rule. -/
theorem annotateBelow_append {path : String} (changed : Bool) {earlier : Path}
    (unblocked : ∀ located ∈ locateBelow PathElement.name path earlier,
      ¬ table.IsBlocked located)
    (later : Path) :
    table.annotateBelow path changed (earlier ++ later) =
      (table.annotateBelow
          ((earlier.map PathElement.name).foldl extend path)
          (changed || (locateBelow PathElement.name path earlier).any
            fun located => table.contains located.1)
          later).behind
        ((locateBelow PathElement.name path earlier).map
          table.annotatedElement) := by
  induction earlier generalizing path changed with
  | nil =>
      rw [locateBelow, List.any_nil, Bool.or_false]
      rfl
  | cons element earlier ih =>
      obtain ⟨isUnblocked, laterUnblocked⟩ := List.forall_mem_cons.1 unblocked
      rw [List.cons_append, table.annotateBelow_cons isUnblocked,
        ih _ laterUnblocked, locateBelow, List.any_cons, Bool.or_assoc,
        List.map_cons, List.map_cons, List.foldl_cons]
      rfl

theorem annotateBelow_of_unblocked {path : String} {changed : Bool}
    {elements : Path}
    (unblocked : ∀ located ∈ locateBelow PathElement.name path elements,
      ¬ table.IsBlocked located) :
    table.annotateBelow path changed elements =
      ⟨(locateBelow PathElement.name path elements).map table.annotatedElement,
        .ok (changed || (locateBelow PathElement.name path elements).any
          fun located => table.contains located.1)⟩ := by
  have walked := table.annotateBelow_append changed unblocked []
  rw [List.append_nil, annotateBelow] at walked
  rw [walked, Annotated.behind, List.append_nil]

theorem consistent_wildcards (keyNames : List String) :
    Consistent (keyNames.map fun keyName => (keyName, wildcard)) := by
  intro first isFirst second isSecond sameKey
  obtain ⟨firstKey, -, rfl⟩ := List.mem_map.1 isFirst
  obtain ⟨secondKey, -, rfl⟩ := List.mem_map.1 isSecond
  rfl

/-- An annotated keyed list binds the key names of its rule to the wildcard,
each of them once. -/
theorem get?_wildcardElement {name : String} {keyNames : List String}
    {key value : String} :
    (wildcardElement name keyNames).keys.get? key = some value ↔
      key ∈ keyNames ∧ value = wildcard := by
  constructor
  · intro isBound
    obtain ⟨keyName, isListed, isPair⟩ :=
      List.mem_map.1 (StringMap.mem_of_get?_ofList isBound)
    cases isPair
    exact ⟨isListed, rfl⟩
  · rintro ⟨isListed, rfl⟩
    exact StringMap.get?_ofList_of_mem (consistent_wildcards keyNames)
      (List.mem_map_of_mem isListed)

variable {table}

/-- An element that stands at the structural path of a keyed list has keys when
it has been annotated, as its rule lists a key name. -/
theorem hasKeys_annotatedElement {located : String × PathElement}
    (hasRule : table.contains located.1 = true) :
    (table.annotatedElement located).hasKeys = true := by
  rw [contains_eq_isSome, Option.isSome_iff_exists] at hasRule
  obtain ⟨keyNames, isRule⟩ := hasRule
  obtain ⟨key, isListed⟩ :=
    List.exists_mem_of_ne_nil keyNames (table.keyNames_ne_nil isRule)
  have isBound : (wildcardElement located.2.name keyNames).keys.get? key =
      some wildcard := get?_wildcardElement.2 ⟨isListed, rfl⟩
  rw [annotatedElement, isRule, PathElement.hasKeys_iff]
  refine ⟨key, StringMap.mem_keys.2 ?_⟩
  rw [isBound, Option.isSome_some]

section Positions

variable (table) (path : Path) (index : Nat)

/-- The names up to an element lead to a keyed list. -/
def MatchesAt : Prop :=
  index < path.length ∧ table.contains (path.structuralPathTo index) = true
deriving Decidable

/-- The names up to an element lead to a keyed list, and the element has keys
already. -/
def BlockedAt : Prop :=
  ∃ element, path[index]? = some element ∧
    table.IsBlocked (path.structuralPathTo index, element)

/-- An element of the annotated path has as its keys the key names of the rule
at its place, each with the wildcard. -/
def AnnotatedAt (annotated : Path) : Prop :=
  ∃ keyNames element,
    table.keyNames? (path.structuralPathTo index) = some keyNames ∧
      annotated[index]? = some element ∧
      ∀ key value, element.keys.get? key = some value ↔
        key ∈ keyNames ∧ value = wildcard

/-- A path of which the elements before a position are annotated. -/
def annotateBefore (stop : Nat) : Path :=
  (locate PathElement.name (path.take stop)).map table.annotatedElement ++
    path.drop stop

end Positions

variable {path other : Path} {index stop : Nat}

theorem BlockedAt.matchesAt (isBlocked : table.BlockedAt path index) :
    table.MatchesAt path index := by
  obtain ⟨element, isElement, hasRule, -⟩ := isBlocked
  exact ⟨(List.getElem?_eq_some_iff.1 isElement).1, hasRule⟩

theorem matchesAt_congr
    (sameNames : other.map PathElement.name = path.map PathElement.name) :
    table.MatchesAt other index ↔ table.MatchesAt path index := by
  have sameLength := congrArg List.length sameNames
  rw [List.length_map, List.length_map] at sameLength
  rw [MatchesAt, MatchesAt, Path.structuralPathTo_eq_of_map_name_eq sameNames,
    sameLength]

theorem map_name_annotateBefore (stop : Nat) (path : Path) :
    (table.annotateBefore path stop).map PathElement.name =
      path.map PathElement.name := by
  have sameNames : (PathElement.name ∘ table.annotatedElement) =
      fun located => located.2.name :=
    funext table.annotatedElement_name
  rw [annotateBefore, List.map_append, List.map_map, sameNames, locate,
    map_comp_snd_locateBelow PathElement.name PathElement.name,
    ← List.map_append, List.take_append_drop]

theorem length_annotateBefore (stop : Nat) (path : Path) :
    (table.annotateBefore path stop).length = path.length := by
  rw [← List.length_map PathElement.name, map_name_annotateBefore,
    List.length_map]

theorem getElem?_annotateBefore (path : Path) (stop index : Nat) :
    (table.annotateBefore path stop)[index]? =
      path[index]?.map fun element =>
        if index < stop then
          table.annotatedElement (path.structuralPathTo index, element)
        else element := by
  by_cases inBounds : index < path.length
  · have passedLength : (locate PathElement.name (path.take stop)).length =
        min stop path.length := by
      rw [locate, length_locateBelow, List.length_take]
    rw [annotateBefore]
    by_cases isBefore : index < stop
    · rw [List.getElem?_append_left
          (by rw [List.length_map, passedLength]; omega),
        List.getElem?_map, Path.getElem?_locate_take, if_pos isBefore,
        Option.map_map]
      simp only [if_pos isBefore]
      rfl
    · have sameIndex : stop + (index - min stop path.length) = index := by
        omega
      rw [List.getElem?_append_right
          (by rw [List.length_map, passedLength]; omega),
        List.length_map, passedLength, List.getElem?_drop, sameIndex]
      simp only [if_neg isBefore, Option.map_id']
  · have isBehind := Nat.le_of_not_lt inBounds
    rw [List.getElem?_eq_none isBehind,
      List.getElem?_eq_none (by rwa [length_annotateBefore]), Option.map_none]

/-- Elements that are no keyed lists are left alone. -/
theorem getElem?_annotateBefore_of_not_matchesAt
    (noMatch : ¬ table.MatchesAt path index) :
    (table.annotateBefore path stop)[index]? = path[index]? := by
  rw [getElem?_annotateBefore]
  cases isElement : path[index]? with
  | none => rfl
  | some element =>
      have noRule : ¬ table.contains (path.structuralPathTo index) = true :=
        fun hasRule =>
          noMatch ⟨(List.getElem?_eq_some_iff.1 isElement).1, hasRule⟩
      rw [Option.map_some, table.annotatedElement_of_not_contains noRule,
        ite_self]

theorem annotateBefore_eq_self
    (noMatch : ∀ index < stop, ¬ table.MatchesAt path index) :
    table.annotateBefore path stop = path := by
  refine List.ext_getElem? fun index => ?_
  by_cases isBefore : index < stop
  · exact getElem?_annotateBefore_of_not_matchesAt (noMatch index isBefore)
  · rw [getElem?_annotateBefore]
    simp only [if_neg isBefore, Option.map_id']

theorem annotatedAt_annotateBefore (isBefore : index < stop)
    (isMatch : table.MatchesAt path index) :
    table.AnnotatedAt path index (table.annotateBefore path stop) := by
  obtain ⟨inBounds, hasRule⟩ := isMatch
  rw [contains_eq_isSome, Option.isSome_iff_exists] at hasRule
  obtain ⟨keyNames, isRule⟩ := hasRule
  refine ⟨keyNames, wildcardElement path[index].name keyNames, isRule, ?_,
    fun key value => get?_wildcardElement⟩
  rw [getElem?_annotateBefore, List.getElem?_eq_getElem inBounds,
    Option.map_some, if_pos isBefore, annotatedElement, isRule]

/-- Without an element that is blocked the walk reaches the end of the path. -/
theorem annotate_of_unblocked
    (unblocked : ∀ index, ¬ table.BlockedAt path index) :
    ∃ changed,
      table.annotate path =
        ⟨table.annotateBefore path path.length, .ok changed⟩ ∧
      (changed = true ↔ ∃ index, table.MatchesAt path index) := by
  have noneBlocked : ∀ located ∈ locate PathElement.name path,
      ¬ table.IsBlocked located := by
    intro located isLocated isBlocked
    obtain ⟨index, element, isElement, rfl⟩ := Path.mem_locate.1 isLocated
    exact unblocked index ⟨element, isElement, isBlocked⟩
  refine ⟨(locate PathElement.name path).any fun located =>
    table.contains located.1, ?_, ?_⟩
  · rw [annotate, table.annotateBelow_of_unblocked noneBlocked, annotateBefore,
      List.take_length, List.drop_length, List.append_nil, Bool.false_or]
    rfl
  · rw [List.any_eq_true]
    constructor
    · rintro ⟨located, isLocated, hasRule⟩
      obtain ⟨index, element, isElement, rfl⟩ := Path.mem_locate.1 isLocated
      exact ⟨index, (List.getElem?_eq_some_iff.1 isElement).1, hasRule⟩
    · rintro ⟨index, inBounds, hasRule⟩
      exact ⟨(path.structuralPathTo index, path[index]), Path.mem_locate.2
        ⟨index, path[index], List.getElem?_eq_getElem inBounds, rfl⟩, hasRule⟩

/-- The walk stops at the first element that is blocked. -/
theorem annotate_of_blockedAt (isBlocked : table.BlockedAt path index)
    (isFirst : ∀ earlier < index, ¬ table.BlockedAt path earlier) :
    table.annotate path =
      ⟨table.annotateBefore path index,
        .error ⟨path.structuralPathTo index⟩⟩ := by
  obtain ⟨element, isElement, isBlocked⟩ := isBlocked
  have noneBlocked : ∀ located ∈ locate PathElement.name (path.take index),
      ¬ table.IsBlocked located := by
    intro located isLocated isBlocked
    obtain ⟨earlier, isEarlier, passed, isPassed, rfl⟩ :=
      Path.mem_locate_take.1 isLocated
    exact isFirst earlier isEarlier ⟨passed, isPassed, isBlocked⟩
  have isRest : path.drop index = element :: path.drop (index + 1) := by
    obtain ⟨inBounds, rfl⟩ := List.getElem?_eq_some_iff.1 isElement
    exact List.drop_eq_getElem_cons inBounds
  have walked := table.annotateBelow_append false noneBlocked (path.drop index)
  rw [Path.structuralPathTo_eq_extend isElement, ofNames] at isBlocked ⊢
  rw [List.take_append_drop, isRest,
    table.annotateBelow_of_isBlocked isBlocked] at walked
  rw [annotate, walked, annotateBefore, isRest]
  rfl

theorem exists_first (property : Nat → Prop) :
    (∀ index, ¬ property index) ∨
      ∃ index, property index ∧ ∀ earlier < index, ¬ property earlier := by
  classical
  by_cases holds : ∃ index, property index
  · exact .inr ⟨Nat.find holds, Nat.find_spec holds,
      fun earlier isEarlier => Nat.find_min holds isEarlier⟩
  · exact .inl (not_exists.1 holds)

/-- The walk comes to the end of the path or to an element that is blocked. -/
theorem exists_stop (table : RuleTable) (path : Path) :
    ∃ stop, (table.annotate path).path = table.annotateBefore path stop ∧
      (path.length ≤ stop ∨ table.BlockedAt path stop) := by
  rcases exists_first (table.BlockedAt path) with
    unblocked | ⟨stop, isBlocked, isFirst⟩
  · obtain ⟨changed, isAnnotated, -⟩ := annotate_of_unblocked unblocked
    exact ⟨path.length, congrArg Annotated.path isAnnotated, .inl le_rfl⟩
  · have isAnnotated := annotate_of_blockedAt isBlocked isFirst
    exact ⟨stop, congrArg Annotated.path isAnnotated, .inr isBlocked⟩

theorem map_name_annotate (table : RuleTable) (path : Path) :
    (table.annotate path).path.map PathElement.name =
      path.map PathElement.name := by
  obtain ⟨stop, isAnnotated, -⟩ := exists_stop table path
  rw [isAnnotated, map_name_annotateBefore]

/-- Once a path has been annotated, its first keyed list has keys. -/
theorem blockedAt_annotate (isMatch : table.MatchesAt path index)
    (isFirst : ∀ earlier < index, ¬ table.MatchesAt path earlier) :
    table.BlockedAt (table.annotate path).path index := by
  obtain ⟨stop, isAnnotated, isEnd⟩ := exists_stop table path
  obtain ⟨inBounds, hasRule⟩ := isMatch
  have isReached : index < stop ∨ table.BlockedAt path index := by
    rcases isEnd with isLast | isBlocked
    · exact .inl (Nat.lt_of_lt_of_le inBounds isLast)
    · rcases Nat.lt_trichotomy index stop with isBefore | rfl | isBehind
      · exact .inl isBefore
      · exact .inr isBlocked
      · exact absurd isBlocked.matchesAt (isFirst stop isBehind)
  rw [isAnnotated, BlockedAt, getElem?_annotateBefore,
    List.getElem?_eq_getElem inBounds, Option.map_some,
    Path.structuralPathTo_eq_of_map_name_eq (map_name_annotateBefore stop path)]
  refine ⟨_, rfl, hasRule, ?_⟩
  by_cases isBefore : index < stop
  · rw [if_pos isBefore]
    exact hasKeys_annotatedElement hasRule
  · obtain ⟨element, isElement, isBlocked⟩ := isReached.resolve_left isBefore
    obtain ⟨_, rfl⟩ := List.getElem?_eq_some_iff.1 isElement
    rw [if_neg isBefore]
    exact isBlocked.2

/-- What annotating makes of a path.  All names stay, and so do the elements that
are no keyed lists.  If no keyed list on the path has keys, each gets the key
names of its rule with the wildcard, and the outcome tells whether there is one.
Otherwise the first that has keys is the error; the keyed lists before it get
wildcards, and it stays with all that is behind it. -/
theorem annotate_until_blocked (table : RuleTable) (path : Path) :
    ((table.annotate path).path.map PathElement.name =
          path.map PathElement.name ∧
        ∀ index, ¬ table.MatchesAt path index →
          (table.annotate path).path[index]? = path[index]?) ∧
      ((∀ index, ¬ table.BlockedAt path index) →
        (∃ changed, (table.annotate path).outcome = .ok changed ∧
            (changed = true ↔ ∃ index, table.MatchesAt path index)) ∧
          ∀ index, table.MatchesAt path index →
            table.AnnotatedAt path index (table.annotate path).path) ∧
      ∀ index, table.BlockedAt path index →
        (∀ earlier < index, ¬ table.BlockedAt path earlier) →
          (table.annotate path).outcome =
              .error ⟨path.structuralPathTo index⟩ ∧
            (∀ earlier < index, table.MatchesAt path earlier →
              table.AnnotatedAt path earlier (table.annotate path).path) ∧
            ∀ later, index ≤ later →
              (table.annotate path).path[later]? = path[later]? := by
  refine ⟨⟨map_name_annotate table path, fun index noMatch => ?_⟩,
    fun unblocked => ?_, fun index isBlocked isFirst => ?_⟩
  · obtain ⟨stop, isAnnotated, -⟩ := exists_stop table path
    rw [isAnnotated, getElem?_annotateBefore_of_not_matchesAt noMatch]
  · obtain ⟨changed, isAnnotated, hasChanged⟩ := annotate_of_unblocked unblocked
    rw [isAnnotated]
    exact ⟨⟨changed, rfl, hasChanged⟩, fun index isMatch =>
      annotatedAt_annotateBefore isMatch.1 isMatch⟩
  · rw [annotate_of_blockedAt isBlocked isFirst]
    refine ⟨rfl, fun earlier isEarlier => annotatedAt_annotateBefore isEarlier,
      fun later isLater => ?_⟩
    rw [getElem?_annotateBefore]
    simp only [if_neg (Nat.not_lt_of_le isLater), Option.map_id']

/-- A keyed list with a rule that repeats a key name, and one below it. -/
def seatSchema : Schema :=
  ((Schema.empty.addRoot "r").push (.child 0 "row" (some "n id n"))
      (by rintro _ ⟨⟩; decide)).push (.child 1 "seat" (some "s"))
      (by rintro _ ⟨⟩; decide)

def seatTable : RuleTable :=
  (empty.insert "/row" ["n", "id", "n"] (by decide)).insert
    "/row/seat" ["s"] (by decide)

/-- The last element is no keyed list, but it has keys. -/
def freeSeatPath : Path :=
  [.ofName "row", .ofName "seat", .withKeys "tag" [("q", "1")]]

def takenSeatPath : Path :=
  [.ofName "row", .withKeys "seat" [("s", "5"), ("q", "7")], .ofName "tag"]

theorem seatTable_annotate_until_blocked :
    ((∃ changed, (seatTable.annotate freeSeatPath).outcome = .ok changed ∧
          (changed = true ↔ ∃ index, seatTable.MatchesAt freeSeatPath index)) ∧
        seatTable.AnnotatedAt freeSeatPath 1
          (seatTable.annotate freeSeatPath).path ∧
        (seatTable.annotate freeSeatPath).path[2]? =
          some (.withKeys "tag" [("q", "1")])) ∧
      (seatTable.annotate takenSeatPath).outcome = .error ⟨"/row/seat"⟩ ∧
        seatTable.AnnotatedAt takenSeatPath 0
          (seatTable.annotate takenSeatPath).path ∧
        (seatTable.annotate takenSeatPath).path[1]? =
          some (.withKeys "seat" [("s", "5"), ("q", "7")]) := by
  have freeElements : ∀ located ∈ locate PathElement.name freeSeatPath,
      ¬ seatTable.IsBlocked located := by
    decide +kernel
  have unblocked (index : Nat) : ¬ seatTable.BlockedAt freeSeatPath index := by
    rintro ⟨element, isElement, isBlocked⟩
    exact freeElements _ (Path.mem_locate.2 ⟨index, element, isElement, rfl⟩)
      isBlocked
  have earlierElements :
      ∀ located ∈ locate PathElement.name (takenSeatPath.take 1),
        ¬ seatTable.IsBlocked located := by
    decide +kernel
  have isFirst : ∀ earlier < 1,
      ¬ seatTable.BlockedAt takenSeatPath earlier := by
    rintro earlier isEarlier ⟨element, isElement, isBlocked⟩
    exact earlierElements _ (Path.mem_locate_take.2
      ⟨earlier, isEarlier, element, isElement, rfl⟩) isBlocked
  have isBlocked : seatTable.BlockedAt takenSeatPath 1 :=
    ⟨_, rfl, by decide +kernel, by decide +kernel⟩
  have noRule : ¬ seatTable.MatchesAt freeSeatPath 2 := by decide +kernel
  have seatMatches : seatTable.MatchesAt freeSeatPath 1 := by decide +kernel
  have rowMatches : seatTable.MatchesAt takenSeatPath 0 := by decide +kernel
  obtain ⟨⟨-, isKept⟩, reachesEnd, -⟩ :=
    annotate_until_blocked seatTable freeSeatPath
  obtain ⟨hasEnded, areAnnotated⟩ := reachesEnd unblocked
  obtain ⟨isError, areAnnotatedBefore, areKept⟩ :=
    (annotate_until_blocked seatTable takenSeatPath).2.2 1 isBlocked isFirst
  exact ⟨⟨hasEnded, areAnnotated 1 seatMatches, isKept 2 noRule⟩, isError,
    areAnnotatedBefore 0 (by decide) rowMatches, areKept 1 le_rfl⟩

theorem matchesAt_annotate_iff :
    table.MatchesAt (table.annotate path).path index ↔
      table.MatchesAt path index :=
  matchesAt_congr (map_name_annotate table path)

/-- The second time stops at the first keyed list of the path. -/
theorem annotate_annotate_of_matchesAt (isMatch : table.MatchesAt path index)
    (isFirst : ∀ earlier < index, ¬ table.MatchesAt path earlier) :
    table.annotate (table.annotate path).path =
      ⟨(table.annotate path).path, .error ⟨path.structuralPathTo index⟩⟩ := by
  have noEarlier : ∀ earlier < index,
      ¬ table.MatchesAt (table.annotate path).path earlier :=
    fun earlier isEarlier =>
      mt matchesAt_annotate_iff.1 (isFirst earlier isEarlier)
  rw [annotate_of_blockedAt (blockedAt_annotate isMatch isFirst)
      fun earlier isEarlier => mt BlockedAt.matchesAt
        (noEarlier earlier isEarlier),
    annotateBefore_eq_self noEarlier,
    Path.structuralPathTo_eq_of_map_name_eq (map_name_annotate table path)]

theorem annotate_of_unmatched
    (noMatch : ∀ index, ¬ table.MatchesAt path index) :
    table.annotate path = ⟨path, .ok false⟩ := by
  obtain ⟨changed, isAnnotated, hasChanged⟩ := annotate_of_unblocked
    fun index => mt BlockedAt.matchesAt (noMatch index)
  have isUnchanged : changed = false := by
    rw [← Bool.not_eq_true, hasChanged]
    exact not_exists.2 noMatch
  rw [isAnnotated, annotateBefore_eq_self fun index _ => noMatch index,
    isUnchanged]

/-- Annotating an annotated path again, whether the first time succeeded or not,
leaves it as it is.  If a keyed list stands on the path the first one is the
error; otherwise nothing has changed. -/
theorem annotate_again (table : RuleTable) (path : Path) :
    (table.annotate (table.annotate path).path).path =
        (table.annotate path).path ∧
      ((∀ index, ¬ table.MatchesAt path index) →
        (table.annotate (table.annotate path).path).outcome = .ok false) ∧
      ∀ index, table.MatchesAt path index →
        (∀ earlier < index, ¬ table.MatchesAt path earlier) →
          (table.annotate (table.annotate path).path).outcome =
            .error ⟨path.structuralPathTo index⟩ := by
  refine ⟨?_, fun noMatch => ?_, fun index isMatch isFirst => ?_⟩
  · rcases exists_first (table.MatchesAt path) with
      noMatch | ⟨index, isMatch, isFirst⟩
    · rw [annotate_of_unmatched noMatch, annotate_of_unmatched noMatch]
    · rw [annotate_annotate_of_matchesAt isMatch isFirst]
  · rw [annotate_of_unmatched noMatch, annotate_of_unmatched noMatch]
  · rw [annotate_annotate_of_matchesAt isMatch isFirst]

/-- The first time fails, and the second time fails at another element. -/
theorem seatTable_annotate_again :
    ofSchema seatSchema = .ok seatTable ∧
      (seatTable.annotate takenSeatPath).outcome = .error ⟨"/row/seat"⟩ ∧
      (seatTable.annotate (seatTable.annotate takenSeatPath).path).outcome =
        .error ⟨"/row"⟩ ∧
      (seatTable.annotate (seatTable.annotate takenSeatPath).path).path =
        (seatTable.annotate takenSeatPath).path ∧
      (seatTable.annotate (seatTable.annotate [.ofName "tag"]).path).outcome =
        .ok false := by
  have rowMatches : seatTable.MatchesAt takenSeatPath 0 := by decide +kernel
  have tagFree : ∀ index, ¬ seatTable.MatchesAt [.ofName "tag"] index := by
    rintro index ⟨inBounds, hasRule⟩
    rw [List.length_singleton, Nat.lt_one_iff] at inBounds
    subst inBounds
    exact absurd hasRule (by decide +kernel)
  exact ⟨by decide +kernel, by decide +kernel,
    (annotate_again seatTable takenSeatPath).2.2 0 rowMatches (by simp),
    (annotate_again seatTable takenSeatPath).1,
    (annotate_again seatTable [.ofName "tag"]).2.1 tagFree⟩

end RuleTable

end KeyedPaths
