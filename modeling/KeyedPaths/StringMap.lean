/-!
# Maps with text keys

A map from texts to values is kept as its list of bindings with the keys in
strictly ascending order.  Texts are compared by code points, which is also the
order of their UTF-8 bytes.  Because the order is part of the type, two maps
with the same bindings are equal, and listing a map needs no sorting.
-/

namespace KeyedPaths

/-- Bind a key in a list of bindings ordered by key, in place of an earlier
binding of the same key. -/
def insertBinding {Value : Type} (key : String) (value : Value) :
    List (String × Value) → List (String × Value)
  | [] => [(key, value)]
  | (otherKey, otherValue) :: rest =>
      if key < otherKey then (key, value) :: (otherKey, otherValue) :: rest
      else if key = otherKey then (key, value) :: rest
      else (otherKey, otherValue) :: insertBinding key value rest

/-- Bindings whose keys ascend strictly. -/
abbrev Ascending {Value : Type} (bindings : List (String × Value)) : Prop :=
  bindings.Pairwise fun earlier later => earlier.1 < later.1

theorem mem_insertBinding {Value : Type} {key : String} {value : Value}
    {bindings : List (String × Value)} {binding : String × Value}
    (isMember : binding ∈ insertBinding key value bindings) :
    binding = (key, value) ∨ binding ∈ bindings := by
  induction bindings with
  | nil => simpa [insertBinding] using isMember
  | cons first rest ih =>
      obtain ⟨otherKey, otherValue⟩ := first
      simp only [insertBinding] at isMember
      split at isMember
      · simpa using isMember
      · split at isMember
        · rcases List.mem_cons.1 isMember with isFirst | isLater
          · exact .inl isFirst
          · exact .inr (List.mem_cons_of_mem _ isLater)
        · rcases List.mem_cons.1 isMember with isFirst | isLater
          · exact .inr (isFirst ▸ List.mem_cons_self)
          · exact (ih isLater).imp_right (List.mem_cons_of_mem _)

theorem insertBinding_ascending {Value : Type} (key : String) (value : Value)
    {bindings : List (String × Value)} (ascending : Ascending bindings) :
    Ascending (insertBinding key value bindings) := by
  induction bindings with
  | nil => simp [insertBinding]
  | cons first rest ih =>
      obtain ⟨otherKey, otherValue⟩ := first
      obtain ⟨isLeast, restAscending⟩ := List.pairwise_cons.1 ascending
      simp only [insertBinding]
      split
      next isBefore =>
        refine List.pairwise_cons.2 ⟨fun binding isMember => ?_, ascending⟩
        rcases List.mem_cons.1 isMember with rfl | isLater
        · exact isBefore
        · exact String.lt_trans isBefore (isLeast binding isLater)
      next notBefore =>
        split
        next isSame =>
          subst isSame
          exact List.pairwise_cons.2 ⟨isLeast, restAscending⟩
        next isOther =>
          refine List.pairwise_cons.2
            ⟨fun binding isMember => ?_, ih restAscending⟩
          rcases mem_insertBinding isMember with rfl | isLater
          · have isAfter : otherKey ≤ key := String.not_lt.1 notBefore
            grind
          · exact isLeast binding isLater

structure StringMap (Value : Type) where
  bindings : List (String × Value)
  /-- Each key is bound once, and the keys ascend. -/
  ascending : Ascending bindings
deriving DecidableEq

namespace StringMap

variable {Value : Type}

def empty : StringMap Value where
  bindings := []
  ascending := List.Pairwise.nil

/-- Bind a key, in place of its earlier value if there is one. -/
def insert (map : StringMap Value) (key : String) (value : Value) :
    StringMap Value where
  bindings := insertBinding key value map.bindings
  ascending := insertBinding_ascending key value map.ascending

/-- Bind each key of a list to the value given last for it. -/
def ofList (bindings : List (String × Value)) : StringMap Value :=
  bindings.foldl (fun map binding => map.insert binding.1 binding.2) empty

def get? (map : StringMap Value) (key : String) : Option Value :=
  map.bindings.lookup key

def contains (map : StringMap Value) (key : String) : Bool :=
  (map.get? key).isSome

def keys (map : StringMap Value) : List String :=
  map.bindings.map Prod.fst

def values (map : StringMap Value) : List Value :=
  map.bindings.map Prod.snd

def size (map : StringMap Value) : Nat :=
  map.bindings.length

def isEmpty (map : StringMap Value) : Bool :=
  map.bindings.isEmpty

end StringMap

theorem lookup_cons_eq_ite {Value : Type} (key : String) (value : Value)
    (bindings : List (String × Value)) (sought : String) :
    ((key, value) :: bindings).lookup sought =
      if sought = key then some value else bindings.lookup sought := by
  by_cases isKey : sought = key
  · simp [isKey]
  · rw [List.lookup_cons, beq_false_of_ne isKey, if_neg isKey]

theorem lookup_insertBinding {Value : Type} (key : String) (value : Value)
    (bindings : List (String × Value)) (sought : String) :
    (insertBinding key value bindings).lookup sought =
      if sought = key then some value else bindings.lookup sought := by
  induction bindings with
  | nil => exact lookup_cons_eq_ite key value [] sought
  | cons first rest ih =>
      obtain ⟨otherKey, otherValue⟩ := first
      simp only [insertBinding]
      split
      · rw [lookup_cons_eq_ite]
      · split
        next isSame =>
          subst isSame
          simp only [lookup_cons_eq_ite]
          split <;> rfl
        next isOther =>
          simp only [lookup_cons_eq_ite, ih]
          by_cases isKey : sought = key
          · simp [isKey, isOther]
          · simp [isKey]

namespace StringMap

variable {Value : Type}

@[simp]
theorem get?_empty (sought : String) :
    (empty : StringMap Value).get? sought = none :=
  rfl

/-- A key that has just been bound has the new value; the others keep theirs. -/
@[simp]
theorem get?_insert (map : StringMap Value) (key : String) (value : Value)
    (sought : String) :
    (map.insert key value).get? sought =
      if sought = key then some value else map.get? sought :=
  lookup_insertBinding key value map.bindings sought

end StringMap

theorem Ascending.nodup {Value : Type} {bindings : List (String × Value)}
    (ascending : Ascending bindings) : bindings.Nodup := by
  refine List.Pairwise.imp ?_ ascending
  rintro earlier later isBefore rfl
  exact String.lt_irrefl _ isBefore

theorem Ascending.lookup_eq_some_iff {Value : Type}
    {bindings : List (String × Value)} (ascending : Ascending bindings)
    {key : String} {value : Value} :
    bindings.lookup key = some value ↔ (key, value) ∈ bindings := by
  induction bindings with
  | nil => simp
  | cons first rest ih =>
      obtain ⟨firstKey, firstValue⟩ := first
      obtain ⟨isLeast, restAscending⟩ := List.pairwise_cons.1 ascending
      rw [lookup_cons_eq_ite, List.mem_cons, ← ih restAscending]
      by_cases isFirst : key = firstKey
      · subst isFirst
        have isUnbound : rest.lookup key ≠ some value := fun isBound =>
          String.lt_irrefl key (isLeast _ ((ih restAscending).1 isBound))
        simp [isUnbound, eq_comm]
      · simp [isFirst]

namespace StringMap

variable {Value : Type}

theorem get?_eq_some_iff {map : StringMap Value} {key : String}
    {value : Value} :
    map.get? key = some value ↔ (key, value) ∈ map.bindings :=
  map.ascending.lookup_eq_some_iff

theorem ext_get? {first second : StringMap Value}
    (agree : ∀ key, first.get? key = second.get? key) : first = second := by
  obtain ⟨firstBindings, firstAscending⟩ := first
  obtain ⟨secondBindings, secondAscending⟩ := second
  have sameMembers (binding : String × Value) :
      binding ∈ firstBindings ↔ binding ∈ secondBindings := by
    have sameValue : firstBindings.lookup binding.1 =
        secondBindings.lookup binding.1 := agree binding.1
    rw [← firstAscending.lookup_eq_some_iff,
      ← secondAscending.lookup_eq_some_iff, sameValue]
  have isPermutation : firstBindings.Perm secondBindings :=
    (List.perm_ext_iff_of_nodup firstAscending.nodup
      secondAscending.nodup).2 sameMembers
  have sameBindings : firstBindings = secondBindings :=
    isPermutation.eq_of_pairwise
      (fun _ _ _ _ isBefore isAfter =>
        absurd (String.lt_trans isBefore isAfter) (String.lt_irrefl _))
      firstAscending secondAscending
  subst sameBindings
  rfl

end StringMap

end KeyedPaths
