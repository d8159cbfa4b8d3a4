import KeyedPaths.StringMap

/-!
# Maps filled from lists of bindings

A list of bindings may give several values for one key, of which the last one
counts.  Reading the keys of the list back from the map therefore returns the
listed values exactly when no key is listed with two different values.
-/

namespace KeyedPaths

/-- No key is listed with two different values. -/
def Consistent {Value : Type} (bindings : List (String × Value)) : Prop :=
  ∀ first ∈ bindings, ∀ second ∈ bindings,
    first.1 = second.1 → first.2 = second.2

section FilterMap

variable {Source Target : Type} {function : Source → Option Target}
  {sources : List Source}

theorem map_some_filterMap
    (isDefined : ∀ source ∈ sources, (function source).isSome) :
    (sources.filterMap function).map some = sources.map function := by
  induction sources with
  | nil => rfl
  | cons source rest ih =>
      obtain ⟨target, isTarget⟩ :=
        Option.isSome_iff_exists.1 (isDefined source List.mem_cons_self)
      rw [List.filterMap_cons_some isTarget, List.map_cons, List.map_cons,
        isTarget, ih fun other isLater =>
          isDefined other (List.mem_cons_of_mem source isLater)]

theorem length_filterMap
    (isDefined : ∀ source ∈ sources, (function source).isSome) :
    (sources.filterMap function).length = sources.length := by
  have sameLength := congrArg List.length (map_some_filterMap isDefined)
  simpa using sameLength

/-- Pairing sources with their values gives each pair of the graph once for
every listing of its source. -/
theorem mem_zip_filterMap
    (isDefined : ∀ source ∈ sources, (function source).isSome)
    {source : Source} {target : Target} :
    (source, target) ∈ sources.zip (sources.filterMap function) ↔
      source ∈ sources ∧ function source = some target := by
  induction sources with
  | nil => simp
  | cons first rest ih =>
      obtain ⟨firstTarget, isFirstTarget⟩ :=
        Option.isSome_iff_exists.1 (isDefined first List.mem_cons_self)
      have restDefined : ∀ other ∈ rest, (function other).isSome :=
        fun other isLater =>
          isDefined other (List.mem_cons_of_mem first isLater)
      rw [List.filterMap_cons_some isFirstTarget, List.zip_cons_cons,
        List.mem_cons, ih restDefined, List.mem_cons, Prod.mk.injEq]
      constructor
      · rintro (⟨rfl, rfl⟩ | ⟨isLater, isTarget⟩)
        · exact ⟨.inl rfl, isFirstTarget⟩
        · exact ⟨.inr isLater, isTarget⟩
      · rintro ⟨rfl | isLater, isTarget⟩
        · exact .inl ⟨rfl, Option.some.inj (isTarget.symm.trans isFirstTarget)⟩
        · exact .inr ⟨isLater, isTarget⟩

end FilterMap

namespace StringMap

variable {Value : Type}

theorem mem_keys {map : StringMap Value} {key : String} :
    key ∈ map.keys ↔ (map.get? key).isSome := by
  simp [keys, Option.isSome_iff_exists, get?_eq_some_iff]

theorem mem_keys_of_mem {map : StringMap Value} {binding : String × Value}
    (isBinding : binding ∈ map.bindings) : binding.1 ∈ map.keys :=
  List.mem_map_of_mem isBinding

theorem nodup_keys (map : StringMap Value) : map.keys.Nodup := by
  refine List.Pairwise.imp ?_ (List.pairwise_map.2 map.ascending)
  rintro earlier later isBefore rfl
  exact String.lt_irrefl _ isBefore

theorem isEmpty_eq_false_iff {map : StringMap Value} :
    map.isEmpty = false ↔ ∃ key, key ∈ map.keys := by
  rw [isEmpty, keys]
  cases map.bindings with
  | nil => simp
  | cons binding rest => simp

/-- Binding the keys of a list in turn leaves the value listed last, and the
earlier value of a key that is not listed. -/
theorem get?_foldl_insert (map : StringMap Value)
    (bindings : List (String × Value)) (sought : String) :
    (bindings.foldl (fun map binding => map.insert binding.1 binding.2)
        map).get? sought =
      (bindings.reverse.lookup sought).or (map.get? sought) := by
  induction bindings generalizing map with
  | nil => rfl
  | cons binding rest ih =>
      obtain ⟨key, value⟩ := binding
      rw [List.foldl_cons, ih, get?_insert, List.reverse_cons,
        List.lookup_append, lookup_cons_eq_ite, Option.or_assoc]
      by_cases isKey : sought = key <;> simp [isKey]

theorem get?_ofList (bindings : List (String × Value)) (sought : String) :
    (ofList bindings).get? sought = bindings.reverse.lookup sought := by
  rw [ofList, get?_foldl_insert, get?_empty, Option.or_none]

theorem mem_of_get?_ofList {bindings : List (String × Value)} {key : String}
    {value : Value} (isBound : (ofList bindings).get? key = some value) :
    (key, value) ∈ bindings := by
  rw [get?_ofList, List.lookup_eq_some_iff] at isBound
  obtain ⟨before, after, isSplit, -⟩ := isBound
  rw [← List.mem_reverse, isSplit]
  exact List.mem_append_right before List.mem_cons_self

theorem mem_keys_ofList {bindings : List (String × Value)} {key : String} :
    key ∈ (ofList bindings).keys ↔ key ∈ bindings.map Prod.fst := by
  rw [mem_keys, get?_ofList, List.lookup_isSome_iff, List.mem_map]
  constructor
  · rintro ⟨binding, isListed, isKey⟩
    exact ⟨binding, List.mem_reverse.1 isListed, (eq_of_beq isKey).symm⟩
  · rintro ⟨binding, isListed, rfl⟩
    exact ⟨binding, List.mem_reverse.2 isListed, beq_self_eq_true _⟩

/-- In a consistent list every binding counts, not only the last one of its
key. -/
theorem get?_ofList_of_mem {bindings : List (String × Value)}
    (consistent : Consistent bindings) {key : String} {value : Value}
    (isListed : (key, value) ∈ bindings) :
    (ofList bindings).get? key = some value := by
  have isKey : key ∈ (ofList bindings).keys :=
    mem_keys_ofList.2 (List.mem_map_of_mem isListed)
  obtain ⟨lastValue, isBound⟩ := Option.isSome_iff_exists.1 (mem_keys.1 isKey)
  have sameValue : lastValue = value :=
    consistent _ (mem_of_get?_ofList isBound) _ isListed rfl
  rw [isBound, sameValue]

/-- Looking up the listed keys returns the listed values exactly when the list
is consistent. -/
theorem filterMap_get?_ofList_eq_iff (bindings : List (String × Value)) :
    (bindings.map Prod.fst).filterMap (ofList bindings).get? =
        bindings.map Prod.snd ↔
      Consistent bindings := by
  have isDefined : ∀ key ∈ bindings.map Prod.fst,
      ((ofList bindings).get? key).isSome := fun key isListed =>
    mem_keys.1 (mem_keys_ofList.2 isListed)
  -- Every listed key is bound, so the lookups can be compared one by one.
  rw [← List.map_inj_right fun _ _ => Option.some.inj,
    map_some_filterMap isDefined, List.map_map, List.map_map,
    List.map_inj_left]
  constructor
  · intro bindsAll first isFirst second isSecond sameKey
    have firstBound := bindsAll first isFirst
    have secondBound := bindsAll second isSecond
    simp only [Function.comp_apply] at firstBound secondBound
    rw [← sameKey, firstBound] at secondBound
    exact Option.some.inj secondBound
  · intro consistent binding isListed
    exact get?_ofList_of_mem consistent isListed

/-- Binding the listed bindings of a map in turn gives the map again. -/
@[simp]
theorem ofList_bindings (map : StringMap Value) :
    ofList map.bindings = map := by
  have consistent : Consistent map.bindings := by
    intro first isFirst second isSecond sameKey
    have firstBound := get?_eq_some_iff.2 isFirst
    have secondBound := get?_eq_some_iff.2 isSecond
    rw [sameKey, secondBound] at firstBound
    exact (Option.some.inj firstBound).symm
  refine ext_get? fun key => Option.ext fun value => ?_
  constructor
  · intro isBound
    exact get?_eq_some_iff.2 (mem_of_get?_ofList isBound)
  · intro isBound
    exact get?_ofList_of_mem consistent (get?_eq_some_iff.1 isBound)

/-- Binding the keys of a map to their values in any order, and with
repetitions, gives the map again. -/
theorem ofList_zip_filterMap_get? {map : StringMap Value}
    {keyNames : List String} (sameKeys : ∀ key, key ∈ map.keys ↔ key ∈ keyNames) :
    ofList (keyNames.zip (keyNames.filterMap map.get?)) = map := by
  have isDefined : ∀ key ∈ keyNames, (map.get? key).isSome :=
    fun key isListed => mem_keys.1 ((sameKeys key).2 isListed)
  have sameFirsts :
      (keyNames.zip (keyNames.filterMap map.get?)).map Prod.fst = keyNames :=
    List.map_fst_zip (Nat.le_of_eq (length_filterMap isDefined).symm)
  refine ext_get? fun key => ?_
  by_cases isListed : key ∈ keyNames
  · have isKey : key ∈ (ofList
        (keyNames.zip (keyNames.filterMap map.get?))).keys := by
      rwa [mem_keys_ofList, sameFirsts]
    obtain ⟨value, isBound⟩ := Option.isSome_iff_exists.1 (mem_keys.1 isKey)
    rw [isBound]
    exact ((mem_zip_filterMap isDefined).1 (mem_of_get?_ofList isBound)).2.symm
  · have notListed : key ∉ (ofList
        (keyNames.zip (keyNames.filterMap map.get?))).keys := by
      rwa [mem_keys_ofList, sameFirsts]
    have notBound : key ∉ map.keys := mt (sameKeys key).1 isListed
    rw [mem_keys, Option.not_isSome_iff_eq_none] at notListed notBound
    rw [notListed, notBound]

end StringMap

end KeyedPaths
