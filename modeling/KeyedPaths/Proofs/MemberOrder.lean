import Mathlib.Data.List.Nodup
import KeyedPaths.Proofs.DocumentEntries
import KeyedPaths.Proofs.JsonAcceptance
import KeyedPaths.Proofs.JsonNormalForm
import KeyedPaths.SchemaDocument

/-!
# The order of members

Permuting the members of an object whose keys are distinct does not change the
normal form of the value, at whatever depth the object stands.  The nodes of a
schema document are read from the normal form, so that both documents give the
same schema or fail alike.
-/

namespace KeyedPaths

theorem mapM_eq_ite {Source Target : Type} (function : Source → Option Target)
    (sources : List Source) :
    sources.mapM function =
      if ∀ source ∈ sources, (function source).isSome then
        some (sources.filterMap function)
      else none := by
  induction sources with
  | nil => simp
  | cons source rest ih =>
      rw [List.mapM_cons, ih]
      cases isTarget : function source with
      | none => simp [isTarget]
      | some target =>
          rw [List.filterMap_cons_some isTarget]
          simp only [List.forall_mem_cons, isTarget, Option.isSome_some,
            true_and]
          split <;> rfl

theorem StringMap.ofList_eq_of_perm {Value : Type}
    {first second : List (String × Value)} (isPermuted : first.Perm second)
    (distinctKeys : (first.map Prod.fst).Nodup) :
    ofList first = ofList second := by
  have consistent : Consistent first := by
    intro binding isFirst other isOther sameKey
    exact congrArg Prod.snd
      (List.inj_on_of_nodup_map distinctKeys isFirst isOther sameKey)
  have alsoConsistent : Consistent second := fun binding isSecond other isOther =>
    consistent binding (isPermuted.mem_iff.2 isSecond) other
      (isPermuted.mem_iff.2 isOther)
  refine ext_get? fun key => Option.ext fun value => ?_
  constructor
  · intro isBound
    exact get?_ofList_of_mem alsoConsistent
      (isPermuted.mem_iff.1 (mem_of_get?_ofList isBound))
  · intro isBound
    exact get?_ofList_of_mem consistent
      (isPermuted.mem_iff.2 (mem_of_get?_ofList isBound))

namespace Json

/-- The keys of members as far as they can be read. -/
def readableKeys (members : List (List Char × Written)) : List String :=
  members.filterMap fun member => (keyOfBody member.1).toOption

/-- A value comes from another one by permuting, at any depth, the members of
objects with distinct keys. -/
inductive Reordered : Written → Written → Prop
  | refl (value : Written) : Reordered value value
  | trans {first second third : Written} (isReordered : Reordered first second)
      (isFurther : Reordered second third) : Reordered first third
  | permute {members permuted : List (List Char × Written)}
      (distinctKeys : (readableKeys members).Nodup)
      (isPermuted : members.Perm permuted) :
      Reordered (.object members) (.object permuted)
  | element {before after : List Written} {first second : Written}
      (isReordered : Reordered first second) :
      Reordered (.array (before ++ first :: after))
        (.array (before ++ second :: after))
  | member {before after : List (List Char × Written)} {key : List Char}
      {first second : Written} (isReordered : Reordered first second) :
      Reordered (.object (before ++ (key, first) :: after))
        (.object (before ++ (key, second) :: after))

/-- The normal form of the value that is read, if it can be read. -/
def Written.normalWithin (depth : Nat) (value : Written) : Option Json :=
  (value.valueWithin depth).toOption.map Json.normalize

/-- The binding of a member in normal form. -/
def normalMemberWithin (depth : Nat) (member : List Char × Written) :
    Option (String × Json) := do
  let key ← (keyOfBody member.1).toOption
  let value ← member.2.normalWithin depth
  return (key, value)

theorem toOption_mapM {Source Target Other : Type}
    (function : Source → Except Fault Target) (further : Target → Other)
    (sources : List Source) :
    (sources.mapM function).toOption.map (List.map further) =
      sources.mapM fun source => (function source).toOption.map further := by
  induction sources with
  | nil => rfl
  | cons source rest ih =>
      rw [List.mapM_cons, List.mapM_cons, ← ih]
      cases function source with
      | error fault => rfl
      | ok target => cases rest.mapM function <;> rfl

theorem normalWithin_array (depth : Nat) (elements : List Written) :
    (Written.array elements).normalWithin (depth + 1) =
      (elements.mapM (Written.normalWithin depth)).map .array := by
  have sameElements : (elements.mapM (Written.valueWithin depth)).toOption.map
      (List.map normalize) = elements.mapM (Written.normalWithin depth) :=
    toOption_mapM _ _ _
  rw [Written.normalWithin, Written.valueWithin, ← sameElements]
  cases elements.mapM (Written.valueWithin depth) with
  | error fault => rfl
  | ok values =>
      exact congrArg (some ∘ Json.array) (normalizeElements_eq_map values)

theorem normalMemberWithin_eq (depth : Nat) (member : List Char × Written) :
    normalMemberWithin depth member =
      (memberOfParts (Written.valueWithin depth) member).toOption.map
        normalizeMember := by
  rw [normalMemberWithin, memberOfParts, Written.normalWithin]
  cases keyOfBody member.1 with
  | error fault => rfl
  | ok key => cases member.2.valueWithin depth <;> rfl

theorem normalWithin_object (depth : Nat)
    (members : List (List Char × Written)) :
    (Written.object members).normalWithin (depth + 1) =
      ((members.mapM (normalMemberWithin depth)).map StringMap.ofList).map
        fun map => .object map.bindings := by
  have sameMembers :
      (members.mapM (memberOfParts (Written.valueWithin depth))).toOption.map
          (List.map normalizeMember) =
        members.mapM (normalMemberWithin depth) := by
    rw [toOption_mapM, funext (normalMemberWithin_eq depth)]
  rw [Written.normalWithin, Written.valueWithin, ← sameMembers]
  cases members.mapM (memberOfParts (Written.valueWithin depth)) with
  | error fault => rfl
  | ok bindings => exact congrArg some (normalize_object bindings)

theorem map_fst_filterMap_normalMemberWithin {depth : Nat}
    {members : List (List Char × Written)}
    (areRead : ∀ member ∈ members, (normalMemberWithin depth member).isSome) :
    (members.filterMap (normalMemberWithin depth)).map Prod.fst =
      readableKeys members := by
  rw [List.map_filterMap, readableKeys]
  refine List.filterMap_congr fun member isMember => ?_
  obtain ⟨binding, isBinding⟩ :=
    Option.isSome_iff_exists.1 (areRead member isMember)
  rw [isBinding]
  obtain ⟨key, isKey, isValue⟩ := Option.bind_eq_some_iff.1 isBinding
  obtain ⟨value, -, isPair⟩ := Option.bind_eq_some_iff.1 isValue
  cases isPair
  exact isKey.symm

theorem ofList_mapM_eq_of_perm {depth : Nat}
    {members permuted : List (List Char × Written)}
    (distinctKeys : (readableKeys members).Nodup)
    (isPermuted : members.Perm permuted) :
    (members.mapM (normalMemberWithin depth)).map StringMap.ofList =
      (permuted.mapM (normalMemberWithin depth)).map StringMap.ofList := by
  -- All members can be read on both sides, or on neither.
  simp only [mapM_eq_ite, ← isPermuted.mem_iff]
  split
  next areRead =>
    refine congrArg some (StringMap.ofList_eq_of_perm
      (isPermuted.filterMap _) ?_)
    rwa [map_fst_filterMap_normalMemberWithin areRead]
  next => rfl

theorem Reordered.normalWithin_eq {first second : Written}
    (isReordered : Reordered first second) (depth : Nat) :
    first.normalWithin depth = second.normalWithin depth := by
  -- Where no bracket may open any more, neither value can be read.
  induction isReordered generalizing depth with
  | refl value => rfl
  | trans isReordered isFurther ih ihFurther =>
      exact (ih depth).trans (ihFurther depth)
  | permute distinctKeys isPermuted =>
      cases depth with
      | zero => rfl
      | succ depth =>
          rw [normalWithin_object, normalWithin_object,
            ofList_mapM_eq_of_perm distinctKeys isPermuted]
  | element isReordered ih =>
      cases depth with
      | zero => rfl
      | succ depth =>
          simp only [normalWithin_array, List.mapM_append, List.mapM_cons,
            ih depth]
  | member isReordered ih =>
      cases depth with
      | zero => rfl
      | succ depth =>
          simp only [normalWithin_object, List.mapM_append, List.mapM_cons,
            normalMemberWithin, ih depth]

end Json

namespace Schema

open Json

theorem ofJson_eq_of_normalize_eq {first second : Json}
    (sameNormal : first.normalize = second.normalize) :
    ofJson first = ofJson second := by
  rw [ofJson, sameNormal, ofJson]

theorem ofText_of_spells {value : Written} {text : String}
    (isSpelled : Spells value text.toList) :
    (∃ document, value.normalWithin greatestDepth = some document.normalize ∧
        ofText text = ofJson document) ∨
      value.normalWithin greatestDepth = none ∧
        ∃ error, ofText text = .error (.text error) := by
  rcases Json.ofText_of_spells isSpelled with
    ⟨document, isValue, isRead⟩ | ⟨fault, position, isFault, isRead⟩
  · refine .inl ⟨document, ?_, ?_⟩
    · rw [Written.normalWithin, isValue]
      rfl
    · rw [ofText, isRead]
      rfl
  · refine .inr ⟨?_, ⟨fault, position⟩, ?_⟩
    · rw [Written.normalWithin, isFault]
      rfl
    · rw [ofText, isRead]
      rfl

theorem ofJson_cases (document : Json) :
    (∃ schema, ofJson document = .ok schema) ∨
      (∃ fault, ofJson document = .error (.shape fault)) ∨
      ∃ name, ofJson document = .error (.schema (.emptyName name)) := by
  rw [ofJson]
  cases NodeDefinition.documentOfJson document.normalize with
  | error fault => exact .inr (.inl ⟨fault, rfl⟩)
  | ok nodes =>
      cases isBuilt : ofDefinitions nodes with
      | ok schema =>
          refine .inl ⟨schema, ?_⟩
          change (ofDefinitions nodes).mapError DocumentError.schema = _
          rw [isBuilt]
          rfl
      | error error =>
          obtain ⟨name, rfl⟩ := exists_emptyName_of_ofDefinitions isBuilt
          refine .inr (.inr ⟨name, ?_⟩)
          change (ofDefinitions nodes).mapError DocumentError.schema = _
          rw [isBuilt]
          rfl

theorem ofText_of_reordered {first second : Written}
    (isReordered : Reordered first second) {firstText secondText : String}
    (firstSpelled : Spells first firstText.toList)
    (secondSpelled : Spells second secondText.toList) :
    (∃ document, ofText firstText = ofJson document ∧
        ofText secondText = ofJson document) ∨
      ∃ firstError secondError,
        ofText firstText = .error (.text firstError) ∧
          ofText secondText = .error (.text secondError) := by
  have sameNormal := isReordered.normalWithin_eq greatestDepth
  rcases ofText_of_spells firstSpelled with
    ⟨document, isNormal, isLoaded⟩ | ⟨notRead, firstError, isFirst⟩
  · rcases ofText_of_spells secondSpelled with
      ⟨other, isOther, isOtherLoaded⟩ | ⟨notRead, -⟩
    · rw [isNormal, isOther, Option.some.injEq] at sameNormal
      rw [← ofJson_eq_of_normalize_eq sameNormal] at isOtherLoaded
      exact .inl ⟨document, isLoaded, isOtherLoaded⟩
    · rw [isNormal, notRead] at sameNormal
      cases sameNormal
  · rcases ofText_of_spells secondSpelled with
      ⟨other, isOther, -⟩ | ⟨-, secondError, isSecond⟩
    · rw [notRead, isOther] at sameNormal
      cases sameNormal
    · exact .inr ⟨firstError, secondError, isFirst, isSecond⟩

/-- A text comes from another one by permuting the members of objects with
distinct keys, and by any change of the white space. -/
def PermutesMembers (first second : String) : Prop :=
  ∃ value permuted, Reordered value permuted ∧ Spells value first.toList ∧
    Spells permuted second.toList

/-- The order of members does not matter.  Texts that differ in it give the same
schema, or the same error in the shape of the document or in the names of its
nodes, or they are both refused as texts.  Every text that is not refused as a
text is among those that this speaks of. -/
theorem independent_of_member_order :
    (∀ first second : String, PermutesMembers first second →
      (∃ schema, ofText first = .ok schema ∧ ofText second = .ok schema) ∨
        (∃ fault, ofText first = .error (.shape fault) ∧
          ofText second = .error (.shape fault)) ∨
        (∃ name, ofText first = .error (.schema (.emptyName name)) ∧
          ofText second = .error (.schema (.emptyName name))) ∨
        ∃ firstError secondError,
          ofText first = .error (.text firstError) ∧
            ofText second = .error (.text secondError)) ∧
      ∀ text : String, (∀ error, ofText text ≠ .error (.text error)) →
        PermutesMembers text text := by
  refine ⟨?_, fun text notRefused => ?_⟩
  · rintro first second ⟨value, permuted, isReordered, isFirst, isSecond⟩
    rcases ofText_of_reordered isReordered isFirst isSecond with
      ⟨document, firstLoaded, secondLoaded⟩ | areRefused
    · rw [firstLoaded, secondLoaded]
      rcases ofJson_cases document with
        ⟨schema, isSchema⟩ | ⟨fault, isFault⟩ | ⟨name, isEmpty⟩
      · exact .inl ⟨schema, isSchema, isSchema⟩
      · exact .inr (.inl ⟨fault, isFault, isFault⟩)
      · exact .inr (.inr (.inl ⟨name, isEmpty, isEmpty⟩))
    · exact .inr (.inr (.inr areRefused))
  · cases isRead : Json.ofText text with
    | error error =>
        refine absurd ?_ (notRefused error)
        rw [ofText, isRead]
        rfl
    | ok document =>
        obtain ⟨value, isSpelled⟩ := exists_spells_of_ofText isRead
        exact ⟨value, value, .refl value, isSpelled, isSpelled⟩

/-- A document with two mistakes in one node: its name is null, and it has an
unknown field. -/
def nullNameDocument : Json :=
  .object [("name", .string "r"),
    ("children", .array [.object [("name", .null), ("ke\"s", .string "id")]])]

/-- The same document with the members of both nodes in the other order. -/
def unknownFieldDocument : Json :=
  .object [
    ("children", .array [.object [("ke\"s", .string "id"), ("name", .null)]]),
    ("name", .string "r")]

theorem nullNameDocument_reordered :
    Reordered nullNameDocument.written unknownFieldDocument.written := by
  have childReordered : Reordered
      (Json.object [("name", .null), ("ke\"s", .string "id")]).written
      (Json.object [("ke\"s", .string "id"), ("name", .null)]).written :=
    .permute (by decide +kernel) (.swap _ _ _)
  have rootReordered := @Reordered.member []
    [("name".toList.flatMap quoteChar, (Json.string "r").written)]
    ("children".toList.flatMap quoteChar) _ _
    (@Reordered.element [] [] _ _ childReordered)
  exact .trans (.permute (by decide +kernel) (.swap _ _ _)) rootReordered

/-- The text of the other document, with white space around it. -/
def unknownFieldText : String :=
  .ofList ([' '] ++ (unknownFieldDocument.compactChars ++ ['\n']))

theorem nullNameDocument_loads_as_unknownFieldDocument :
    PermutesMembers nullNameDocument.compact unknownFieldText ∧
      (∃ fault, ofText nullNameDocument.compact = .error (.shape fault) ∧
        ofText unknownFieldText = .error (.shape fault)) ∧
      PermutesMembers nullNameDocument.compact nullNameDocument.compact := by
  have pairFree {first second : String × Json}
      (firstFree : first.2.NumberFree) (secondFree : second.2.NumberFree) :
      (Json.object [first, second]).NumberFree :=
    .object (List.forall_mem_cons.2
      ⟨firstFree, List.forall_mem_singleton.2 secondFree⟩)
  have isFree : nullNameDocument.NumberFree :=
    pairFree (.string _) (.array (List.forall_mem_singleton.2
      (pairFree .null (.string _))))
  have alsoFree : unknownFieldDocument.NumberFree :=
    pairFree (.array (List.forall_mem_singleton.2
      (pairFree (.string _) .null))) (.string _)
  have isFault : ofText nullNameDocument.compact =
      .error (.shape (.unknownField "ke\"s" nodeShape)) := by
    rw [ofText, Json.ofText_compact isFree (by decide)]
    rfl
  have isSpelled :
      Spells unknownFieldDocument.written unknownFieldText.toList := by
    rw [unknownFieldText, String.toList_ofList]
    exact .spaced (List.forall_mem_singleton.2 rfl)
      (spells_compactChars alsoFree) (List.forall_mem_singleton.2 rfl)
  have permutesMembers :
      PermutesMembers nullNameDocument.compact unknownFieldText :=
    ⟨_, _, nullNameDocument_reordered, spells_compact isFree, isSpelled⟩
  obtain ⟨loadAlike, areCovered⟩ := independent_of_member_order
  refine ⟨permutesMembers, ?_, areCovered _ fun error isText => ?_⟩
  · rcases loadAlike _ _ permutesMembers with
      ⟨schema, isSchema, -⟩ | isShape | ⟨name, isEmpty, -⟩ |
        ⟨error, _, isText, -⟩
    · rw [isFault] at isSchema
      cases isSchema
    · exact isShape
    · rw [isFault] at isEmpty
      cases isEmpty
    · rw [isFault] at isText
      cases isText
  · rw [isFault] at isText
    cases isText

end Schema

end KeyedPaths
