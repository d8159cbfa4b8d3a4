import KeyedPaths.Proofs.BindingLists
import KeyedPaths.Proofs.JsonReading

/-!
# Normal forms of JSON values

The members of an object in normal form are the bindings of a map to values in
normal form, in which the member written last of several with one key counts.
A normal form is its own normal form.
-/

namespace KeyedPaths

theorem StringMap.mem_of_mem_ofList {Value : Type}
    {bindings : List (String × Value)} {binding : String × Value}
    (isBound : binding ∈ (ofList bindings).bindings) : binding ∈ bindings :=
  mem_of_get?_ofList (get?_eq_some_iff.2 isBound)

namespace Json

def normalizeMember (member : String × Json) : String × Json :=
  (member.1, member.2.normalize)

theorem normalizeElements_eq_map (elements : List Json) :
    normalizeElements elements = elements.map normalize := by
  induction elements with
  | nil => rfl
  | cons element rest ih => rw [normalizeElements, ih, List.map_cons]

theorem normalizeMembers_bindings (map : StringMap Json)
    (members : List (String × Json)) :
    normalizeMembers map.bindings members =
      ((members.map normalizeMember).foldl
        (fun map binding => map.insert binding.1 binding.2) map).bindings := by
  induction members generalizing map with
  | nil => rfl
  | cons member rest ih =>
      obtain ⟨key, value⟩ := member
      exact ih (map.insert key value.normalize)

theorem normalize_object (members : List (String × Json)) :
    (Json.object members).normalize =
      .object (StringMap.ofList (members.map normalizeMember)).bindings := by
  rw [normalize]
  exact congrArg _ (normalizeMembers_bindings .empty members)

/-- Members in normal form whose values are in normal form stay as they are. -/
theorem normalize_object_bindings {map : StringMap Json}
    (areNormal : ∀ member ∈ map.bindings, member.2.normalize = member.2) :
    (Json.object map.bindings).normalize = .object map.bindings := by
  have sameMembers : map.bindings.map normalizeMember = map.bindings := by
    have sameMember : ∀ member ∈ map.bindings,
        normalizeMember member = id member := fun member isMember => by
      rw [normalizeMember, areNormal member isMember, id]
    rw [List.map_congr_left sameMember, List.map_id]
  rw [normalize_object, sameMembers, StringMap.ofList_bindings]

mutual

theorem normalize_normalize : (value : Json) →
    value.normalize.normalize = value.normalize
  | .null => rfl
  | .boolean _ => rfl
  | .integer _ => rfl
  | .float _ => rfl
  | .string _ => rfl
  | .array elements => by
      have sameElements := normalize_normalize_of_elements elements
      rw [normalize, normalize, normalizeElements_eq_map,
        normalizeElements_eq_map, List.map_map]
      exact congrArg _ (List.map_congr_left sameElements)
  | .object members => by
      rw [normalize_object]
      refine normalize_object_bindings fun member isMember => ?_
      obtain ⟨original, isOriginal, rfl⟩ :=
        List.mem_map.1 (StringMap.mem_of_mem_ofList isMember)
      exact normalize_normalize_of_members members original isOriginal

theorem normalize_normalize_of_elements : (elements : List Json) →
    ∀ element ∈ elements, element.normalize.normalize = element.normalize
  | [] => List.forall_mem_nil _
  | element :: rest => List.forall_mem_cons.2
      ⟨normalize_normalize element, normalize_normalize_of_elements rest⟩

theorem normalize_normalize_of_members : (members : List (String × Json)) →
    ∀ member ∈ members, member.2.normalize.normalize = member.2.normalize
  | [] => List.forall_mem_nil _
  | (_, value) :: rest => List.forall_mem_cons.2
      ⟨normalize_normalize value, normalize_normalize_of_members rest⟩

end

theorem NumberFree.normalize {value : Json} (isFree : value.NumberFree) :
    value.normalize.NumberFree := by
  induction isFree with
  | null => exact .null
  | boolean value => exact .boolean value
  | string value => exact .string value
  | array areFree ih =>
      rw [Json.normalize, normalizeElements_eq_map]
      exact .array (List.forall_mem_map.2 ih)
  | @object members areFree ih =>
      rw [normalize_object]
      refine .object fun member isMember => ?_
      obtain ⟨original, isOriginal, rfl⟩ :=
        List.mem_map.1 (StringMap.mem_of_mem_ofList isMember)
      exact ih original isOriginal

end Json

end KeyedPaths
