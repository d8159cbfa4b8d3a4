import Mathlib.Data.List.Forall2
import KeyedPaths.SchemaDocument
import KeyedPaths.Proofs.DocumentEntries
import KeyedPaths.Proofs.JsonNormalForm

/-!
# Grammar of schema documents

A schema document denotes a list of definitions: the nodes that it lists, or the
one node that it is.  A node is a record, written as an object or as the list of
its fields, and a list of nodes stands in its field `children`.  Exactly the
documents that denote definitions are loaded, except for those in which a node
below a root has the empty name, and which of the two forms a node has makes no
difference.
-/

namespace KeyedPaths

namespace Json

/-- A record is an object that has no other fields, or a list that is not longer
than that of the fields. -/
inductive IsRecord (shape : RecordShape) : Json → Prop
  | object {members : List (String × Json)}
      (areFields : ∀ member ∈ members, member.1 ∈ shape.fields) :
      IsRecord shape (.object members)
  | list {elements : List Json}
      (isWithin : elements.length ≤ shape.fields.length) :
      IsRecord shape (.array elements)

/-- A field of a record: the last member with its name, or the element at its
place in the list of the fields. -/
def field? (shape : RecordShape) (value : Json) (field : String) :
    Option Json :=
  match value with
  | .array elements => elements[shape.fields.idxOf field]?
  | value => value.member? field

/-- The key specification that a field denotes, which can be left out. -/
inductive DenotesKey : Option Json → Option String → Prop
  | absent : DenotesKey none none
  | null : DenotesKey (some .null) none
  | string (key : String) : DenotesKey (some (.string key)) (some key)

mutual

/-- The definition that a value denotes as a node.  As the name is required, a
list has at least one element. -/
inductive DenotesNode : Json → NodeDefinition → Prop
  | record {value : Json} {name : String} {key : Option String}
      {children : List NodeDefinition}
      (isRecord : value.IsRecord nodeShape)
      (isName : value.field? nodeShape "name" = some (.string name))
      (isKey : DenotesKey (value.field? nodeShape "key") key)
      (areChildren :
        DenotesChildren (value.field? nodeShape "children") children) :
      DenotesNode value ⟨name, key, children⟩

/-- The definitions that a field denotes as children, which can be left out. -/
inductive DenotesChildren : Option Json → List NodeDefinition → Prop
  | absent : DenotesChildren none []
  | list {elements : List Json} {nodes : List NodeDefinition}
      (areNodes : List.Forall₂ DenotesNode elements nodes) :
      DenotesChildren (some (.array elements)) nodes

end

/-- The definitions that a document denotes.  A list at the top is a list of
nodes and not the fields of one node. -/
inductive DenotesDocument : Json → List NodeDefinition → Prop
  | list {elements : List Json} {nodes : List NodeDefinition}
      (areNodes : List.Forall₂ DenotesNode elements nodes) :
      DenotesDocument (.array elements) nodes
  | single {value : Json} {node : NodeDefinition}
      (noList : ∀ elements, value ≠ .array elements)
      (isNode : value.DenotesNode node) : DenotesDocument value [node]

section Parts

/-- The elements of a list or the values of the members of an object. -/
def parts : Json → List Json
  | .array elements => elements
  | .object members => members.map Prod.snd
  | _ => []

theorem sizeOf_lt_of_mem_parts {value part : Json}
    (isPart : part ∈ value.parts) : sizeOf part < sizeOf value := by
  cases value with
  | array elements =>
      have isSmaller : sizeOf part < sizeOf elements :=
        List.sizeOf_lt_of_mem isPart
      rw [array.sizeOf_spec]
      omega
  | object members =>
      obtain ⟨⟨key, part⟩, isMember, rfl⟩ := List.mem_map.1 isPart
      have isSmaller := List.sizeOf_lt_of_mem isMember
      rw [Prod.mk.sizeOf_spec] at isSmaller
      rw [object.sizeOf_spec]
      dsimp only
      omega
  | _ => cases isPart

/-- What holds of a value if it holds of its parts holds of all values. -/
theorem parts_induction {motive : Json → Prop}
    (step : ∀ value, (∀ part ∈ parts value, motive part) → motive value)
    (value : Json) : motive value :=
  step value fun part _ => parts_induction step part
termination_by sizeOf value
decreasing_by exact sizeOf_lt_of_mem_parts ‹_›

theorem mem_parts_of_field? {shape : RecordShape} {value part : Json}
    {field : String} (isField : value.field? shape field = some part) :
    part ∈ value.parts := by
  cases value with
  | array elements => exact List.mem_of_getElem? isField
  | object members =>
      obtain ⟨after, before, isSplit, -⟩ := List.lookup_eq_some_iff.1 isField
      have isMember : (field, part) ∈ members := by
        rw [← List.mem_reverse, isSplit]
        exact List.mem_append_right _ List.mem_cons_self
      exact List.mem_map_of_mem (f := Prod.snd) isMember
  | _ => cases isField

end Parts

theorem getString_eq_ok_iff {value : Json} {text : String} :
    value.getString = .ok text ↔ value = .string text := by
  cases value <;> simp [getString]

section NormalForm

theorem normalize_eq_string_iff {value : Json} {text : String} :
    value.normalize = .string text ↔ value = .string text := by
  cases value <;> simp [normalize]

theorem isRecord_array_iff {shape : RecordShape} {elements : List Json} :
    IsRecord shape (.array elements) ↔
      elements.length ≤ shape.fields.length :=
  ⟨fun | .list isWithin => isWithin, .list⟩

theorem isRecord_object_iff {shape : RecordShape}
    {members : List (String × Json)} :
    IsRecord shape (.object members) ↔
      ∀ key ∈ members.map Prod.fst, key ∈ shape.fields := by
  rw [List.forall_mem_map]
  exact ⟨fun | .object areFields => areFields, .object⟩

theorem lookup_eq_none {members : List (String × Json)} {key : String}
    (isAbsent : key ∉ members.map Prod.fst) : members.lookup key = none := by
  rw [List.lookup_eq_none_iff]
  intro member isMember
  have isOther : member.1 ≠ key := by
    rintro rfl
    exact isAbsent (List.mem_map_of_mem isMember)
  exact bne_iff_ne.2 isOther.symm

theorem lookup_map_normalizeMember (members : List (String × Json))
    (key : String) :
    (members.map normalizeMember).lookup key =
      (members.lookup key).map normalize := by
  induction members with
  | nil => rfl
  | cons member rest ih =>
      obtain ⟨other, value⟩ := member
      rw [List.map_cons, normalizeMember, lookup_cons_eq_ite,
        lookup_cons_eq_ite, ih]
      split <;> rfl

theorem member?_object_bindings (map : StringMap Json) (key : String) :
    (Json.object map.bindings).member? key = map.get? key := by
  rw [member?, ← StringMap.get?_ofList, StringMap.ofList_bindings]

/-- The fields of the normal form are the normal forms of the fields. -/
theorem field?_normalize (shape : RecordShape) (value : Json)
    (field : String) :
    value.normalize.field? shape field =
      (value.field? shape field).map normalize := by
  cases value with
  | array elements =>
      rw [normalize, normalizeElements_eq_map, field?, List.getElem?_map]
      rfl
  | object members =>
      rw [normalize_object, field?, member?_object_bindings,
        StringMap.get?_ofList, ← List.map_reverse, lookup_map_normalizeMember]
      · rfl
      · simp
  | _ => rfl

theorem isRecord_normalize_iff {shape : RecordShape} {value : Json} :
    value.normalize.IsRecord shape ↔ value.IsRecord shape := by
  cases value with
  | array elements =>
      rw [normalize, normalizeElements_eq_map, isRecord_array_iff,
        isRecord_array_iff, List.length_map]
  | object members =>
      rw [normalize_object, isRecord_object_iff, isRecord_object_iff,
        ← StringMap.keys]
      simp only [StringMap.mem_keys_ofList, List.map_map]
      rfl
  | _ => exact Iff.rfl

end NormalForm

end Json

namespace NodeDefinition

open Json

section Fields

/-- What a field is read as: the default if it is missing. -/
def readField {Value : Type} (decode : Json → Except ShapeFault Value)
    (default : Value) : Option Json → Except ShapeFault Value
  | none => .ok default
  | some value => decode value

variable {Value : Type} {decode : Json → Except ShapeFault Value}
  {default : Value}

@[simp]
theorem readField_none : readField decode default none = .ok default :=
  rfl

@[simp]
theorem readField_some (value : Json) :
    readField decode default (some value) = decode value :=
  rfl

end Fields

/-- Fields with distinct names are visited without a fault exactly if they are
fields of a node and each of them is read without a fault. -/
theorem visitFields_eq_ok_iff {fields visited : NodeFields}
    {members : List (String × Json)}
    (areDistinct : (members.map Prod.fst).Nodup) :
    visitFields fields members = .ok visited ↔
      (∀ key ∈ members.map Prod.fst, key ∈ nodeShape.fields) ∧
        readField (fun value => value.getString.map some) fields.name?
            (members.lookup "name") = .ok visited.name? ∧
          readField keyOfJson fields.key (members.lookup "key") =
              .ok visited.key ∧
            readField childrenOfJson fields.children
              (members.lookup "children") = .ok visited.children := by
  induction members generalizing fields with
  | nil =>
      obtain ⟨name?, key, children⟩ := fields
      obtain ⟨visitedName?, visitedKey, visitedChildren⟩ := visited
      simp [visitFields]
  | cons member rest ih =>
      obtain ⟨field, value⟩ := member
      obtain ⟨isFirst, restDistinct⟩ := List.nodup_cons.1 areDistinct
      have notLater : rest.lookup field = none := lookup_eq_none isFirst
      rw [visitFields, List.map_cons, List.forall_mem_cons]
      -- A visited field keeps its value, as no later member has its name.
      by_cases isName : field = "name"
      · subst isName
        simp only [lookup_cons_eq_ite, String.reduceEq, if_true, if_false,
          readField_some, map_eq_ok_iff, bind_eq_ok_iff, ih restDistinct,
          notLater, readField_none]
        constructor
        · rintro ⟨name, isRead, areFields, isSet, others⟩
          exact ⟨⟨by decide, areFields⟩, ⟨name, isRead, Except.ok.inj isSet⟩,
            others⟩
        · rintro ⟨⟨-, areFields⟩, ⟨name, isRead, isSet⟩, others⟩
          exact ⟨name, isRead, areFields, congrArg _ isSet, others⟩
      by_cases isKey : field = "key"
      · subst isKey
        simp only [lookup_cons_eq_ite, String.reduceEq, if_true, if_false,
          readField_some, bind_eq_ok_iff, ih restDistinct, notLater,
          readField_none]
        constructor
        · rintro ⟨key, isRead, areFields, isName, isSet, areChildren⟩
          exact ⟨⟨by decide, areFields⟩, isName, isRead.trans isSet,
            areChildren⟩
        · rintro ⟨⟨-, areFields⟩, isName, isRead, areChildren⟩
          exact ⟨_, isRead, areFields, isName, rfl, areChildren⟩
      by_cases areChildren : field = "children"
      · subst areChildren
        simp only [lookup_cons_eq_ite, String.reduceEq, if_true, if_false,
          readField_some, bind_eq_ok_iff, ih restDistinct, notLater,
          readField_none]
        constructor
        · rintro ⟨children, isRead, areFields, isName, isKey, isSet⟩
          exact ⟨⟨by decide, areFields⟩, isName, isKey, isRead.trans isSet⟩
        · rintro ⟨⟨-, areFields⟩, isName, isKey, isRead⟩
          exact ⟨_, isRead, areFields, isName, isKey, rfl⟩
      · have noField : field ∉ nodeShape.fields := by
          simp [nodeShape, isName, isKey, areChildren]
        simp [isName, isKey, areChildren, noField]

/-- A node is read from an object as from its fields. -/
theorem ofJson_object_eq_ok_iff {map : StringMap Json}
    {node : NodeDefinition} :
    ofJson (.object map.bindings) = .ok node ↔
      (∀ key ∈ map.keys, key ∈ nodeShape.fields) ∧
        map.get? "name" = some (.string node.name) ∧
          readField keyOfJson none (map.get? "key") = .ok node.key ∧
            readField childrenOfJson [] (map.get? "children") =
              .ok node.children := by
  have isName_iff (name : String) :
      readField (fun value => value.getString.map some) none
          (map.get? "name") = .ok (some name) ↔
        map.get? "name" = some (.string name) := by
    cases map.get? "name" with
    | none => simp
    | some value => simp [map_eq_ok_iff, getString_eq_ok_iff]
  obtain ⟨name, key, children⟩ := node
  rw [ofJson, bind_eq_ok_iff]
  simp only [visitFields_eq_ok_iff map.nodup_keys]
  constructor
  · rintro ⟨⟨name?, key, children⟩, ⟨areFields, isName, others⟩, isNode⟩
    cases name? with
    | none => cases isNode
    | some name =>
        cases isNode
        exact ⟨areFields, (isName_iff name).1 isName, others⟩
  · rintro ⟨areFields, isName, others⟩
    exact ⟨⟨some name, key, children⟩,
      ⟨areFields, (isName_iff name).2 isName, others⟩, rfl⟩

theorem ofJson_array_eq_ok_iff {elements : List Json}
    {node : NodeDefinition} :
    ofJson (.array elements) = .ok node ↔
      elements.length ≤ nodeShape.fields.length ∧
        elements[0]? = some (.string node.name) ∧
          readField keyOfJson none elements[1]? = .ok node.key ∧
            readField childrenOfJson [] elements[2]? = .ok node.children := by
  obtain ⟨name, key, children⟩ := node
  match elements with
  | [] => simp [ofJson]
  | [_] | [_, _] | [_, _, _] =>
      simp [ofJson, nodeShape, bind_eq_ok_iff, getString_eq_ok_iff]
  | _ :: _ :: _ :: _ :: _ => simp [ofJson, nodeShape, bind_eq_ok_iff]

/-- A node is read from the normal form of a record as from the normal forms of
its fields, and from no other value. -/
theorem ofJson_normalize_eq_ok_iff {value : Json} {node : NodeDefinition} :
    ofJson value.normalize = .ok node ↔
      value.IsRecord nodeShape ∧
        value.field? nodeShape "name" = some (.string node.name) ∧
          readField keyOfJson none
                ((value.field? nodeShape "key").map Json.normalize) =
              .ok node.key ∧
            readField childrenOfJson []
                ((value.field? nodeShape "children").map Json.normalize) =
              .ok node.children := by
  have isName_iff : (value.field? nodeShape "name").map Json.normalize =
      some (.string node.name) ↔
        value.field? nodeShape "name" = some (.string node.name) := by
    cases value.field? nodeShape "name" with
    | none => rfl
    | some name => simp [normalize_eq_string_iff]
  rw [← isName_iff, ← isRecord_normalize_iff]
  simp only [← field?_normalize]
  cases value with
  | array elements =>
      rw [Json.normalize, isRecord_array_iff, ofJson_array_eq_ok_iff]
      rfl
  | object members =>
      rw [normalize_object, isRecord_object_iff, ofJson_object_eq_ok_iff]
      simp only [field?, member?_object_bindings]
      rfl
  | _ =>
      exact ⟨fun isRead => (nomatch isRead), fun isNode => nomatch isNode.1⟩

theorem readField_keyOfJson_iff {field? : Option Json}
    {key : Option String} :
    readField keyOfJson none (field?.map Json.normalize) = .ok key ↔
      DenotesKey field? key := by
  constructor
  · intro isKey
    cases field? with
    | none =>
        cases isKey
        exact .absent
    | some value =>
        cases value with
        | null =>
            cases isKey
            exact .null
        | string key =>
            cases isKey
            exact .string key
        | _ => cases isKey
  · rintro (_ | _ | _) <;> rfl

theorem readField_childrenOfJson_iff {field? : Option Json}
    (denotes_iff : ∀ child, field? = some child → ∀ nodes,
      childrenOfJson child.normalize = .ok nodes ↔
        DenotesChildren (some child) nodes)
    {nodes : List NodeDefinition} :
    readField childrenOfJson [] (field?.map Json.normalize) = .ok nodes ↔
      DenotesChildren field? nodes := by
  cases field? with
  | none =>
      rw [Option.map_none, readField_none, Except.ok.injEq]
      constructor
      · rintro rfl
        exact .absent
      · rintro ⟨⟩
        rfl
  | some child =>
      rw [Option.map_some, readField_some]
      exact denotes_iff child rfl nodes

theorem denotesNode_iff {value : Json} {node : NodeDefinition} :
    value.DenotesNode node ↔
      value.IsRecord nodeShape ∧
        value.field? nodeShape "name" = some (.string node.name) ∧
          DenotesKey (value.field? nodeShape "key") node.key ∧
            DenotesChildren (value.field? nodeShape "children")
              node.children := by
  constructor
  · rintro ⟨isRecord, isName, isKey, areChildren⟩
    exact ⟨isRecord, isName, isKey, areChildren⟩
  · obtain ⟨name, key, children⟩ := node
    rintro ⟨isRecord, isName, isKey, areChildren⟩
    exact DenotesNode.record isRecord isName isKey areChildren

theorem listOfJson_map_eq_ok_iff {elements : List Json}
    (denotes_iff : ∀ element ∈ elements, ∀ node,
      ofJson element.normalize = .ok node ↔ element.DenotesNode node)
    {nodes : List NodeDefinition} :
    listOfJson (elements.map Json.normalize) = .ok nodes ↔
      List.Forall₂ DenotesNode elements nodes := by
  induction elements generalizing nodes with
  | nil =>
      rw [List.map_nil, listOfJson, List.forall₂_nil_left_iff,
        Except.ok.injEq, eq_comm]
  | cons element rest ih =>
      obtain ⟨first_iff, later_iff⟩ := List.forall_mem_cons.1 denotes_iff
      rw [List.map_cons, listOfJson, List.forall₂_cons_left_iff]
      simp only [bind_eq_ok_iff, first_iff, ih later_iff, Except.ok.injEq]
      constructor
      · rintro ⟨node, isNode, later, areLater, rfl⟩
        exact ⟨node, later, isNode, areLater, rfl⟩
      · rintro ⟨node, later, isNode, areLater, rfl⟩
        exact ⟨node, isNode, later, areLater, rfl⟩

/-- A value is read as a node exactly as it denotes one, and as children exactly
as it denotes them. -/
theorem denotes_iff (value : Json) :
    (∀ node, ofJson value.normalize = .ok node ↔ value.DenotesNode node) ∧
      ∀ nodes, childrenOfJson value.normalize = .ok nodes ↔
        DenotesChildren (some value) nodes := by
  -- The children of a node are the elements of one of its fields, two steps
  -- below it, so the field has to be covered by the induction as well.
  induction value using parts_induction with
  | step value ih =>
      constructor
      · intro node
        have areChildren_iff : readField childrenOfJson []
            ((value.field? nodeShape "children").map Json.normalize) =
              .ok node.children ↔
            DenotesChildren (value.field? nodeShape "children")
              node.children :=
          readField_childrenOfJson_iff fun child isField =>
            (ih child (mem_parts_of_field? isField)).2
        rw [ofJson_normalize_eq_ok_iff, denotesNode_iff,
          readField_keyOfJson_iff, areChildren_iff]
      · intro nodes
        cases value with
        | array elements =>
            have denotes_iff : ∀ element ∈ elements, ∀ node,
                ofJson element.normalize = .ok node ↔
                  element.DenotesNode node :=
              fun element isElement => (ih element isElement).1
            rw [Json.normalize, childrenOfJson, normalizeElements_eq_map,
              listOfJson_map_eq_ok_iff denotes_iff]
            exact ⟨.list, fun | .list areNodes => areNodes⟩
        | _ =>
            exact ⟨fun areRead => (nomatch areRead),
              fun areChildren => nomatch areChildren⟩

theorem documentOfJson_normalize_eq_ok_iff {document : Json}
    {nodes : List NodeDefinition} :
    documentOfJson document.normalize = .ok nodes ↔
      document.DenotesDocument nodes := by
  have single_iff (noList : ∀ elements, document ≠ .array elements) :
      (ofJson document.normalize >>= fun node => Except.ok [node]) =
          .ok nodes ↔
        document.DenotesDocument nodes := by
    simp only [bind_eq_ok_iff, (denotes_iff document).1, Except.ok.injEq]
    constructor
    · rintro ⟨node, isNode, rfl⟩
      exact .single noList isNode
    · rintro (areNodes | ⟨-, isNode⟩)
      · exact absurd rfl (noList _)
      · exact ⟨_, isNode, rfl⟩
  cases document with
  | array elements =>
      have areDenoted : ∀ element ∈ elements, ∀ node,
          ofJson element.normalize = .ok node ↔ element.DenotesNode node :=
        fun element _ => (denotes_iff element).1
      rw [Json.normalize, documentOfJson, normalizeElements_eq_map,
        listOfJson_map_eq_ok_iff areDenoted]
      constructor
      · exact .list
      · rintro (areNodes | ⟨noList, -⟩)
        · exact areNodes
        · exact absurd rfl (noList elements)
  | _ => exact single_iff fun _ => nofun

theorem denotesDocument_unique {document : Json}
    {nodes other : List NodeDefinition}
    (isDenoted : document.DenotesDocument nodes)
    (isOther : document.DenotesDocument other) : nodes = other := by
  rw [← documentOfJson_normalize_eq_ok_iff] at isDenoted isOther
  exact Except.ok.inj (isDenoted.symm.trans isOther)

end NodeDefinition

namespace Schema

open NodeDefinition Json

/-- A document that denotes definitions is loaded as they are. -/
theorem ofJson_of_denotes {document : Json} {nodes : List NodeDefinition}
    (isDenoted : document.DenotesDocument nodes) :
    ofJson document = (ofDefinitions nodes).mapError .schema := by
  rw [ofJson, documentOfJson_normalize_eq_ok_iff.2 isDenoted]
  rfl

theorem ofJson_eq_ok_iff {document : Json} {schema : Schema} :
    ofJson document = .ok schema ↔
      ∃ nodes, document.DenotesDocument nodes ∧
        ofDefinitions nodes = .ok schema := by
  rw [ofJson, bind_eq_ok_iff]
  simp only [mapError_eq_ok_iff, documentOfJson_normalize_eq_ok_iff]

/-- Exactly the documents that denote definitions are loaded, unless a node
below a root has the empty name.  The schema is built from the only definitions
that the document denotes, so that all documents that denote them are loaded
alike, and what a node denotes depends on its fields and not on its form. -/
theorem ofJson_by_grammar (document : Json) :
    ((∃ schema, ofJson document = .ok schema) ↔
        ∃ nodes, document.DenotesDocument nodes ∧
          ∀ below ∈ nodesBelow nodes, below.name ≠ "") ∧
      (∀ schema, ofJson document = .ok schema →
        ∃ nodes, (∀ other, document.DenotesDocument other ↔ other = nodes) ∧
          ofDefinitions nodes = .ok schema) ∧
      (∀ respelled nodes, document.DenotesDocument nodes →
        respelled.DenotesDocument nodes →
          ofJson respelled = ofJson document) ∧
      ∀ first second : Json, first.IsRecord nodeShape →
        second.IsRecord nodeShape →
          (∀ field ∈ nodeShape.fields,
            first.field? nodeShape field = second.field? nodeShape field) →
          ∀ node, first.DenotesNode node ↔ second.DenotesNode node := by
  refine ⟨⟨?_, ?_⟩, ?_, ?_, ?_⟩
  · rintro ⟨schema, isLoaded⟩
    obtain ⟨nodes, isDenoted, isBuilt⟩ := ofJson_eq_ok_iff.1 isLoaded
    exact ⟨nodes, isDenoted,
      (exists_ofDefinitions_iff nodes).1 ⟨schema, isBuilt⟩⟩
  · rintro ⟨nodes, isDenoted, areNamed⟩
    obtain ⟨schema, isBuilt⟩ := (exists_ofDefinitions_iff nodes).2 areNamed
    exact ⟨schema, ofJson_eq_ok_iff.2 ⟨nodes, isDenoted, isBuilt⟩⟩
  · intro schema isLoaded
    obtain ⟨nodes, isDenoted, isBuilt⟩ := ofJson_eq_ok_iff.1 isLoaded
    refine ⟨nodes, fun other => ⟨fun isOther => ?_, ?_⟩, isBuilt⟩
    · exact denotesDocument_unique isOther isDenoted
    · rintro rfl
      exact isDenoted
  · intro respelled nodes isDenoted isRespelled
    rw [ofJson_of_denotes isDenoted, ofJson_of_denotes isRespelled]
  · intro first second firstRecord secondRecord sameFields node
    rw [denotesNode_iff, denotesNode_iff,
      sameFields "name" (by decide), sameFields "key" (by decide),
      sameFields "children" (by decide)]
    exact and_congr_left fun _ => iff_of_true firstRecord secondRecord

/-- A root as an object, with children in both forms. -/
def objectDocument : Json :=
  .object [("children", .array [
      .object [("key", .string "k id"), ("name", .string "list")],
      .array [.string "box", .null, .array [.array [.string "leaf"]]]]),
    ("key", .string "root key"), ("name", .string "rack")]

/-- The same root as a list of its fields, each child in the other form. -/
def listDocument : Json :=
  .array [.array [.string "rack", .string "root key", .array [
    .array [.string "list", .string "k id"],
    .object [("name", .string "box"),
      ("children", .array [.object [("name", .string "leaf")]])]]]]

theorem objectDocument_loads_as_listDocument :
    (∃ schema, ofJson objectDocument = .ok schema) ∧
      ofJson listDocument = ofJson objectDocument ∧
      ¬ ∃ schema, ofJson (.array [.string "rack"]) = .ok schema := by
  have isDenoted : objectDocument.DenotesDocument [⟨"rack", some "root key",
      [⟨"list", some "k id", []⟩, ⟨"box", none, [⟨"leaf", none, []⟩]⟩]⟩] :=
    documentOfJson_normalize_eq_ok_iff.1 rfl
  have isRespelled : listDocument.DenotesDocument [⟨"rack", some "root key",
      [⟨"list", some "k id", []⟩, ⟨"box", none, [⟨"leaf", none, []⟩]⟩]⟩] :=
    documentOfJson_normalize_eq_ok_iff.1 rfl
  obtain ⟨isLoaded_iff, -, loadsAlike, -⟩ := ofJson_by_grammar objectDocument
  refine ⟨isLoaded_iff.2 ⟨_, isDenoted, by decide +kernel⟩,
    loadsAlike _ _ isDenoted isRespelled, ?_⟩
  rintro isLoaded
  obtain ⟨nodes, (areNodes | ⟨noList, -⟩), -⟩ :=
    (ofJson_by_grammar (.array [.string "rack"])).1.1 isLoaded
  · obtain ⟨node, -, isNode, -⟩ := List.forall₂_cons_left_iff.1 areNodes
    exact nomatch (denotesNode_iff.1 isNode).1
  · exact absurd rfl (noList _)

end Schema

end KeyedPaths
