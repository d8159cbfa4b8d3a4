import KeyedPaths.SchemaDocument
import KeyedPaths.Proofs.Heights
import KeyedPaths.Proofs.JsonNormalForm

/-!
# Texts of schema documents

The text of a schema document is read back as the definitions that were written,
whether the fields of its nodes stand in the order of writing or in ascending
order.  Every level of definitions costs two brackets, one for the list and one
for the node, so that only schemas up to a certain height are read back.
-/

namespace KeyedPaths

namespace NodeDefinition

theorem listToJson_eq_map (nodes : List NodeDefinition) :
    listToJson nodes = nodes.map toJson := by
  induction nodes with
  | nil => rfl
  | cons node rest ih => rw [listToJson, ih, List.map_cons]

/-- The members that a node writes for its children, if it has any. -/
def childrenMembers (children : List Json) : List (String × Json) :=
  if children.isEmpty then [] else [("children", .array children)]

def keyMembers (key : Option String) : List (String × Json) :=
  key.toList.map fun key => ("key", .string key)

theorem toJson_eq (name : String) (key : Option String)
    (children : List NodeDefinition) :
    toJson ⟨name, key, children⟩ =
      .object (("name", .string name) ::
        (keyMembers key ++ childrenMembers (children.map toJson))) := by
  rw [toJson, listToJson_eq_map, keyMembers, childrenMembers,
    List.isEmpty_map]

theorem normalizeMembers_fields (name : String) (key : Option String)
    (children : List Json) :
    Json.normalizeMembers [] (("name", .string name) ::
        (keyMembers key ++ childrenMembers children)) =
      childrenMembers (children.map Json.normalize) ++
        (keyMembers key ++ [("name", .string name)]) := by
  have keyBeforeName : "key" < "name" := by decide
  have childrenBeforeName : "children" < "name" := by decide
  have childrenBeforeKey : "children" < "key" := by decide
  cases key <;> cases children <;>
    simp [keyMembers, childrenMembers, Json.normalizeMembers, insertBinding,
      Json.normalize, Json.normalizeElements_eq_map, keyBeforeName,
      childrenBeforeName, childrenBeforeKey]

/-- The normal form puts the children first and the name last. -/
theorem normalize_toJson (name : String) (key : Option String)
    (children : List NodeDefinition) :
    (toJson ⟨name, key, children⟩).normalize =
      .object (childrenMembers (children.map fun child =>
          child.toJson.normalize) ++
        (keyMembers key ++ [("name", .string name)])) := by
  rw [toJson_eq, Json.normalize, normalizeMembers_fields, List.map_map]
  rfl

theorem numberFree_toJson (node : NodeDefinition) : node.toJson.NumberFree := by
  induction node using children_induction with
  | step name key children ih =>
      rw [toJson_eq]
      refine .object (List.forall_mem_cons.2 ⟨.string name,
        List.forall_mem_append.2 ⟨?_, ?_⟩⟩)
      · rw [keyMembers, List.forall_mem_map]
        exact fun key _ => .string key
      · rw [childrenMembers]
        split
        next => exact List.forall_mem_nil _
        next =>
          exact List.forall_mem_singleton.2
            (.array (List.forall_mem_map.2 ih))

theorem listOfJson_map {document : NodeDefinition → Json}
    {nodes : List NodeDefinition}
    (restored : ∀ node ∈ nodes, ofJson (document node) = .ok node) :
    listOfJson (nodes.map document) = .ok nodes := by
  induction nodes with
  | nil => rfl
  | cons node rest ih =>
      rw [List.forall_mem_cons] at restored
      rw [List.map_cons, listOfJson, restored.1, ih restored.2]
      rfl

theorem visitFields_childrenMembers {fields : NodeFields}
    {children : List Json} {nodes : List NodeDefinition}
    {more : List (String × Json)} (restored : listOfJson children = .ok nodes)
    (noChildren : fields.children = []) :
    visitFields fields (childrenMembers children ++ more) =
      visitFields { fields with children := nodes } more := by
  rw [childrenMembers]
  split
  next noElements =>
    rw [List.isEmpty_iff.1 noElements] at restored
    cases restored
    rw [List.nil_append, ← noChildren]
  next =>
    rw [List.singleton_append, visitFields, if_neg (by decide),
      if_neg (by decide), if_pos rfl, childrenOfJson, restored]
    rfl

theorem visitFields_keyMembers {fields : NodeFields} {key : Option String}
    {more : List (String × Json)} (noKey : fields.key = none) :
    visitFields fields (keyMembers key ++ more) =
      visitFields { fields with key := key } more := by
  cases key with
  | none =>
      rw [keyMembers, Option.toList_none, List.map_nil, List.nil_append,
        ← noKey]
  | some key =>
      rw [keyMembers, Option.toList_some, List.map_singleton,
        List.singleton_append, visitFields, if_neg (by decide), if_pos rfl]
      rfl

/-- A node is restored from the normal form of its document. -/
theorem ofJson_normalize_toJson (node : NodeDefinition) :
    ofJson node.toJson.normalize = .ok node := by
  induction node using children_induction with
  | step name key children ih =>
      rw [normalize_toJson, ofJson,
        visitFields_childrenMembers (listOfJson_map ih) rfl,
        visitFields_keyMembers rfl, visitFields, if_pos rfl]
      rfl

theorem documentOfJson_normalize_listToJson (nodes : List NodeDefinition) :
    documentOfJson (Json.array (listToJson nodes)).normalize = .ok nodes := by
  rw [listToJson_eq_map, Json.normalize, Json.normalizeElements_eq_map,
    List.map_map, documentOfJson]
  exact listOfJson_map fun node _ => ofJson_normalize_toJson node

section Nesting

theorem nestingOfMembers_append (first second : List (String × Json)) :
    Json.nestingOfMembers (first ++ second) =
      max (Json.nestingOfMembers first) (Json.nestingOfMembers second) := by
  induction first with
  | nil => simp [Json.nestingOfMembers]
  | cons member first ih =>
      rw [List.cons_append, Json.nestingOfMembers, ih, Json.nestingOfMembers,
        Nat.max_assoc]

theorem nestingOfMembers_keyMembers (key : Option String) :
    Json.nestingOfMembers (keyMembers key) = 0 := by
  cases key <;> rfl

theorem nestingOfAll_map {document : NodeDefinition → Json}
    {nodes : List NodeDefinition}
    (isNesting : ∀ node ∈ nodes,
      (document node).nesting = 2 * node.levels - 1) :
    Json.nestingOfAll (nodes.map document) = 2 * levelsOfAll nodes - 1 := by
  induction nodes with
  | nil => rfl
  | cons node rest ih =>
      rw [List.forall_mem_cons] at isNesting
      rw [List.map_cons, Json.nestingOfAll, isNesting.1, ih isNesting.2,
        levelsOfAll]
      omega

theorem nestingOfMembers_childrenMembers {document : NodeDefinition → Json}
    {children : List NodeDefinition}
    (isNesting : ∀ child ∈ children,
      (document child).nesting = 2 * child.levels - 1) :
    Json.nestingOfMembers (childrenMembers (children.map document)) =
      2 * levelsOfAll children := by
  rw [childrenMembers, List.isEmpty_map]
  cases children with
  | nil => rfl
  | cons child rest =>
      have isPositive := levels_pos child
      rw [List.isEmpty_cons, if_neg Bool.false_ne_true, Json.nestingOfMembers,
        Json.nesting, nestingOfAll_map isNesting, Json.nestingOfMembers,
        levelsOfAll]
      omega

theorem nesting_toJson (node : NodeDefinition) :
    node.toJson.nesting = 2 * node.levels - 1 := by
  induction node using children_induction with
  | step name key children ih =>
      rw [toJson_eq, Json.nesting, Json.nestingOfMembers, Json.nesting,
        nestingOfMembers_append, nestingOfMembers_keyMembers,
        nestingOfMembers_childrenMembers ih, levels]
      omega

theorem nesting_normalize_toJson (node : NodeDefinition) :
    node.toJson.normalize.nesting = 2 * node.levels - 1 := by
  induction node using children_induction with
  | step name key children ih =>
      rw [normalize_toJson, Json.nesting, nestingOfMembers_append,
        nestingOfMembers_childrenMembers ih, nestingOfMembers_append,
        nestingOfMembers_keyMembers, Json.nestingOfMembers, Json.nesting,
        Json.nestingOfMembers, levels]
      omega

end Nesting

end NodeDefinition

namespace Schema

open NodeDefinition

/-- A document is built from the definitions that its normal form holds. -/
theorem ofText_compact {document : Json} {nodes : List NodeDefinition}
    (isFree : document.NumberFree)
    (isWithin : document.nesting ≤ Json.greatestDepth)
    (holds : documentOfJson document.normalize = .ok nodes) :
    ofText document.compact = (ofDefinitions nodes).mapError .schema := by
  rw [ofText, Json.ofText_compact isFree isWithin]
  change ofJson document = _
  rw [ofJson, holds]
  rfl

theorem ofText_compact_of_greatestDepth_lt {document : Json}
    (isFree : document.NumberFree)
    (isBeyond : Json.greatestDepth < document.nesting) :
    ∃ position,
      ofText document.compact = .error (.text ⟨.nestingTooDeep, position⟩) := by
  obtain ⟨position, isFault⟩ :=
    Json.ofText_compact_of_greatestDepth_lt isFree isBeyond
  rw [ofText, isFault]
  exact ⟨position, rfl⟩

theorem numberFree_toJson (schema : Schema) : schema.toJson.NumberFree := by
  rw [toJson, listToJson_eq_map]
  exact .array (List.forall_mem_map.2 fun node _ => node.numberFree_toJson)

/-- The brackets that are left to the definitions suffice for 63 levels. -/
theorem nesting_map_definitions_le_iff {document : NodeDefinition → Json}
    (isNesting : ∀ node, (document node).nesting = 2 * node.levels - 1)
    (schema : Schema) :
    (Json.array (schema.definitions.map document)).nesting ≤
        Json.greatestDepth ↔ schema.height ≤ 62 := by
  rw [Json.nesting, nestingOfAll_map fun node _ => isNesting node,
    ← levelsOfAll_definitions_le_succ_iff, Json.greatestDepth]
  omega

theorem nesting_toJson_le_iff (schema : Schema) :
    schema.toJson.nesting ≤ Json.greatestDepth ↔ schema.height ≤ 62 := by
  rw [toJson, listToJson_eq_map]
  exact nesting_map_definitions_le_iff nesting_toJson schema

theorem nesting_normalize_toJson_le_iff (schema : Schema) :
    schema.toJson.normalize.nesting ≤ Json.greatestDepth ↔
      schema.height ≤ 62 := by
  rw [toJson, listToJson_eq_map, Json.normalize, Json.normalizeElements_eq_map,
    List.map_map]
  exact nesting_map_definitions_le_iff nesting_normalize_toJson schema

/-- The text of a document is read as far as building a schema from the
definitions goes, if no entry is more than 62 steps away from its root.  Of a
higher schema no text can be read at all. -/
theorem ofText_documents_by_height (schema : Schema) :
    (schema.height ≤ 62 →
      ofText schema.toJson.normalize.compact =
          (ofDefinitions schema.definitions).mapError .schema ∧
        ofText schema.toJson.compact =
          (ofDefinitions schema.definitions).mapError .schema) ∧
      (63 ≤ schema.height →
        (∃ position, ofText schema.toJson.normalize.compact =
            .error (.text ⟨.nestingTooDeep, position⟩)) ∧
          ∃ position, ofText schema.toJson.compact =
            .error (.text ⟨.nestingTooDeep, position⟩)) := by
  have isFree := numberFree_toJson schema
  have holds : documentOfJson schema.toJson.normalize =
      .ok schema.definitions :=
    documentOfJson_normalize_listToJson schema.definitions
  have normalHolds : documentOfJson schema.toJson.normalize.normalize =
      .ok schema.definitions := by
    rw [Json.normalize_normalize, holds]
  have isWithin_iff := nesting_toJson_le_iff schema
  have normalWithin_iff := nesting_normalize_toJson_le_iff schema
  refine ⟨fun isLow => ⟨?_, ?_⟩, fun isHigh => ⟨?_, ?_⟩⟩
  · exact ofText_compact isFree.normalize (normalWithin_iff.2 isLow) normalHolds
  · exact ofText_compact isFree (isWithin_iff.2 isLow) holds
  · exact ofText_compact_of_greatestDepth_lt isFree.normalize (by omega)
  · exact ofText_compact_of_greatestDepth_lt isFree (by omega)

def chainEntry : Nat → Entry
  | 0 => .root "r\""
  | id + 1 => .child id "\\\né" (some "\t")

/-- A chain of entries, each of which is the parent of the next one. -/
def chain (size : Nat) : Schema where
  entries := ((List.range size).map chainEntry).toArray
  parent_lt := by
    intro id parent isParent
    obtain ⟨entry, isEntry, isChild⟩ := Option.bind_eq_some_iff.1 isParent
    rw [List.getElem?_toArray, List.getElem?_map,
      Option.map_eq_some_iff] at isEntry
    obtain ⟨number, isNumber, rfl⟩ := isEntry
    obtain ⟨_, rfl⟩ := List.getElem?_eq_some_iff.1 isNumber
    rw [List.getElem_range] at isChild
    cases id with
    | zero => cases isChild
    | succ id =>
        cases isChild
        exact Nat.lt_succ_self _

theorem chain_ofText :
    ((chain 63).height = 62 ∧
        ofText (chain 63).toJson.normalize.compact = .ok (chain 63) ∧
        ofText (chain 63).toJson.compact = .ok (chain 63)) ∧
      (chain 64).height = 63 ∧
        (∃ position, ofText (chain 64).toJson.normalize.compact =
            .error (.text ⟨.nestingTooDeep, position⟩)) ∧
          ∃ position, ofText (chain 64).toJson.compact =
            .error (.text ⟨.nestingTooDeep, position⟩) := by
  have isLow : (chain 63).height = 62 := by decide +kernel
  have isHigh : (chain 64).height = 63 := by decide +kernel
  have isRestored : ofDefinitions (chain 63).definitions = .ok (chain 63) := by
    decide +kernel
  have restored :=
    (ofText_documents_by_height (chain 63)).1 (Nat.le_of_eq isLow)
  rw [isRestored] at restored
  exact ⟨⟨isLow, restored⟩, isHigh,
    (ofText_documents_by_height (chain 64)).2 (Nat.le_of_eq isHigh.symm)⟩

end Schema

end KeyedPaths
