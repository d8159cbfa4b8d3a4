import KeyedPaths.Proofs.EntryPaths

/-!
# Lines of descent

The walk from an entry to its root passes all entries above it.  Any two of them
are above one another, so that an entry has exactly one of the children of an
entry above it, and exactly one root, on its walk.
-/

namespace KeyedPaths

namespace Schema

variable {schema : Schema} {id parent above : Nat}

theorem exists_child_of_parent? (isParent : schema.parent? id = some parent) :
    ∃ name key, schema.get? id = some (.child parent name key) := by
  obtain ⟨entry, isEntry, isChild⟩ := Option.bind_eq_some_iff.1 isParent
  obtain ⟨name, key, rfl⟩ := Entry.parent?_eq_some_iff.1 isChild
  exact ⟨name, key, isEntry⟩

theorem parent?_of_child {name : String} {key : Option String}
    (isEntry : schema.get? id = some (.child parent name key)) :
    schema.parent? id = some parent := by
  rw [parent?, isEntry]
  rfl

theorem mem_ancestors_iff :
    above ∈ schema.ancestors id ↔
      above = id ∨ ∃ parent, schema.parent? id = some parent ∧
        above ∈ schema.ancestors parent := by
  cases isParent : schema.parent? id with
  | none => simp [ancestors_of_parent?_eq_none isParent]
  | some parent => simp [ancestors_of_parent?_eq_some isParent]

theorem self_mem_ancestors (schema : Schema) (id : Nat) :
    id ∈ schema.ancestors id :=
  mem_ancestors_iff.2 (.inl rfl)

theorem mem_ancestors_of_parent? (isParent : schema.parent? id = some parent)
    (isAbove : above ∈ schema.ancestors parent) :
    above ∈ schema.ancestors id :=
  mem_ancestors_iff.2 (.inr ⟨parent, isParent, isAbove⟩)

theorem le_of_mem_ancestors (isAbove : above ∈ schema.ancestors id) :
    above ≤ id := by
  induction id using Nat.strongRecOn with
  | ind id ih =>
      rcases mem_ancestors_iff.1 isAbove with rfl | ⟨parent, isParent, isLater⟩
      · exact Nat.le_refl _
      · have isBefore := parent?_lt isParent
        have isLower := ih parent isBefore isLater
        omega

theorem mem_ancestors_trans {middle : Nat}
    (isAbove : above ∈ schema.ancestors middle)
    (isMiddle : middle ∈ schema.ancestors id) :
    above ∈ schema.ancestors id := by
  induction id using Nat.strongRecOn with
  | ind id ih =>
      rcases mem_ancestors_iff.1 isMiddle with rfl | ⟨parent, isParent, isLater⟩
      · exact isAbove
      · exact mem_ancestors_of_parent? isParent
          (ih parent (parent?_lt isParent) isLater)

/-- Of two entries above a third one the earlier is above the later. -/
theorem mem_ancestors_of_le {other : Nat}
    (isAbove : above ∈ schema.ancestors id)
    (isOther : other ∈ schema.ancestors id) (isBefore : above ≤ other) :
    above ∈ schema.ancestors other := by
  induction id using Nat.strongRecOn with
  | ind id ih =>
      rcases mem_ancestors_iff.1 isOther with rfl | ⟨parent, isParent, isLater⟩
      · exact isAbove
      · rcases mem_ancestors_iff.1 isAbove with
          rfl | ⟨otherParent, isOtherParent, isEarlier⟩
        · have isLow := le_of_mem_ancestors isLater
          have isHigh := parent?_lt isParent
          omega
        · cases isParent.symm.trans isOtherParent
          exact ih parent (parent?_lt isParent) isEarlier isLater

/-- No entry is above another one with the same parent, nor a root above
another root. -/
theorem eq_of_mem_ancestors {first second : Nat}
    (sameParent : schema.parent? first = schema.parent? second)
    (isAbove : first ∈ schema.ancestors second) : first = second := by
  rcases mem_ancestors_iff.1 isAbove with isSame | ⟨parent, isParent, isLater⟩
  · exact isSame
  · have isLow := le_of_mem_ancestors isLater
    have isHigh := parent?_lt (sameParent.trans isParent)
    omega

/-- Two entries with one parent, or two roots, have nothing below them in
common. -/
theorem eq_of_parent?_eq {first second : Nat}
    (sameParent : schema.parent? first = schema.parent? second)
    (isFirst : first ∈ schema.ancestors id)
    (isSecond : second ∈ schema.ancestors id) : first = second := by
  rcases Nat.le_total first second with isBefore | isAfter
  · exact eq_of_mem_ancestors sameParent
      (mem_ancestors_of_le isFirst isSecond isBefore)
  · exact (eq_of_mem_ancestors sameParent.symm
      (mem_ancestors_of_le isSecond isFirst isAfter)).symm

/-- Below an entry lie the entry itself and what lies below its children. -/
theorem mem_ancestors_iff_child :
    above ∈ schema.ancestors id ↔
      id = above ∨ ∃ child ∈ schema.children above,
        child ∈ schema.ancestors id := by
  constructor
  · intro isAbove
    induction id using Nat.strongRecOn with
    | ind id ih =>
        rcases mem_ancestors_iff.1 isAbove with
          rfl | ⟨parent, isParent, isLater⟩
        · exact .inl rfl
        · rcases ih parent (parent?_lt isParent) isLater with
            rfl | ⟨child, isChild, isPassed⟩
          · exact .inr ⟨id, mem_children.2 isParent, self_mem_ancestors _ _⟩
          · exact .inr ⟨child, isChild,
              mem_ancestors_of_parent? isParent isPassed⟩
  · rintro (rfl | ⟨child, isChild, isPassed⟩)
    · exact self_mem_ancestors _ _
    · exact mem_ancestors_trans (mem_ancestors_of_parent?
        (mem_children.1 isChild) (self_mem_ancestors _ _)) isPassed

theorem lt_size_of_mem_ancestors (isAbove : above ∈ schema.ancestors id)
    (inUse : above < schema.size) : id < schema.size := by
  rcases mem_ancestors_iff.1 isAbove with rfl | ⟨parent, isParent, -⟩
  · exact inUse
  · exact lt_size_of_parent? isParent

theorem mem_roots : id ∈ schema.roots ↔
    id < schema.size ∧ schema.parent? id = none := by
  rw [roots, List.mem_filter, ids, List.mem_range]
  refine and_congr_right fun inUse => ?_
  obtain ⟨entry, isEntry⟩ := exists_get?_of_lt inUse
  rw [parent?, isEntry]
  cases entry <;> simp [Entry.isRoot, Entry.parent?]

theorem exists_root_of_mem_roots (isRoot : id ∈ schema.roots) :
    ∃ name, schema.get? id = some (.root name) := by
  obtain ⟨inUse, noParent⟩ := mem_roots.1 isRoot
  obtain ⟨entry, isEntry⟩ := exists_get?_of_lt inUse
  rw [parent?, isEntry] at noParent
  cases entry with
  | root name => exact ⟨name, isEntry⟩
  | child parent name key => cases noParent

/-- Every walk ends at a root. -/
theorem exists_root_mem_ancestors (inUse : id < schema.size) :
    ∃ root ∈ schema.roots, root ∈ schema.ancestors id := by
  induction id using Nat.strongRecOn with
  | ind id ih =>
      cases isParent : schema.parent? id with
      | none =>
          exact ⟨id, mem_roots.2 ⟨inUse, isParent⟩, self_mem_ancestors _ _⟩
      | some parent =>
          have isBefore := parent?_lt isParent
          obtain ⟨root, isRoot, isAbove⟩ :=
            ih parent isBefore (Nat.lt_trans isBefore inUse)
          exact ⟨root, isRoot, mem_ancestors_of_parent? isParent isAbove⟩

end Schema

end KeyedPaths
