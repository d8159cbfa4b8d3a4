import KeyedPaths.StructuralPath

/-!
# Structural paths and lists of names

A structural path is the text of a list of names.  Names without a slash can be
read back from it, and every structural path is the text of such names.  A name
that holds a slash cannot be told from the two names around that slash.

Walks along a path keep the structural path of the names passed so far.  Here
every item on a path is put together with the structural path that leads to it.
-/

namespace KeyedPaths

namespace StructuralPath

/-- A name in which no slash occurs. -/
def SlashFree (name : String) : Prop :=
  '/' ∉ name.toList
deriving Decidable

theorem slashFree_append_singleton {names : List String} {name : String}
    (namesFree : ∀ other ∈ names, SlashFree other)
    (nameFree : SlashFree name) :
    ∀ other ∈ names ++ [name], SlashFree other :=
  List.forall_mem_append.2 ⟨namesFree, List.forall_mem_singleton.2 nameFree⟩

def nameChars (names : List String) : List Char :=
  names.flatMap fun name => '/' :: name.toList

theorem toList_foldl_extend (path : String) (names : List String) :
    (names.foldl extend path).toList = path.toList ++ nameChars names := by
  induction names generalizing path with
  | nil => simp [nameChars]
  | cons name names ih =>
      have sameText : (extend path name).toList =
          path.toList ++ '/' :: name.toList := by
        simp [extend]
      rw [List.foldl_cons, ih, sameText, List.append_assoc]
      rfl

theorem toList_ofNames (names : List String) :
    (ofNames names).toList = nameChars names := by
  rw [ofNames, toList_foldl_extend]
  rfl

theorem ofNames_eq_iff {first second : List String} :
    ofNames first = ofNames second ↔ nameChars first = nameChars second := by
  rw [← String.toList_inj, toList_ofNames, toList_ofNames]

theorem ofNames_eq_empty_iff {names : List String} :
    ofNames names = "" ↔ names = [] := by
  rw [← String.toList_inj, toList_ofNames]
  cases names with
  | nil => simp [nameChars]
  | cons name names => simp [nameChars]

/-- Up to the next slash stands the first name, if it is free of slashes. -/
theorem takeWhile_nameChars {name : String} (slashFree : SlashFree name)
    (names : List String) :
    (name.toList ++ nameChars names).takeWhile (· ≠ '/') = name.toList := by
  have noneIsSlash : ∀ char ∈ name.toList, decide (char ≠ '/') = true := by
    intro char isMember
    rw [decide_eq_true_eq]
    rintro rfl
    exact slashFree isMember
  rw [List.takeWhile_append_of_pos noneIsSlash]
  cases names with
  | nil => simp [nameChars]
  | cons next names => simp [nameChars]

/-- Names without slashes are determined by their text, empty names
included. -/
theorem nameChars_injective {first second : List String}
    (firstFree : ∀ name ∈ first, SlashFree name)
    (secondFree : ∀ name ∈ second, SlashFree name)
    (sameText : nameChars first = nameChars second) : first = second := by
  induction first generalizing second with
  | nil =>
      cases second with
      | nil => rfl
      | cons name names => simp [nameChars] at sameText
  | cons name names ih =>
      cases second with
      | nil => simp [nameChars] at sameText
      | cons other others =>
          have sameRest : name.toList ++ nameChars names =
              other.toList ++ nameChars others := by
            simpa [nameChars] using sameText
          have sameChars : name.toList = other.toList := by
            rw [← takeWhile_nameChars (firstFree name List.mem_cons_self) names,
              sameRest,
              takeWhile_nameChars (secondFree other List.mem_cons_self) others]
          have laterText : nameChars names = nameChars others := by
            rw [sameChars] at sameRest
            exact List.append_cancel_left sameRest
          rw [String.toList_inj.1 sameChars,
            ih (fun later isLater => firstFree later (.tail name isLater))
              (fun later isLater => secondFree later (.tail other isLater))
              laterText]

theorem ofNames_injective {first second : List String}
    (firstFree : ∀ name ∈ first, SlashFree name)
    (secondFree : ∀ name ∈ second, SlashFree name)
    (sameText : ofNames first = ofNames second) : first = second :=
  nameChars_injective firstFree secondFree (ofNames_eq_iff.1 sameText)

/-- Any characters after a slash can be cut at their slashes. -/
theorem exists_slashFree_nameChars (chars : List Char) :
    ∃ name names, (∀ part ∈ name :: names, SlashFree part) ∧
      nameChars (name :: names) = '/' :: chars := by
  induction chars with
  | nil => exact ⟨"", [], by decide, rfl⟩
  | cons char chars ih =>
      obtain ⟨name, names, slashFree, sameText⟩ := ih
      by_cases isSlash : char = '/'
      · refine ⟨"", name :: names, List.forall_mem_cons.2 ⟨by decide, slashFree⟩, ?_⟩
        rw [isSlash, ← sameText]
        rfl
      · obtain ⟨nameFree, namesFree⟩ := List.forall_mem_cons.1 slashFree
        refine ⟨String.ofList (char :: name.toList), names,
          List.forall_mem_cons.2 ⟨?_, namesFree⟩, ?_⟩
        · simpa [SlashFree, Ne.symm isSlash] using nameFree
        · have laterText : name.toList ++ nameChars names = chars := by
            simpa [nameChars] using sameText
          simp [nameChars, ← laterText]

/-- Every structural path is the text of names without slashes. -/
theorem exists_slashFree_names (names : List String) :
    ∃ parts, (∀ part ∈ parts, SlashFree part) ∧
      ofNames parts = ofNames names := by
  cases names with
  | nil => exact ⟨[], by simp, rfl⟩
  | cons name names =>
      obtain ⟨part, parts, slashFree, sameText⟩ :=
        exists_slashFree_nameChars (name.toList ++ nameChars names)
      exact ⟨part :: parts, slashFree, ofNames_eq_iff.2 sameText⟩

/-- Every structural path below a root is the text of a single name, which
holds all its slashes but the first. -/
theorem exists_single_name {names : List String} (nonempty : names ≠ []) :
    ∃ name, ofNames [name] = ofNames names := by
  obtain ⟨first, rest, rfl⟩ := List.exists_cons_of_ne_nil nonempty
  refine ⟨String.ofList (first.toList ++ nameChars rest), ofNames_eq_iff.2 ?_⟩
  simp [nameChars]

/-- A structural path with a single slash is the text of no other names. -/
theorem eq_singleton_of_ofNames_eq {names : List String} {name : String}
    (nameFree : SlashFree name) (sameText : ofNames names = ofNames [name]) :
    names = [name] := by
  have sameChars : nameChars names = '/' :: name.toList := by
    simpa [nameChars] using ofNames_eq_iff.1 sameText
  cases names with
  | nil => cases sameChars
  | cons first rest =>
      have sameRest : first.toList ++ nameChars rest = name.toList :=
        (List.cons.inj sameChars).2
      cases rest with
      | nil =>
          rw [nameChars, List.flatMap_nil, List.append_nil] at sameRest
          rw [String.toList_inj.1 sameRest]
      | cons next rest =>
          have isSlash : '/' ∈ name.toList :=
            sameRest ▸ List.mem_append_right _ List.mem_cons_self
          exact absurd isSlash nameFree

section Locate

variable {Item : Type} (nameOf : Item → String)

/-- Put every item of a path below a structural path together with the
structural path through all names up to its own. -/
def locateBelow (path : String) : List Item → List (String × Item)
  | [] => []
  | item :: rest =>
      (extend path (nameOf item), item) ::
        locateBelow (extend path (nameOf item)) rest

def locate (items : List Item) : List (String × Item) :=
  locateBelow nameOf "" items

theorem getElem?_locateBelow (path : String) (items : List Item)
    (index : Nat) :
    (locateBelow nameOf path items)[index]? = items[index]?.map fun item =>
      (((items.take (index + 1)).map nameOf).foldl extend path, item) := by
  induction items generalizing path index with
  | nil => rfl
  | cons item items ih =>
      cases index with
      | zero => rfl
      | succ index =>
          rw [locateBelow, List.getElem?_cons_succ, ih,
            List.getElem?_cons_succ, List.take_succ_cons, List.map_cons,
            List.foldl_cons]

theorem getElem?_locate (items : List Item) (index : Nat) :
    (locate nameOf items)[index]? = items[index]?.map fun item =>
      (ofNames ((items.take (index + 1)).map nameOf), item) :=
  getElem?_locateBelow nameOf "" items index

theorem map_snd_locateBelow (path : String) (items : List Item) :
    (locateBelow nameOf path items).map Prod.snd = items := by
  induction items generalizing path with
  | nil => rfl
  | cons item items ih => rw [locateBelow, List.map_cons, ih]

theorem map_comp_snd_locateBelow {Value : Type} (function : Item → Value)
    (path : String) (items : List Item) :
    (locateBelow nameOf path items).map (fun located => function located.2) =
      items.map function := by
  have sameItems := map_snd_locateBelow nameOf path items
  rw [← congrArg (List.map function) sameItems, List.map_map]
  rfl

theorem length_locateBelow (path : String) (items : List Item) :
    (locateBelow nameOf path items).length = items.length := by
  rw [← List.length_map Prod.snd, map_snd_locateBelow]

/-- Items that keep their names when they are converted keep their structural
paths as well. -/
theorem locateBelow_map {Other : Type} {otherName : Other → String}
    (convert : String × Item → Other)
    (sameName : ∀ located, otherName (convert located) = nameOf located.2)
    (path : String) (items : List Item) :
    locateBelow otherName path ((locateBelow nameOf path items).map convert) =
      (locateBelow nameOf path items).map fun located =>
        (located.1, convert located) := by
  induction items generalizing path with
  | nil => rfl
  | cons item items ih =>
      rw [locateBelow, List.map_cons, locateBelow, sameName, ih, List.map_cons]

end Locate

end StructuralPath

end KeyedPaths
