import Mathlib.Data.Set.Function
import KeyedPaths.PathText
import KeyedPaths.Proofs.BindingLists

/-!
# Reading path texts

The text of a path with at least one element can be read back.  Every part of
it, a name, a key name or a key value, ends at the first character that could
end it and stands without a backslash, and what follows that character decides
which part comes next.

The path without elements is shown as a slash, and so is the path whose only
element has the empty name and no keys.  No other two paths have one text.
-/

namespace KeyedPaths

namespace PathText

/-- Read a part of a text up to the first stop that stands without a backslash:
the part with its escapes taken off, and the rest from the stop onwards. -/
def readUntil (stops : List Char) : List Char → List Char × List Char
  | [] => ([], [])
  | '\\' :: char :: rest =>
      (char :: (readUntil stops rest).1, (readUntil stops rest).2)
  | char :: rest =>
      if stops.contains char then ([], char :: rest)
      else (char :: (readUntil stops rest).1, (readUntil stops rest).2)

theorem length_readUntil_le (stops text : List Char) :
    (readUntil stops text).2.length ≤ text.length := by
  fun_induction readUntil stops text with
  | case1 => exact Nat.le_refl _
  | case2 char rest ih => exact Nat.le_add_right_of_le (Nat.le_succ_of_le ih)
  | case3 char rest _ isStop => exact Nat.le_refl _
  | case4 char rest _ notStop ih => exact Nat.le_succ_of_le ih

/-- A part that is read behind a bracket or an equal sign leaves less than that
sign and all behind it. -/
theorem length_drop_readUntil_lt (stops text : List Char) (first : Char) :
    ((readUntil stops text).2.drop 1).length < (first :: text).length := by
  rw [List.length_drop]
  exact Nat.lt_succ_of_le
    (Nat.le_trans (Nat.sub_le _ _) (length_readUntil_le stops text))

/-- The keys at the beginning of a text, and what follows them. -/
def readKeys : List Char → List (String × String) × List Char
  | '[' :: text =>
      let keyName := readUntil ['='] text
      let value := readUntil [']'] (keyName.2.drop 1)
      let later := readKeys (value.2.drop 1)
      ((String.ofList keyName.1, String.ofList value.1) :: later.1, later.2)
  | text => ([], text)
termination_by text => text.length
decreasing_by
  exact Nat.lt_of_lt_of_le (length_drop_readUntil_lt _ _ '[')
    (length_drop_readUntil_lt _ _ '[')

theorem length_readKeys_le (text : List Char) :
    (readKeys text).2.length ≤ text.length := by
  fun_induction readKeys text with
  | case1 text keyName value later ih =>
      exact Nat.le_trans ih (Nat.le_of_lt (Nat.lt_of_lt_of_le
        (length_drop_readUntil_lt _ _ '[') (length_drop_readUntil_lt _ _ '[')))
  | case2 text _ => exact Nat.le_refl _

/-- The elements of a text, up to where no slash stands in front of the next
one. -/
def readElements : List Char → Path
  | '/' :: text =>
      let name := readUntil ['/', '['] text
      let keys := readKeys name.2
      .withKeys (String.ofList name.1) keys.1 :: readElements keys.2
  | _ => []
termination_by text => text.length
decreasing_by
  exact Nat.lt_succ_of_le
    (Nat.le_trans (length_readKeys_le _) (length_readUntil_le _ _))

section Escape

variable {stops special : List Char}

theorem readUntil_stop {stop : Char} (isStop : stop ∈ stops)
    (noBackslash : '\\' ∉ stops) (rest : List Char) :
    readUntil stops (stop :: rest) = ([], stop :: rest) := by
  have notBackslash : stop ≠ '\\' := by
    rintro rfl
    exact noBackslash isStop
  rw [readUntil]
  · simp [isStop]
  · rintro char later isSame -
    exact notBackslash isSame

/-- A character is read back from its escaped form if every stop has to be
escaped. -/
theorem readUntil_escapeChar (stopsEscaped : stops ⊆ special) (char : Char)
    (rest : List Char) :
    readUntil stops (escapeChar special char ++ rest) =
      (char :: (readUntil stops rest).1, (readUntil stops rest).2) := by
  by_cases isSpecial : char = '\\' ∨ char ∈ special
  · have withBackslash : escapeChar special char = ['\\', char] := by
      rw [escapeChar, if_pos (by simpa using isSpecial)]
    rw [withBackslash, List.cons_append, List.cons_append, List.nil_append,
      readUntil]
  · obtain ⟨notBackslash, notSpecial⟩ := not_or.1 isSpecial
    have asIs : escapeChar special char = [char] := by
      simp [escapeChar, notBackslash, notSpecial]
    have notStop : char ∉ stops := fun isStop =>
      notSpecial (stopsEscaped isStop)
    rw [asIs, List.cons_append, List.nil_append, readUntil]
    · simp [notStop]
    · rintro other later isSame -
      exact notBackslash isSame

/-- An escaped part is read back up to the stop with which the rest begins. -/
theorem readUntil_escape (stopsEscaped : stops ⊆ special)
    (noBackslash : '\\' ∉ stops) (text : String) {rest : List Char}
    (restStops : ∀ char ∈ rest.head?, char ∈ stops) :
    readUntil stops (escape special text ++ rest) = (text.toList, rest) := by
  rw [escape]
  induction text.toList with
  | nil =>
      rw [List.flatMap_nil, List.nil_append]
      cases rest with
      | nil => rfl
      | cons stop rest =>
          exact readUntil_stop (restStops stop rfl) noBackslash rest
  | cons char chars ih =>
      rw [List.flatMap_cons, List.append_assoc,
        readUntil_escapeChar stopsEscaped, ih]

end Escape

/-- Keys are read back from their text up to anything but a further key. -/
theorem readKeys_ofKey (bindings : List (String × String)) {rest : List Char}
    (noKey : rest.head? ≠ some '[') :
    readKeys (bindings.flatMap ofKey ++ rest) = (bindings, rest) := by
  induction bindings with
  | nil =>
      rw [List.flatMap_nil, List.nil_append, readKeys]
      rintro later rfl
      exact noKey rfl
  | cons binding bindings ih =>
      obtain ⟨keyName, value⟩ := binding
      have inOrder : ((keyName, value) :: bindings).flatMap ofKey ++ rest =
          '[' :: (escape ['=', ']'] keyName ++ '=' :: (escape [']'] value ++
            ']' :: (bindings.flatMap ofKey ++ rest))) := by
        simp [ofKey]
      rw [inOrder, readKeys, readUntil_escape (by simp) (by simp) keyName
          (by simp), List.drop_one, List.tail_cons,
        readUntil_escape (by simp) (by simp) value (by simp),
        List.drop_one, List.tail_cons, ih, String.ofList_toList,
        String.ofList_toList]

theorem head?_ofElements_ne (path : Path) :
    (ofElements path).head? ≠ some '[' := by
  cases path with
  | nil => simp [ofElements]
  | cons element path => simp [ofElements, ofElement]

/-- Behind a name there stands a further element, a key or nothing. -/
theorem mem_stops_of_head? (bindings : List (String × String)) (path : Path) :
    ∀ char ∈ (bindings.flatMap ofKey ++ ofElements path).head?,
      char ∈ ['/', '['] := by
  cases bindings with
  | nil =>
      cases path with
      | nil => simp [ofElements]
      | cons element path => simp [ofElements, ofElement]
  | cons binding bindings => simp [ofKey]

theorem readElements_ofElements (path : Path) :
    readElements (ofElements path) = path := by
  induction path with
  | nil => rw [ofElements, List.flatMap_nil, readElements]; simp
  | cons element path ih =>
      have inOrder : ofElements (element :: path) =
          '/' :: (escape ['/', '['] element.name ++
            (element.keys.bindings.flatMap ofKey ++ ofElements path)) := by
        simp [ofElements, ofElement]
      rw [inOrder, readElements, readUntil_escape (by simp) (by simp)
          element.name (mem_stops_of_head? _ path),
        readKeys_ofKey _ (head?_ofElements_ne path), ih,
        String.ofList_toList, PathElement.withKeys, StringMap.ofList_bindings]

end PathText

namespace Path

/-- The path of a text, with at least one element if the text begins with a
slash. -/
def ofText (text : String) : Path :=
  PathText.readElements text.toList

theorem ofText_text {path : Path} (nonempty : path ≠ []) :
    ofText path.text = path := by
  rw [ofText, text, if_neg (by simpa using nonempty), String.toList_ofList,
    PathText.readElements_ofElements]

/-- The path without elements looks like a single element without a name. -/
theorem text_nil : text [] = text [.ofName ""] := by
  decide

theorem text_eq_text_nil_iff {path : Path} (nonempty : path ≠ []) :
    path.text = text [] ↔ path = [.ofName ""] := by
  constructor
  · intro sameText
    rw [← ofText_text nonempty, sameText, text_nil,
      ofText_text (List.cons_ne_nil _ _)]
  · rintro rfl
    exact text_nil.symm

theorem text_eq_text_iff (first second : Path) :
    first.text = second.text ↔
      first = second ∨ (first = [] ∧ second = [.ofName ""]) ∨
        (first = [.ofName ""] ∧ second = []) := by
  by_cases firstEmpty : first = []
  · by_cases secondEmpty : second = []
    · simp [firstEmpty, secondEmpty]
    · rw [firstEmpty, eq_comm, text_eq_text_nil_iff secondEmpty]
      simp [Ne.symm secondEmpty]
  · by_cases secondEmpty : second = []
    · rw [secondEmpty, text_eq_text_nil_iff firstEmpty]
      simp [firstEmpty]
    · constructor
      · intro sameText
        refine .inl ?_
        rw [← ofText_text firstEmpty, sameText, ofText_text secondEmpty]
      · rintro (rfl | ⟨isEmpty, -⟩ | ⟨-, isEmpty⟩)
        · rfl
        · exact absurd isEmpty firstEmpty
        · exact absurd isEmpty secondEmpty

/-- The text of a path with elements can be read back, and two paths have one
text exactly if they are the same path, or one is without elements and the other
has a single element without name and keys. -/
theorem text_determines_path :
    (∀ path : Path, path ≠ [] → ofText path.text = path) ∧
      ∀ first second : Path,
        first.text = second.text ↔
          first = second ∨ (first = [] ∧ second = [.ofName ""]) ∨
            (first = [.ofName ""] ∧ second = []) :=
  ⟨fun _ nonempty => ofText_text nonempty, text_eq_text_iff⟩

/-- A path whose parts end in, begin with and consist of the characters that
delimit them. -/
def delimiterPath : Path :=
  [.withKeys "a/[b\\" [("k=]\\", "[v]="), ("", "\\")], .ofName "", .ofName "/"]

theorem ofText_text_delimiterPath :
    delimiterPath ≠ [] ∧
      delimiterPath.text =
        "/a\\/\\[b\\\\[=\\\\][k\\=\\]\\\\=[v\\]=]//\\/" ∧
      ofText delimiterPath.text = delimiterPath := by
  have nonempty : delimiterPath ≠ [] := List.cons_ne_nil _ _
  exact ⟨nonempty, by decide +kernel, text_determines_path.1 _ nonempty⟩

/-- Texts tell the paths of a set apart exactly if the set does not hold both
the path without elements and that of a single element without name and keys. -/
theorem text_injOn_iff (paths : Set Path) :
    Set.InjOn text paths ↔ ¬ ([] ∈ paths ∧ [.ofName ""] ∈ paths) := by
  constructor
  · rintro injOn ⟨holdsEmpty, holdsNameless⟩
    exact absurd (injOn holdsEmpty holdsNameless text_nil).symm
      (List.cons_ne_nil _ _)
  · intro notBoth first isFirst second isSecond sameText
    rcases (text_eq_text_iff first second).1 sameText with
      samePath | ⟨rfl, rfl⟩ | ⟨rfl, rfl⟩
    · exact samePath
    · exact absurd ⟨isFirst, isSecond⟩ notBoth
    · exact absurd ⟨isSecond, isFirst⟩ notBoth

theorem distinct_paths_with_one_text :
    ([] : Path) ≠ [.ofName ""] ∧ text [] = text [.ofName ""] :=
  ⟨(List.cons_ne_nil _ _).symm, by decide⟩

end Path

end KeyedPaths
