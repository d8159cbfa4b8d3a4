/-!
# Structural paths

A structural path says where an entry stands in a schema: it is the text that
writes a slash and a name for every step from just below a root downwards.
Names are written as they are, so a name may itself hold a slash.
-/

namespace KeyedPaths

namespace StructuralPath

/-- The structural path that leads one name further down. -/
def extend (path name : String) : String :=
  path ++ "/" ++ name

/-- The structural path through the given names; no names give the empty
path, which is that of every root. -/
def ofNames (names : List String) : String :=
  names.foldl extend ""

@[simp]
theorem ofNames_nil : ofNames [] = "" :=
  rfl

@[simp]
theorem ofNames_append_singleton (names : List String) (name : String) :
    ofNames (names ++ [name]) = extend (ofNames names) name := by
  simp [ofNames]

end StructuralPath

end KeyedPaths
