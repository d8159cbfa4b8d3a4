import KeyedPaths.StringMap

/-!
# Structured paths

A structured path is a list of elements.  An element names an entry; where the
entry is a keyed list, the element also says which of its instances is meant by
giving a value for each key.
-/

namespace KeyedPaths

structure PathElement where
  name : String
  keys : StringMap String
deriving DecidableEq

/-- A structured path, from the first step below a root onwards. -/
abbrev Path := List PathElement

/-- The key value that stands for any instance. -/
def wildcard : String := "*"

namespace PathElement

def ofName (name : String) : PathElement where
  name := name
  keys := .empty

/-- The element with a name and the listed keys.  Of several values for one
key the last counts. -/
def withKeys (name : String) (bindings : List (String × String)) :
    PathElement where
  name := name
  keys := .ofList bindings

def hasKeys (element : PathElement) : Bool :=
  !element.keys.isEmpty

end PathElement

end KeyedPaths
