import KeyedPaths.StringMap

/-!
# JSON values

A value holds what a JSON text says: the elements of arrays and the members of
objects stand in the order in which they are written, and a member that is
written twice occurs twice.  The normal form of a value forgets the order of
members and keeps, of several members with one key, the last.
-/

namespace KeyedPaths

/-- A JSON value.  Integers that fit into 64 bits are kept apart from the other
numbers. -/
inductive Json where
  | null
  | boolean (value : Bool)
  | integer (value : Int)
  | float (value : Float)
  | string (value : String)
  | array (elements : List Json)
  | object (members : List (String × Json))

namespace Json

mutual

/-- The value in which the members of every object are sorted by key, and only
the last of several members with one key is left. -/
def normalize : Json → Json
  | .array elements => .array (normalizeElements elements)
  | .object members => .object (normalizeMembers [] members)
  | scalar => scalar

def normalizeElements : List Json → List Json
  | [] => []
  | element :: rest => element.normalize :: normalizeElements rest

/-- Add members, in their order, to members in normal form. -/
def normalizeMembers (sorted : List (String × Json)) :
    List (String × Json) → List (String × Json)
  | [] => sorted
  | (key, value) :: rest =>
      normalizeMembers (insertBinding key value.normalize sorted) rest

end

/-- The value of the last member of an object with the given key. -/
def member? (value : Json) (key : String) : Option Json :=
  match value with
  | .object members => members.reverse.lookup key
  | _ => none

end Json

end KeyedPaths
