import KeyedPaths.Json
import KeyedPaths.JsonString
import KeyedPaths.ShortestDecimal

/-!
# The compact text of a JSON value

Nothing stands between the parts of a compact text.  Members are written in the
order in which the value holds them.
-/

namespace KeyedPaths

namespace Json

mutual

def compactChars : Json → List Char
  | .null => ['n', 'u', 'l', 'l']
  | .boolean true => ['t', 'r', 'u', 'e']
  | .boolean false => ['f', 'a', 'l', 's', 'e']
  | .integer value => (toString value).toList
  | .float value => (floatText value).toList
  | .string value => quote value
  | .array [] => ['[', ']']
  | .array (first :: rest) =>
      '[' :: (first.compactChars ++ compactElements rest)
  | .object [] => ['{', '}']
  | .object ((key, value) :: rest) =>
      '{' :: (quote key ++ ':' :: (value.compactChars ++ compactMembers rest))

/-- The elements of an array after the first one, and the end of the array. -/
def compactElements : List Json → List Char
  | [] => [']']
  | element :: rest => ',' :: (element.compactChars ++ compactElements rest)

/-- The members of an object after the first one, and the end of the object. -/
def compactMembers : List (String × Json) → List Char
  | [] => ['}']
  | (key, value) :: rest =>
      ',' :: (quote key ++ ':' :: (value.compactChars ++ compactMembers rest))

end

def compact (value : Json) : String :=
  String.ofList value.compactChars

end Json

end KeyedPaths
