import KeyedPaths.PathElement

/-!
# The text of a path

A path is shown as a slash and a name for every element, each name followed by
its keys in brackets, as in the text of an element named `list` whose key `k`
has the value `v`: `/list[k=v]`.

A backslash comes before every character that could be taken for the end of the
part in which it stands: slashes and opening brackets in names, equal signs and
closing brackets in key names, closing brackets in key values, and backslashes
everywhere.
-/

namespace KeyedPaths

namespace PathText

/-- A character, after a backslash if it is a backslash or special. -/
def escapeChar (special : List Char) (char : Char) : List Char :=
  if char = '\\' || special.contains char then ['\\', char] else [char]

/-- A text in which every backslash and every special character comes after a
backslash. -/
def escape (special : List Char) (text : String) : List Char :=
  text.toList.flatMap (escapeChar special)

def ofKey (key : String × String) : List Char :=
  '[' :: escape ['=', ']'] key.1 ++ '=' :: escape [']'] key.2 ++ [']']

def ofElement (element : PathElement) : List Char :=
  '/' :: escape ['/', '['] element.name ++
    element.keys.bindings.flatMap ofKey

def ofElements (path : Path) : List Char :=
  path.flatMap ofElement

end PathText

/-- The text of a path.  The path without elements is shown as a slash. -/
def Path.text (path : Path) : String :=
  if path.isEmpty then "/" else String.ofList (PathText.ofElements path)

end KeyedPaths
