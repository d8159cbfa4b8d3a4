import KeyedPaths.JsonNumber
import KeyedPaths.JsonString

/-!
# Reading JSON texts

A text is read from left to right, and reading stops at the first fault.  White
space may stand between the parts of a text.  Arrays and objects may be nested
up to a fixed depth; the bracket that goes deeper is the fault.

The readers of lists take the reader of a single element as an argument, so
that nesting is a recursion on the depth that is still left, and a list is a
recursion on a bound for the number of its elements.  The length of the whole
text serves as that bound.  It is never reached, because every element takes at
least one character and the opening bracket takes another.
-/

namespace KeyedPaths

namespace Json

def isSpace (char : Char) : Bool :=
  char = ' ' || char = '\t' || char = '\n' || char = '\r'

def skipSpace (text : List Char) : List Char :=
  text.dropWhile isSpace

def readWord (value : Json) : List Char → List Char → Reading Json
  | [], text => .ok (value, text)
  | _ :: _, [] => .error ⟨.endInValue, 0⟩
  | expected :: word, char :: rest =>
      if char = expected then readWord value word rest
      else .error (.atRest .expectedIdentifier .endInValue (char :: rest))

/-- Read the elements of an array up to its end, where the next element
begins.  The elements read so far are given in reverse. -/
def readElements (readElement : List Char → Reading Json)
    (collected : List Json) : Nat → List Char → Reading Json
  | 0, _ => .error ⟨.endInList, 0⟩
  | bound + 1, text =>
      match readElement text with
      | .error failure => .error failure
      | .ok (element, rest) =>
          match skipSpace rest with
          | ']' :: rest =>
              .ok (.array (element :: collected).reverse, rest)
          | ',' :: rest =>
              match skipSpace rest with
              | ']' :: rest =>
                  .error (.atRest .trailingComma .endInValue (']' :: rest))
              | rest =>
                  readElements readElement (element :: collected) bound rest
          | rest => .error (.atRest .expectedListSeparator .endInList rest)

def readArray (readElement : List Char → Reading Json) (bound : Nat)
    (text : List Char) : Reading Json :=
  match skipSpace text with
  | [] => .error ⟨.endInList, 0⟩
  | ']' :: rest => .ok (.array [], rest)
  | rest => readElements readElement [] bound rest

def readMember (readValue : List Char → Reading Json) :
    List Char → Reading (String × Json)
  | '"' :: text =>
      match readString text with
      | .error failure => .error failure
      | .ok (key, rest) =>
          match skipSpace rest with
          | ':' :: rest =>
              match readValue rest with
              | .error failure => .error failure
              | .ok (value, rest) => .ok ((key, value), rest)
          | rest => .error (.atRest .expectedColon .endInObject rest)
  | text => .error (.atRest .keyIsNoString .endInValue text)

/-- Read the members of an object up to its end, where the next member begins.
The members read so far are given in reverse. -/
def readMembers (readValue : List Char → Reading Json)
    (collected : List (String × Json)) : Nat → List Char → Reading Json
  | 0, _ => .error ⟨.endInObject, 0⟩
  | bound + 1, text =>
      match readMember readValue text with
      | .error failure => .error failure
      | .ok (member, rest) =>
          match skipSpace rest with
          | '}' :: rest =>
              .ok (.object (member :: collected).reverse, rest)
          | ',' :: rest =>
              match skipSpace rest with
              | '}' :: rest =>
                  .error (.atRest .trailingComma .endInValue ('}' :: rest))
              | rest =>
                  readMembers readValue (member :: collected) bound rest
          | rest => .error (.atRest .expectedObjectSeparator .endInObject rest)

def readObject (readValue : List Char → Reading Json) (bound : Nat)
    (text : List Char) : Reading Json :=
  match skipSpace text with
  | [] => .error ⟨.endInObject, 0⟩
  | '}' :: rest => .ok (.object [], rest)
  | rest => readMembers readValue [] bound rest

def readScalar : List Char → Reading Json
  | 'n' :: rest => readWord .null ['u', 'l', 'l'] rest
  | 't' :: rest => readWord (.boolean true) ['r', 'u', 'e'] rest
  | 'f' :: rest => readWord (.boolean false) ['a', 'l', 's', 'e'] rest
  | '-' :: rest => readNumber true rest
  | '"' :: rest =>
      match readString rest with
      | .error failure => .error failure
      | .ok (value, rest) => .ok (.string value, rest)
  | text =>
      if (text.head?.any Char.isDigit) then readNumber false text
      else .error (.atRest .expectedValue .endInValue text)

/-- Read a value that may open as many brackets inside each other as are left
of the greatest depth.  No list in it has more elements than the bound. -/
def readValue (bound : Nat) : Nat → List Char → Reading Json
  | 0, text =>
      match skipSpace text with
      | '[' :: rest => .error ⟨.nestingTooDeep, byteLength rest⟩
      | '{' :: rest => .error ⟨.nestingTooDeep, byteLength rest⟩
      | text => readScalar text
  | depth + 1, text =>
      match skipSpace text with
      | '[' :: rest => readArray (readValue bound depth) bound rest
      | '{' :: rest => readObject (readValue bound depth) bound rest
      | text => readScalar text

def greatestDepth : Nat := 127

def readAll (text : List Char) : Except Failure Json := do
  let (value, rest) ← readValue text.length greatestDepth text
  match skipSpace rest with
  | [] => .ok value
  | rest => .error (.atRest .trailingCharacters .endInValue rest)

def ofText (text : String) : Except TextError Json :=
  (readAll text.toList).mapError fun failure => failure.locate text.toList

end Json

end KeyedPaths
