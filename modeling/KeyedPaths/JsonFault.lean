/-!
# Faults in JSON texts

Reading a JSON text stops at its first fault.  A reader sees only the rest of
the text, so it reports a fault together with the number of bytes that it left
unread; the line and the column follow from this number and the whole text.
-/

namespace KeyedPaths

namespace Json

inductive Fault where
  | endInValue
  | endInList
  | endInObject
  | endInString
  | expectedValue
  | expectedIdentifier
  | expectedListSeparator
  | expectedObjectSeparator
  | expectedColon
  | trailingComma
  | keyIsNoString
  | nestingTooDeep
  | trailingCharacters
  | controlCharacter
  | invalidEscape
  | loneSurrogate
  | unexpectedEndOfEscape
  | invalidNumber
  | numberOutOfRange
deriving DecidableEq

def Fault.message : Fault → String
  | .endInValue => "EOF while parsing a value"
  | .endInList => "EOF while parsing a list"
  | .endInObject => "EOF while parsing an object"
  | .endInString => "EOF while parsing a string"
  | .expectedValue => "expected value"
  | .expectedIdentifier => "expected ident"
  | .expectedListSeparator => "expected `,` or `]`"
  | .expectedObjectSeparator => "expected `,` or `\x7d`"
  | .expectedColon => "expected `:`"
  | .trailingComma => "trailing comma"
  | .keyIsNoString => "key must be a string"
  | .nestingTooDeep => "recursion limit exceeded"
  | .trailingCharacters => "trailing characters"
  | .controlCharacter =>
      "control character (\\u0000-\\u001F) found while parsing a string"
  | .invalidEscape => "invalid escape"
  | .loneSurrogate => "lone leading surrogate in hex escape"
  | .unexpectedEndOfEscape => "unexpected end of hex escape"
  | .invalidNumber => "invalid number"
  | .numberOutOfRange => "number out of range"

def byteLength (text : List Char) : Nat :=
  text.foldl (fun bytes char => bytes + char.utf8Size) 0

/-- A fault and the number of bytes left unread when it was found. -/
structure Failure where
  fault : Fault
  unread : Nat
deriving DecidableEq

/-- The failure at a rest that should have begun differently: the first byte
of the rest counts as read.  At the end of the text there is another fault. -/
def Failure.atRest (fault faultAtEnd : Fault) : List Char → Failure
  | [] => ⟨faultAtEnd, 0⟩
  | rest => ⟨fault, byteLength rest - 1⟩

/-- What comes of reading the front of a text: a result and the rest. -/
abbrev Reading (Result : Type) := Except Failure (Result × List Char)

/-- A place in a text: the line, counted from one, and the number of bytes read
of that line. -/
structure Position where
  line : Nat
  column : Nat
deriving DecidableEq

/-- The place that is reached from another one after the given number of
bytes.  Behind the end of a line comes the start of the next one. -/
def Position.advance (position : Position) (bytes : Nat) :
    List Char → Position
  | [] => position
  | char :: rest =>
      if bytes < char.utf8Size then
        ⟨position.line, position.column + bytes⟩
      else if char = '\n' then
        Position.advance ⟨position.line + 1, 0⟩ (bytes - 1) rest
      else
        Position.advance
          ⟨position.line, position.column + char.utf8Size⟩
          (bytes - char.utf8Size) rest

structure TextError where
  fault : Fault
  position : Position
deriving DecidableEq

def TextError.message (error : TextError) : String :=
  let position := error.position
  s!"{error.fault.message} at line {position.line} column {position.column}"

def Failure.locate (failure : Failure) (text : List Char) : TextError where
  fault := failure.fault
  position :=
    Position.advance ⟨1, 0⟩ (byteLength text - failure.unread) text

end Json

end KeyedPaths
