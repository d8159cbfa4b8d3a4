import KeyedPaths.JsonFault

/-!
# JSON strings

Writing a string puts it between quotes and escapes quotes, backslashes and the
control characters below the space; every other character stands for itself.

Reading goes through a string one character at a time.  The state says how far
an escape sequence has come.  A character outside the basic plane may be
written as two escapes in a row, a leading and a trailing surrogate.
-/

namespace KeyedPaths

namespace Json

def escapeLetter? (char : Char) : Option Char :=
  match char with
  | '"' => some '"'
  | '\\' => some '\\'
  | '\x08' => some 'b'
  | '\x0c' => some 'f'
  | '\n' => some 'n'
  | '\r' => some 'r'
  | '\t' => some 't'
  | _ => none

def quoteChar (char : Char) : List Char :=
  match escapeLetter? char with
  | some letter => ['\\', letter]
  | none =>
      if char.toNat < 0x20 then
        ['\\', 'u', '0', '0', Nat.digitChar (char.toNat / 16),
          Nat.digitChar (char.toNat % 16)]
      else [char]

def quote (text : String) : List Char :=
  '"' :: text.toList.flatMap quoteChar ++ ['"']

/-- How far the escape sequence has come that is being read, if any.  Where the
escape continues a pair of surrogates the leading one is kept. -/
inductive StringState where
  | plain
  | afterBackslash
  | hexDigits (leading : Option Nat) (count value : Nat)
  | afterLeading (leading : Nat)
  | afterLeadingBackslash (leading : Nat)
deriving DecidableEq

def escapedChar? (letter : Char) : Option Char :=
  match letter with
  | '"' => some '"'
  | '\\' => some '\\'
  | '/' => some '/'
  | 'b' => some '\x08'
  | 'f' => some '\x0c'
  | 'n' => some '\n'
  | 'r' => some '\r'
  | 't' => some '\t'
  | _ => none

def hexDigit? (char : Char) : Option Nat :=
  if '0' ≤ char ∧ char ≤ '9' then some (char.toNat - '0'.toNat)
  else if 'a' ≤ char ∧ char ≤ 'f' then some (char.toNat - 'a'.toNat + 10)
  else if 'A' ≤ char ∧ char ≤ 'F' then some (char.toNat - 'A'.toNat + 10)
  else none

def isLeadingSurrogate (code : Nat) : Bool :=
  0xD800 ≤ code && code ≤ 0xDBFF

def isTrailingSurrogate (code : Nat) : Bool :=
  0xDC00 ≤ code && code ≤ 0xDFFF

def surrogatePair (leading trailing : Nat) : Char :=
  Char.ofNat (0x10000 + (leading - 0xD800) * 0x400 + (trailing - 0xDC00))

/-- The character that four hexadecimal digits stand for, given the leading
surrogate before them, if there is one. -/
def hexChar? (leading : Option Nat) (code : Nat) : Option Char :=
  match leading with
  | some leading =>
      if isTrailingSurrogate code then some (surrogatePair leading code)
      else none
  | none =>
      if isLeadingSurrogate code || isTrailingSurrogate code then none
      else some (Char.ofNat code)

/-- The failure at a character that is no hexadecimal digit, after some digits
of an escape.  All four bytes in the place of the digits count as read. -/
def hexFailure (count : Nat) (rest : List Char) : Failure :=
  if count + byteLength rest < 4 then ⟨.endInString, 0⟩
  else ⟨.invalidEscape, count + byteLength rest - 4⟩

/-- Read on in a string.  The characters read so far are given in reverse. -/
def readStringFrom (collected : List Char) :
    StringState → List Char → Reading String
  | _, [] => .error ⟨.endInString, 0⟩
  | .plain, char :: rest =>
      if char = '"' then .ok (String.ofList collected.reverse, rest)
      else if char = '\\' then readStringFrom collected .afterBackslash rest
      else if char.toNat < 0x20 then
        .error (.atRest .controlCharacter .endInString (char :: rest))
      else readStringFrom (char :: collected) .plain rest
  | .afterBackslash, char :: rest =>
      if char = 'u' then readStringFrom collected (.hexDigits none 0 0) rest
      else
        match escapedChar? char with
        | some escaped => readStringFrom (escaped :: collected) .plain rest
        | none => .error (.atRest .invalidEscape .endInString (char :: rest))
  | .hexDigits leading count value, char :: rest =>
      match hexDigit? char with
      | none => .error (hexFailure count (char :: rest))
      | some digit =>
          let code := 16 * value + digit
          if count < 3 then
            readStringFrom collected (.hexDigits leading (count + 1) code) rest
          else
            match hexChar? leading code with
            | some char => readStringFrom (char :: collected) .plain rest
            | none =>
                if leading.isNone && isLeadingSurrogate code then
                  readStringFrom collected (.afterLeading code) rest
                else .error ⟨.loneSurrogate, byteLength rest⟩
  | .afterLeading leading, char :: rest =>
      if char = '\\' then
        readStringFrom collected (.afterLeadingBackslash leading) rest
      else .error (.atRest .unexpectedEndOfEscape .endInString (char :: rest))
  | .afterLeadingBackslash leading, char :: rest =>
      if char = 'u' then
        readStringFrom collected (.hexDigits (some leading) 0 0) rest
      else .error (.atRest .unexpectedEndOfEscape .endInString (char :: rest))

def readString (text : List Char) : Reading String :=
  readStringFrom [] .plain text

end Json

end KeyedPaths
