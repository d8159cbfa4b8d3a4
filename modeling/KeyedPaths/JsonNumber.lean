import KeyedPaths.Json
import KeyedPaths.JsonFault

/-!
# JSON numbers

A number without fraction and exponent is an integer if it fits into 64 bits,
without sign when it is not negative and with sign when it is.  Every other
number is a floating point number.  Of its digits those are kept that fit into
64 bits, and the double nearest to them is multiplied with or divided by the
double nearest to the power of ten.
-/

namespace KeyedPaths

namespace Json

/-- A number that is written out: `significand * 10 ^ exponent`, in which the
significand fits into 64 bits. -/
structure Scientific where
  significand : Nat
  exponent : Int
deriving DecidableEq

namespace Scientific

/-- The bound of the numbers that fit into 64 bits without sign. -/
def significandBound : Nat := 0x10000000000000000

/-- The bound of the exponents that fit into 32 bits with sign. -/
def exponentBound : Nat := 0x80000000

def digitValue (digit : Char) : Nat :=
  digit.toNat - '0'.toNat

/-- The number with the given digits before the point.  From the first digit on
that the significand cannot take, each multiplies by ten only. -/
def ofWhole (significand : Nat) : List Char → Scientific
  | [] => ⟨significand, 0⟩
  | digit :: rest =>
      let extended := 10 * significand + digitValue digit
      if extended < significandBound then ofWhole extended rest
      else ⟨significand, rest.length + 1⟩

/-- The number with further digits after the point.  From the first digit on
that the significand cannot take, they are dropped. -/
def appendFraction (number : Scientific) : List Char → Scientific
  | [] => number
  | digit :: rest =>
      let extended := 10 * number.significand + digitValue digit
      if extended < significandBound then
        appendFraction ⟨extended, number.exponent - 1⟩ rest
      else number

/-- The greatest exponent of ten that a double can hold. -/
def greatestPower : Nat := 308

def powerOfTen (exponent : Nat) : Float :=
  Float.ofScientific 1 false exponent

/-- Divide by a power of ten, in steps of at most the greatest power. -/
def divideByPowerOfTen (value : Float) (exponent : Nat) : Float :=
  if exponent ≤ greatestPower then value / powerOfTen exponent
  else if value == 0 then value
  else
    divideByPowerOfTen (value / powerOfTen greatestPower)
      (exponent - greatestPower)
termination_by exponent
decreasing_by simp [greatestPower] at *; omega

def toFloat? (number : Scientific) : Option Float :=
  let value := (UInt64.ofNat number.significand).toFloat
  if number.exponent < 0 then
    some (divideByPowerOfTen value number.exponent.natAbs)
  else if number.exponent.natAbs ≤ greatestPower then
    let scaled := value * powerOfTen number.exponent.natAbs
    if scaled.isInf then none else some scaled
  else if number.significand = 0 then some value
  else none

end Scientific

def signed (negative : Bool) (magnitude : Float) : Json :=
  .float (if negative then -magnitude else magnitude)

def finishFloat (negative : Bool) (number : Scientific) (rest : List Char) :
    Reading Json :=
  match number.toFloat? with
  | some magnitude => .ok (signed negative magnitude, rest)
  | none => .error ⟨.numberOutOfRange, byteLength rest⟩

/-- The greatest number whose negation fits into 64 bits with sign. -/
def greatestNegated : Nat := 0x8000000000000000

def finishWhole (negative : Bool) (number : Scientific) (rest : List Char) :
    Reading Json :=
  let significand := number.significand
  if number.exponent ≠ 0 then finishFloat negative number rest
  else if !negative then .ok (.integer significand, rest)
  else if 0 < significand ∧ significand ≤ greatestNegated then
    .ok (.integer (-significand), rest)
  else finishFloat negative number rest

/-- Read the digits of an exponent after the first one.  An exponent that grows
beyond 32 bits decides the number: it is zero, or out of range as soon as the
digit is read that makes the exponent too large. -/
def readExponentDigits (negative negativeExponent : Bool)
    (number : Scientific) (exponent : Nat) : List Char → Reading Json
  | [] => finish []
  | char :: rest =>
      if char.isDigit then
        let extended := 10 * exponent + Scientific.digitValue char
        if extended < Scientific.exponentBound then
          readExponentDigits negative negativeExponent number extended rest
        else if number.significand ≠ 0 ∧ !negativeExponent then
          .error ⟨.numberOutOfRange, byteLength rest⟩
        else .ok (signed negative 0, rest.dropWhile Char.isDigit)
      else finish (char :: rest)
where
  finish (rest : List Char) : Reading Json :=
    let shift : Int := if negativeExponent then -exponent else exponent
    finishFloat negative ⟨number.significand, number.exponent + shift⟩ rest

def readExponent (negative negativeExponent : Bool) (number : Scientific)
    (text : List Char) : Reading Json :=
  match text with
  | [] => .error ⟨.endInValue, 0⟩
  | char :: rest =>
      if char.isDigit then
        readExponentDigits negative negativeExponent number
          (Scientific.digitValue char) rest
      else .error (.atRest .invalidNumber .endInValue text)

def readSignedExponent (negative : Bool) (number : Scientific) :
    List Char → Reading Json
  | '-' :: rest => readExponent negative true number rest
  | '+' :: rest => readExponent negative false number rest
  | rest => readExponent negative false number rest

def readAfterFraction (negative : Bool) (number : Scientific) :
    List Char → Reading Json
  | 'e' :: rest => readSignedExponent negative number rest
  | 'E' :: rest => readSignedExponent negative number rest
  | rest => finishFloat negative number rest

def readAfterWhole (negative : Bool) (number : Scientific) :
    List Char → Reading Json
  | '.' :: rest =>
      let digits := rest.takeWhile Char.isDigit
      let afterDigits := rest.dropWhile Char.isDigit
      if digits.isEmpty then .error (.atRest .invalidNumber .endInValue rest)
      else readAfterFraction negative (number.appendFraction digits) afterDigits
  | 'e' :: rest => readSignedExponent negative number rest
  | 'E' :: rest => readSignedExponent negative number rest
  | rest => finishWhole negative number rest

/-- Read a number after its sign.  A zero stands alone before the point. -/
def readNumber (negative : Bool) (text : List Char) : Reading Json :=
  let digits := text.takeWhile Char.isDigit
  let afterDigits := text.dropWhile Char.isDigit
  match digits with
  | [] => .error (.atRest .invalidNumber .endInValue text)
  | '0' :: second :: rest =>
      .error
        (.atRest .invalidNumber .endInValue (second :: rest ++ afterDigits))
  | digits => readAfterWhole negative (.ofWhole 0 digits) afterDigits

end Json

end KeyedPaths
