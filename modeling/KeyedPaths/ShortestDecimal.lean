/-!
# Shortest decimals

A floating point number stands for every real number that rounds to it.  Among
the decimals that do, this file finds one with the fewest digits; of those the
one nearest to the number, and of two equally near ones the one whose last
digit is even.  The search is exact: the number, the two ends of its interval
and the decimals are compared as fractions of natural numbers.
-/

namespace KeyedPaths

/-- A positive number `significand * 2 ^ exponent`, as a floating point number
of double precision holds it. -/
structure BinaryNumber where
  significand : Nat
  exponent : Int
deriving DecidableEq

/-- A number `digits * 10 ^ exponent`. -/
structure DecimalNumber where
  digits : Nat
  exponent : Int
deriving DecidableEq

namespace BinaryNumber

def leastExponent : Int := -1074

/-- The least significand of a number above the least exponent. -/
def hiddenBit : Nat := 0x10000000000000

/-- The magnitude that is encoded in the bits of a finite number of double
precision. -/
def ofBits (bits : Nat) : BinaryNumber :=
  let fraction := bits % hiddenBit
  let biased := bits / hiddenBit % 2048
  if biased = 0 then ⟨fraction, leastExponent⟩
  else ⟨hiddenBit + fraction, leastExponent + (biased - 1 : Nat)⟩

/-- Four times the significand of the number in the middle between a number
and its lower neighbour.  Below a power of two the neighbour is nearer. -/
def fourfoldLower (number : BinaryNumber) : Nat :=
  if number.significand = hiddenBit ∧ leastExponent < number.exponent then
    4 * number.significand - 1
  else 4 * number.significand - 2

/-- Four times the significand of the number in the middle between a number
and its upper neighbour. -/
def fourfoldUpper (number : BinaryNumber) : Nat :=
  4 * number.significand + 2

/-- The decimal with the given exponent that is nearest to a number among
those that round to it. -/
def decimalAt? (number : BinaryNumber) (decimalExponent : Int) :
    Option DecimalNumber :=
  let quarter := number.exponent - 2
  let scale := Nat.pow 2 quarter.toNat * Nat.pow 10 (-decimalExponent).toNat
  let step := Nat.pow 2 (-quarter).toNat * Nat.pow 10 decimalExponent.toNat
  let lower := number.fourfoldLower * scale
  let upper := number.fourfoldUpper * scale
  let value := 4 * number.significand * scale
  let rounds (digits : Nat) : Bool :=
    if number.significand % 2 = 0 then
      lower ≤ digits * step && digits * step ≤ upper
    else lower < digits * step && digits * step < upper
  let below := value / step
  let middle := (2 * below + 1) * step
  let belowIsNearer :=
    2 * value < middle || (2 * value = middle && below % 2 = 0)
  match rounds below, rounds (below + 1) with
  | true, true =>
      some ⟨if belowIsNearer then below else below + 1, decimalExponent⟩
  | true, false => some ⟨below, decimalExponent⟩
  | false, true => some ⟨below + 1, decimalExponent⟩
  | false, false => none

/-- The shortest decimal that rounds to a number.  The exponents are tried
from above, so that the first decimal found has the fewest digits. -/
def shortestDecimal (number : BinaryNumber) : DecimalNumber :=
  ((List.range 660).findSome? fun (tried : Nat) =>
    number.decimalAt? (309 - tried)).getD ⟨0, 0⟩

end BinaryNumber

namespace DecimalNumber

/-- The least power of ten whose multiples are written without an exponent. -/
def leastPositional : Int := -5

/-- The greatest power of ten whose multiples are written without an
exponent. -/
def greatestPositional : Int := 15

/-- The text of a positive decimal: with a point and at least one digit after
it in the middle range, otherwise with one digit before the point and a signed
exponent. -/
def text (number : DecimalNumber) : String :=
  let digits := Nat.toDigits 10 number.digits
  let leading := number.exponent + (digits.length - 1 : Nat)
  if leastPositional ≤ leading && leading ≤ greatestPositional then
    if 0 ≤ number.exponent then
      String.ofList
        (digits ++ List.replicate number.exponent.toNat '0' ++ ['.', '0'])
    else if 0 ≤ leading then
      let (whole, fraction) := digits.splitAt (leading.toNat + 1)
      String.ofList (whole ++ '.' :: fraction)
    else
      String.ofList
        ('0' :: '.' :: List.replicate (-leading - 1).toNat '0' ++ digits)
  else
    let significand :=
      match digits with
      | first :: second :: rest => first :: '.' :: second :: rest
      | few => few
    let sign := if leading < 0 then '-' else '+'
    String.ofList
      (significand ++ 'e' :: sign :: Nat.toDigits 10 leading.natAbs)

end DecimalNumber

def signBit : Nat := 0x8000000000000000

def floatText (value : Float) : String :=
  let bits := value.toBits.toNat
  let number := BinaryNumber.ofBits bits
  let magnitude :=
    if number.significand = 0 then "0.0" else number.shortestDecimal.text
  if bits < signBit then magnitude else "-" ++ magnitude

end KeyedPaths
