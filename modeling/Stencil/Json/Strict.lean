import Stencil.Json.Library
import Stencil.Json.Reader
import Stencil.Number.Shortest

/-!
# A strict JSON library

A library that writes floating point numbers with the fewest digits that read back, and reads strict
documents only.
-/

set_option autoImplicit false

namespace Stencil

namespace Json

/-- How floating point numbers are laid out: the point stands among at most `positional` digits, or
before at most `leadingZeros` zeros; outside these bounds an exponent of at least two digits is
written. -/
structure FloatFormat where
  positional : Int
  leadingZeros : Int

/-- Numbers from `0.0001` to below `10 ^ 15` are written with a point alone. -/
def floatFormat : FloatFormat := { positional := 15, leadingZeros := 4 }

/-- An exponent with its sign and at least two digits. -/
def printExponent (e : Int) : Bytes :=
  let digits := Decimal.ofNat e.natAbs
  (if e < 0 then ascii "e-" else ascii "e+") ++
    (if digits.length < 2 then 0x30 :: digits else digits)

/-- The digits of a decimal laid out with a point after the first `point` of them. -/
def layOut (format : FloatFormat) (digits : Bytes) (point : Int) : Bytes :=
  let count : Int := digits.length
  if count ≤ point && point ≤ format.positional then
    digits ++ List.replicate (point - count).toNat 0x30 ++ ascii ".0"
  else if 0 < point && point ≤ format.positional then
    digits.take point.toNat ++ Byte.dot :: digits.drop point.toNat
  else if -format.leadingZeros < point && point ≤ 0 then
    ascii "0." ++ List.replicate (-point).toNat 0x30 ++ digits
  else
    let fraction := digits.drop 1
    digits.take 1 ++ (if fraction.isEmpty then [] else Byte.dot :: fraction) ++
      printExponent (point - 1)

/-- The text of a floating point number, with the fewest digits that read back and always a point or
an exponent; infinities and what is not a number have no form of their own. -/
def printShortest (x : Binary64) : Bytes :=
  if !x.isFinite then ascii "null"
  else
    let decimal := ShortestDecimal.ofNumber x
    let digits := Decimal.ofNat decimal.digits
    let body :=
      if x.isZero then ascii "0.0"
      else layOut floatFormat digits (digits.length + decimal.exponent)
    if x.isNegative then Byte.minus :: body else body

end Json

namespace JsonFault

/-- The words for a fault. -/
def message : JsonFault → Bytes
  | malformed => ascii "malformed JSON document"
  | outOfRange => ascii "JSON number out of range"
  | notUtf8 => ascii "string is not UTF-8"
  | wrongKind => ascii "JSON value has another kind"
  | missingKey key => ascii "JSON key not found: " ++ key

end JsonFault

namespace JsonLibrary.Strict

/-- The strict library. -/
scoped instance library : JsonLibrary where
  printFloat := Json.printShortest
  parse := Json.parse
  describe := JsonFault.message

end JsonLibrary.Strict

end Stencil
