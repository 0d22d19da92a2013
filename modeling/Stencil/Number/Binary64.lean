/-!
# Binary64 numbers

The 64-bit binary floating point numbers as bit patterns, with exact integer arithmetic underneath:
a finite number is a sign, a magnitude and a power of two, and every operation rounds one exact
quotient to the nearest number, a tie going to the even one. The order compares the signed
magnitudes of the bit patterns, so it is the order of integers away from not-a-number.
-/

set_option autoImplicit false

namespace Stencil

/-- A 64-bit binary floating point number, given by its bit pattern. -/
structure Binary64 where
  bits : UInt64
  deriving DecidableEq, Repr

namespace Binary64

/-- The weight of the sign bit, `2 ^ 63`. -/
def signBit : Nat := 0x8000000000000000

/-- The weight of the leading digit of a normal significand, which no bit stands for: `2 ^ 52`. -/
def hiddenBit : Nat := 0x10000000000000

/-- The magnitude part of a bit pattern, below `2 ^ 63`. -/
def magnitude (x : Binary64) : Nat := x.bits.toNat % signBit

/-- Whether the sign bit is set; zero and what is not a number have one as well. -/
def isNegative (x : Binary64) : Bool := signBit ≤ x.bits.toNat

/-- The magnitude of the infinities: all greater magnitudes are no numbers. -/
def infinityMagnitude : Nat := 0x7ff * hiddenBit

/-- The number with a given sign bit and magnitude. -/
def ofMagnitude (negative : Bool) (magnitude : Nat) : Binary64 :=
  ⟨((if negative then signBit else 0) + magnitude).toUInt64⟩

/-- Whether a bit pattern is not a number. -/
def isNaN (x : Binary64) : Bool := infinityMagnitude < x.magnitude

/-- Whether a bit pattern is one of the two infinities. -/
def isInfinite (x : Binary64) : Bool := x.magnitude == infinityMagnitude

/-- Whether a bit pattern is a finite number. -/
def isFinite (x : Binary64) : Bool := x.magnitude < infinityMagnitude

/-- Whether a number is one of the two zeros. -/
def isZero (x : Binary64) : Bool := x.magnitude == 0

/-- The bit pattern used for every result that is not a number. -/
def nan : Binary64 := ⟨0x7ff8000000000000⟩

/-- The infinity of a sign. -/
def infinity (negative : Bool) : Binary64 := ofMagnitude negative infinityMagnitude

/-- The zero of a sign. -/
def zero (negative : Bool) : Binary64 := ofMagnitude negative 0

/-- The significand of a finite number, an integer below `2 ^ 53`. -/
def significand (x : Binary64) : Nat :=
  if x.magnitude < hiddenBit then x.magnitude else hiddenBit + x.magnitude % hiddenBit

/-- The power of two that multiplies the significand of a finite number. -/
def exponent (x : Binary64) : Int :=
  if x.magnitude < hiddenBit then -1074 else (x.magnitude / hiddenBit : Nat) - 1075

/-- The nearest integer to a quotient, a tie going to the even one. -/
def roundQuotient (n d : Nat) : Nat :=
  let q := n / d
  let r := n % d
  if 2 * r < d then q
  else if d < 2 * r then q + 1
  else q + q % 2

/-- A quotient of naturals multiplied by a power of two, as a quotient of naturals. -/
def scaleQuotient (n d : Nat) (e : Int) : Nat × Nat :=
  match e with
  | .ofNat k => (n * Nat.pow 2 k, d)
  | .negSucc k => (n, d * Nat.pow 2 (k + 1))

/-- The power of two below which the digits of a positive quotient do not fit in 53 bits, were the
exponent unbounded. -/
def unitExponent (n d : Nat) : Int :=
  let e : Int := (n.log2 : Int) - (d.log2 : Int) - 53
  let (a, b) := scaleQuotient n d (-(e + 53))
  if b ≤ a then e + 1 else e

/-- The magnitude nearest to the positive quotient `n / d`; the infinite one when it is too
large. -/
def nearestMagnitude (n d : Nat) : Nat :=
  let e := max (unitExponent n d) (-1074)
  let (a, b) := scaleQuotient n d (-e)
  min ((e + 1074).toNat * hiddenBit + roundQuotient a b) infinityMagnitude

/-- The number nearest to a quotient of naturals with a given sign. -/
def ofRatio (negative : Bool) (n d : Nat) : Binary64 :=
  if n = 0 then zero negative else ofMagnitude negative (nearestMagnitude n d)

/-- The number nearest to `n * 2 ^ e` with a given sign. -/
def ofScaled (negative : Bool) (n : Nat) (e : Int) : Binary64 :=
  let (a, b) := scaleQuotient n 1 e
  ofRatio negative a b

/-- The number nearest to an integer. -/
def ofInt (n : Int) : Binary64 := ofRatio (n < 0) n.natAbs 1

/-- The absolute value of a finite number as a quotient of naturals. -/
def toRatio (x : Binary64) : Nat × Nat := scaleQuotient x.significand 1 x.exponent

/-- The product, rounded to the nearest number. -/
def mul (x y : Binary64) : Binary64 :=
  let negative := x.isNegative != y.isNegative
  if x.isNaN || y.isNaN then nan
  else if x.isInfinite || y.isInfinite then
    if x.isZero || y.isZero then nan else infinity negative
  else ofScaled negative (x.significand * y.significand) (x.exponent + y.exponent)

/-- The quotient, rounded to the nearest number; by zero it is infinite, or no number when the
dividend is zero as well. -/
def div (x y : Binary64) : Binary64 :=
  let negative := x.isNegative != y.isNegative
  if x.isNaN || y.isNaN then nan
  else if x.isInfinite then if y.isInfinite then nan else infinity negative
  else if y.isInfinite then zero negative
  else if y.isZero then if x.isZero then nan else infinity negative
  else
    let (a, b) := scaleQuotient x.significand y.significand (x.exponent - y.exponent)
    ofRatio negative a b

/-- The place of a number in the order: its signed magnitude, one place for both zeros. -/
def key (x : Binary64) : Int := if x.isNegative then -(x.magnitude : Int) else x.magnitude

/-- Whether two numbers are equal; nothing equals what is not a number. -/
def eq (x y : Binary64) : Bool := !x.isNaN && !y.isNaN && x.key == y.key

/-- Whether a number is below another; what is not a number is below nothing. -/
def lt (x y : Binary64) : Bool := !x.isNaN && !y.isNaN && x.key < y.key

/-- The ways to take a finite number to an integer. -/
inductive Rounding where
  /-- To the nearest integer, a tie going away from zero. -/
  | nearest
  /-- Up. -/
  | ceiling
  /-- Down. -/
  | floor
  /-- Toward zero. -/
  | truncate
  deriving DecidableEq, Repr

/-- The absolute value of the integer that a quotient of given sign goes to. -/
def Rounding.apply (mode : Rounding) (negative : Bool) (n d : Nat) : Nat :=
  match mode with
  | .nearest => (2 * n + d) / (2 * d)
  | .ceiling => if negative then n / d else (n + d - 1) / d
  | .floor => if negative then (n + d - 1) / d else n / d
  | .truncate => n / d

/-- The integer that a finite number goes to. -/
def toInt (mode : Rounding) (x : Binary64) : Int :=
  let (n, d) := x.toRatio
  let k := mode.apply x.isNegative n d
  if x.isNegative then -(k : Int) else k

/-- The integral number that a number goes to, with its sign; infinities and what is not a number
are left alone. -/
def round (mode : Rounding) (x : Binary64) : Binary64 :=
  if x.isFinite then
    let (n, d) := x.toRatio
    ofRatio x.isNegative (mode.apply x.isNegative n d) 1
  else x

/-- Whether a number is finite and has no fraction. -/
def isIntegral (x : Binary64) : Bool :=
  x.isFinite && (let (n, d) := x.toRatio; n % d == 0)

end Binary64

end Stencil
