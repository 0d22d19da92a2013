import Stencil.Number.Binary64
import Stencil.Number.Decimal

/-!
# Shortest decimals

The decimal with the fewest digits that reads back as a given binary64 number. A number is read back
from every real between the midpoints to its neighbours, the midpoints included when its significand
is even. For one, two, up to seventeen digits the two decimals around the number on that grid are
tried; the first grid with a decimal inside decides, the nearer decimal wins, and of two equally
near ones that with the even last digit.
-/

set_option autoImplicit false

namespace Stencil

/-- The decimal `digits * 10 ^ exponent`. -/
structure ShortestDecimal where
  digits : Nat
  exponent : Int
  deriving DecidableEq, Repr

namespace ShortestDecimal

/-- A power of ten as a quotient of naturals. -/
def tenQuotient : Int → Nat × Nat
  | .ofNat k => (Nat.pow 10 k, 1)
  | .negSucc k => (1, Nat.pow 10 (k + 1))

/-- The number of digits before the decimal point of a positive quotient: the least `p` with
`n / d < 10 ^ p`. -/
def pointPosition (n d : Nat) : Int :=
  let guess := ((n.log2 : Int) - (d.log2 : Int)) * 30103 / 100000 - 1
  let reached := (List.range 5).countP fun (i : Nat) =>
    let (t, u) := tenQuotient (guess + i)
    t * d ≤ n * u
  guess + reached

/-- The reals that read back as a number: four times the significand, and the ends of the interval,
all in units of a quarter of the last place. -/
structure Interval where
  lower : Nat
  value : Nat
  upper : Nat
  closed : Bool
  /-- The unit, a quotient of naturals. -/
  unit : Nat × Nat

/-- The interval of a positive finite number; below a power of two the neighbour is twice as
near. -/
def Interval.ofNumber (x : Binary64) : Interval :=
  let m := x.significand
  let nearBelow := m == Binary64.hiddenBit && 2 * Binary64.hiddenBit ≤ x.magnitude
  { lower := if nearBelow then 4 * m - 1 else 4 * m - 2
    value := 4 * m
    upper := 4 * m + 2
    closed := m % 2 == 0
    unit := Binary64.scaleQuotient 1 1 (x.exponent - 2) }

/-- Whether `candidate * 10 ^ exponent` lies in the interval. -/
def Interval.contains (i : Interval) (candidate : Nat) (exponent : Int) : Bool :=
  let (t, u) := tenQuotient exponent
  let (f, d) := i.unit
  let c := candidate * t * d
  let low := i.lower * f * u
  let high := i.upper * f * u
  if i.closed then low ≤ c && c ≤ high else low < c && c < high

/-- The decimal of the interval on the grid of a power of ten that is nearest to its number. -/
def Interval.nearestOnGrid? (i : Interval) (exponent : Int) : Option Nat :=
  let (t, u) := tenQuotient exponent
  let (f, d) := i.unit
  let n := i.value * f * u
  let q := n / (t * d)
  let r := n % (t * d)
  match i.contains q exponent, i.contains (q + 1) exponent with
  | false, false => none
  | true, false => some q
  | false, true => some (q + 1)
  | true, true =>
    if 2 * r < t * d then some q
    else if t * d < 2 * r then some (q + 1)
    else some (q + q % 2)

/-- Drops the zeros at the end of a decimal of at most `count` digits. -/
def dropZeros : Nat → Nat → Int → ShortestDecimal
  | 0, digits, exponent => ⟨digits, exponent⟩
  | count + 1, digits, exponent =>
    if digits % 10 == 0 && digits != 0 then dropZeros count (digits / 10) (exponent + 1)
    else ⟨digits, exponent⟩

/-- The shortest decimal of the absolute value of a finite number; zero has the digit zero. -/
def ofNumber (x : Binary64) : ShortestDecimal :=
  if x.isZero then ⟨0, 0⟩
  else
    let i := Interval.ofNumber x
    let (n, d) := x.toRatio
    let p := pointPosition n d
    let found := (List.range 17).findSome? fun (k : Nat) =>
      let exponent := p - (k + 1)
      (i.nearestOnGrid? exponent).map fun digits => (digits, exponent)
    match found with
    | some (digits, exponent) => dropZeros 18 digits exponent
    | none => ⟨0, 0⟩

end ShortestDecimal

end Stencil
