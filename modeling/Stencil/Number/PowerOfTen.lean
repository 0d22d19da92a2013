import Stencil.Number.Shortest

/-!
# Powers of ten

The powers of ten as floating point numbers. Each is the nearest number, except for two powers close
to a midpoint between two numbers, for which the greater one is taken.
-/

set_option autoImplicit false

namespace Stencil

namespace Binary64

/-- The powers of ten for which the number above the nearest one is taken. -/
def raisedPowers : List Int := [23, 210]

/-- A power of ten: infinite when it is too large and zero when it is too small. -/
def powerOfTen (n : Int) : Binary64 :=
  if 400 < n then infinity false
  else if n < -400 then zero false
  else
    let (a, b) := ShortestDecimal.tenQuotient n
    let magnitude := nearestMagnitude a b
    ofMagnitude false (if raisedPowers.contains n then magnitude + 1 else magnitude)

end Binary64

end Stencil
