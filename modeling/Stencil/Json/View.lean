import Stencil.Json.Printer
import Stencil.Number.Numeral

/-!
# Views of a value

How templates see a value: as a text to write or compare, as empty or not, as a floating point
number, and as a signed 64-bit integer. Scalars have views across kinds, numbers in strings
included; containers have only a text and an emptiness.
-/

set_option autoImplicit false

namespace Stencil

namespace Json

variable [JsonLibrary]

/-- The text of a floating point number: an integral one below `10 ^ 15` is written as an
integer. -/
def floatText (x : Binary64) : Bytes :=
  if x.isIntegral && (x.toInt .truncate).natAbs < 1000000000000000 then
    Decimal.ofInt (x.toInt .truncate)
  else JsonLibrary.printFloat x

/-- The text of a value: nothing for null, the string itself, and the compact form of a
container. -/
def toText : Json → Except JsonFault Bytes
  | .null => .ok []
  | .str text => .ok text
  | .bool value => .ok (ascii (if value then "true" else "false"))
  | .int value => .ok (Decimal.ofInt value)
  | .float value => .ok (floatText value)
  | value => print value

/-- Whether a value is empty: null, the empty string, a zero, false, an empty container. -/
def isEmpty : Json → Bool
  | .null => true
  | .str text => text.isEmpty
  | .bool value => !value
  | .int value => value == 0
  | .float value => value.isZero
  | .arr items => items.isEmpty
  | .obj fields => fields.isEmpty

/-- The number of a scalar: a number, a truth value as one or zero, or a string that holds one. -/
def toReal? : Json → Option Binary64
  | .int value => some (Binary64.ofInt value)
  | .float value => some value
  | .bool value => some (Binary64.ofInt (if value then 1 else 0))
  | .str text => Numeral.real? text
  | _ => none

/-- The integer of a scalar when it is in range: an integer, a floating point number without its
fraction, a truth value as one or zero, or a string that holds one. -/
def toWord? : Json → Option Int64
  | .int value => Word.ofInt? value
  | .float value => if value.isFinite then Word.ofInt? (value.toInt .truncate) else none
  | .bool value => some (if value then 1 else 0)
  | .str text => Numeral.word? text
  | _ => none

/-- A word as a value. -/
def ofWord (n : Int64) : Json := .int n.toInt

/-- The length of a value: the bytes of a string, the items or fields of a container, nothing for
null, and the bytes of its text for any other scalar. -/
def length : Json → Nat
  | .null => 0
  | .str text => text.length
  | .arr items => items.length
  | .obj fields => fields.length
  | .bool value => (ascii (if value then "true" else "false")).length
  | .int value => (Decimal.ofInt value).length
  | .float value => (floatText value).length

end Json

end Stencil
