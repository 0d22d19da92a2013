import Stencil.Table
import Stencil.Number.Binary64
import Stencil.Number.Word

/-!
# JSON values

The values that templates work on. Objects keep the order of their keys. Integers and floating
point numbers are different kinds; an integer read from a text lies between the least signed and
the greatest unsigned 64-bit integer. Taking a value for a kind that it is not is a fault.
-/

set_option autoImplicit false

namespace Stencil

/-- JSON values. Strings are bytes that need not be encoded text, and an object keeps its fields in
the order in which they came. -/
inductive Json where
  | null
  | bool (value : Bool)
  | int (value : Int)
  | float (value : Binary64)
  | str (text : Bytes)
  | arr (items : List Json)
  | obj (fields : List (Bytes × Json))
  deriving Inhabited

/-- Why a JSON value cannot be read, written or taken for what it should be. -/
inductive JsonFault where
  /-- The text is no JSON document. -/
  | malformed
  /-- A number in the text is too large for every finite number. -/
  | outOfRange
  /-- A string to be written is not UTF-8. -/
  | notUtf8
  /-- The value has another kind. -/
  | wrongKind
  /-- The object has no such key. -/
  | missingKey (key : Bytes)
  deriving DecidableEq, Repr

namespace Json

/-- The number of items or fields; nothing has none and a scalar is one. -/
def size : Json → Nat
  | .null => 0
  | .arr items => items.length
  | .obj fields => fields.length
  | _ => 1

/-- What an iteration over a value visits: the items, the values of the fields, a scalar itself. -/
def elements : Json → List Json
  | .null => []
  | .arr items => items
  | .obj fields => fields.map Prod.snd
  | value => [value]

/-- The field of an object, when the value is an object and has it. -/
def field? : Json → Bytes → Option Json
  | .obj fields, key => Table.find? fields key
  | _, _ => none

/-- The entry of an object under a key; the fault says whether the key or the object is missing. -/
def field (value : Json) (key : Bytes) : Except JsonFault Json :=
  match value with
  | .obj fields =>
    match Table.find? fields key with
    | some entry => .ok entry
    | none => .error (.missingKey key)
  | _ => .error .wrongKind

/-- The text of a string, where a string is wanted. -/
def asText : Json → Except JsonFault Bytes
  | .str text => .ok text
  | _ => .error .wrongKind

/-- The value of a boolean, where a boolean is wanted. -/
def asBool : Json → Except JsonFault Bool
  | .bool value => .ok value
  | _ => .error .wrongKind

/-- A number as a signed 64-bit integer: an integer modulo `2 ^ 64`, a floating point number without
its fraction, or the least integer when it is out of range. -/
def asInt64 : Json → Except JsonFault Int64
  | .int value => .ok (Int64.ofInt value)
  | .float x =>
    if x.isFinite && Word.fits (x.toInt .truncate) then .ok (Int64.ofInt (x.toInt .truncate))
    else .ok Int64.minValue
  | _ => .error .wrongKind

end Json

end Stencil
