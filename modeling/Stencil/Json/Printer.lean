import Stencil.Json.Library
import Stencil.Number.Decimal
import Stencil.Text.Utf8

/-!
# Writing JSON

Values are written compactly, or indented with one item to a line. Strings escape the quote, the
backslash and the control characters and nothing else; a string that is not UTF-8 cannot be written.
The digits of floating point numbers are the library's.
-/

set_option autoImplicit false

namespace Stencil

namespace Json

/-- How one byte is written inside a string. -/
def escapeByte (b : UInt8) : Bytes :=
  if b == 0x08 then ascii "\\b"
  else if b == Byte.tab then ascii "\\t"
  else if b == Byte.newline then ascii "\\n"
  else if b == 0x0c then ascii "\\f"
  else if b == Byte.carriageReturn then ascii "\\r"
  else if b == Byte.doubleQuote then ascii "\\\""
  else if b == Byte.backslash then ascii "\\\\"
  else if b < 0x20 then
    ascii "\\u00" ++ [Byte.ofHexDigit (b.toNat / 16), Byte.ofHexDigit (b.toNat % 16)]
  else [b]

/-- The inside of the string that holds a text. -/
def escape (text : Bytes) : Bytes := text.flatMap escapeByte

/-- The string that holds a text, without regard to its encoding. -/
def quote (text : Bytes) : Bytes := Byte.doubleQuote :: escape text ++ [Byte.doubleQuote]

/-- The string that holds a text in UTF-8. -/
def printString (text : Bytes) : Except JsonFault Bytes :=
  if Utf8.isValid text then .ok (quote text) else .error .notUtf8

/-! ## Values -/

variable [JsonLibrary]

mutual

/-- The compact form of a value. -/
def print : Json → Except JsonFault Bytes
  | .null => .ok (ascii "null")
  | .bool value => .ok (ascii (if value then "true" else "false"))
  | .int value => .ok (Decimal.ofInt value)
  | .float value => .ok (JsonLibrary.printFloat value)
  | .str text => printString text
  | .arr items => do return Byte.openBracket :: (← printItems items) ++ [Byte.closeBracket]
  | .obj fields => do return Byte.openBrace :: (← printFields fields) ++ [Byte.closeBrace]

/-- The items of an array with commas between them. -/
def printItems : List Json → Except JsonFault Bytes
  | [] => .ok []
  | [item] => print item
  | item :: rest => do return (← print item) ++ Byte.comma :: (← printItems rest)

/-- The fields of an object with commas between them. -/
def printFields : List (Bytes × Json) → Except JsonFault Bytes
  | [] => .ok []
  | [(key, value)] => do return (← printString key) ++ Byte.colon :: (← print value)
  | (key, value) :: rest => do
    return (← printString key) ++ Byte.colon :: (← print value) ++
      Byte.comma :: (← printFields rest)

end

/-- The start of a line at a nesting depth. -/
def lineStart (width depth : Nat) : Bytes :=
  Byte.newline :: List.replicate (width * depth) Byte.space

mutual

/-- The indented form of a value that stands at a nesting depth. -/
def printIndented (width depth : Nat) : Json → Except JsonFault Bytes
  | .arr [] => .ok (ascii "[]")
  | .arr items => do
    return Byte.openBracket :: (← printIndentedItems width (depth + 1) items) ++
      lineStart width depth ++ [Byte.closeBracket]
  | .obj [] => .ok [Byte.openBrace, Byte.closeBrace]
  | .obj fields => do
    return Byte.openBrace :: (← printIndentedFields width (depth + 1) fields) ++
      lineStart width depth ++ [Byte.closeBrace]
  | value => print value

/-- The items of an array, each on a line of its own. -/
def printIndentedItems (width depth : Nat) : List Json → Except JsonFault Bytes
  | [] => .ok []
  | item :: rest => do
    return lineStart width depth ++ (← printIndented width depth item) ++
      (if rest.isEmpty then [] else [Byte.comma]) ++ (← printIndentedItems width depth rest)

/-- The fields of an object, each on a line of its own. -/
def printIndentedFields (width depth : Nat) : List (Bytes × Json) → Except JsonFault Bytes
  | [] => .ok []
  | (key, value) :: rest => do
    return lineStart width depth ++ (← printString key) ++ ascii ": " ++
      (← printIndented width depth value) ++
      (if rest.isEmpty then [] else [Byte.comma]) ++ (← printIndentedFields width depth rest)

end

end Json

end Stencil
