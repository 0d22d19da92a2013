import Stencil.Bytes.Basic

/-!
# URL encoding

Text that may stand in any part of a URL: letters, digits and four marks are left alone, and every
other byte is written as a percent sign and two upper-case hexadecimal digits.
-/

set_option autoImplicit false

namespace Stencil

namespace Url

/-- Whether a byte stands for itself in an address. -/
def isUnreserved (b : UInt8) : Bool := Byte.isAlphanumeric b || (ascii "-_.~").contains b

/-- The upper-case hexadecimal digit of a value below sixteen. -/
def hexDigit (n : Nat) : UInt8 := Byte.toUpper (Byte.ofHexDigit n)

/-- What a byte becomes: a percent sign and two hexadecimal digits unless it stands for itself. -/
def encodeByte (b : UInt8) : Bytes :=
  if isUnreserved b then [b]
  else [Byte.percent, hexDigit (b.toNat / 16), hexDigit (b.toNat % 16)]

/-- A text with its reserved bytes written as percent signs and digits. -/
def encode (s : Bytes) : Bytes := s.flatMap encodeByte

/-- Texts are encoded byte by byte. -/
theorem encode_append (s t : Bytes) : encode (s ++ t) = encode s ++ encode t :=
  List.flatMap_append

end Url

end Stencil
