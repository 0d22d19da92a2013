import Stencil.Bytes.Basic

/-!
# HTML escapes

Text that may stand anywhere in an HTML document: five bytes are written as entities and every
other byte is left alone.
-/

set_option autoImplicit false

namespace Stencil

namespace Html

/-- What a byte becomes: the five bytes that markup gives a meaning to become references. -/
def escapeByte (b : UInt8) : Bytes :=
  if b == Byte.ampersand then ascii "&amp;"
  else if b == Byte.lessThan then ascii "&lt;"
  else if b == Byte.greaterThan then ascii "&gt;"
  else if b == Byte.doubleQuote then ascii "&quot;"
  else if b == Byte.apostrophe then ascii "&#39;"
  else [b]

/-- A text with its special bytes written as entities. -/
def escape (s : Bytes) : Bytes := s.flatMap escapeByte

end Html

end Stencil
