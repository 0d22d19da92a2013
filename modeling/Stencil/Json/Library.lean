import Stencil.Json.Basic

/-!
# The JSON library

What is left to a JSON library: the digits of a floating point number, the reading of documents, and
the words for its faults. Templates are rendered with whatever library is given;
`JsonLibrary.Strict` is one.
-/

set_option autoImplicit false

namespace Stencil

/-- A JSON library. It is inferred, so that what is rendered with it need not name it. -/
class JsonLibrary where
  /-- The text of a floating point number. -/
  printFloat : Binary64 → Bytes
  /-- The value of a document. -/
  parse : Bytes → Except JsonFault Json
  /-- What is shown of a fault. -/
  describe : JsonFault → Bytes

end Stencil
