import Stencil.Template.Body
import Stencil.Template.Position
import Stencil.Template.Source

/-!
# Parsing templates

From the text of a template to its tree: the source is prepared, scanned and assembled. A template
that is refused yields no tree, only the fault and its place in the prepared source.
-/

set_option autoImplicit false

namespace Stencil

namespace Tree

/-- The tree of a prepared source; an error says where in that source it stands. -/
def ofSource (source : Bytes) : Except ParseError Tree :=
  match Reader.parseSource source with
  | .ok nodes => .ok ⟨nodes⟩
  | .error (fault, offset) => .error { fault, source, offset }

/-- The tree of a template text. The text is prepared first, and errors are about the prepared
text. -/
def parse (keepFormatting : Bool) (text : Bytes) : Except ParseError Tree :=
  ofSource (Source.prepare keepFormatting text)

end Tree

end Stencil
