import Stencil.Template.Statement.Basic

/-!
# Context statements

`context NAME = SOURCE`, and after it `as KIND` when an inspector is named. The kind is the last
word of the statement, and `as` the one before it.
-/

set_option autoImplicit false

namespace Stencil

namespace Binding

/-- The parts of a text before and after the last of its spaces, tabs, newlines and carriage
returns. -/
def splitLastBlank? (s : Bytes) : Option (Bytes × Bytes) :=
  let isGap (b : UInt8) : Bool := (ascii " \t\n\r").contains b
  match s.reverse.dropWhile (!isGap ·) with
  | [] => none
  | _ :: front => some (front.reverse, (s.reverse.takeWhile (!isGap ·)).reverse)

/-- A text that ends in a blank and the word `as`, without the word; something must stand before the
blank. -/
def dropAs? (s : Bytes) : Option Bytes :=
  match s.reverse with
  | 0x73 :: 0x61 :: blank :: b :: front =>
    if Byte.isBlank blank then some (blank :: b :: front).reverse else none
  | _ => none

/-- The source of a context statement and the kind named after it, if any. -/
def splitKind (s : Bytes) : Bytes × Bytes :=
  match splitLastBlank? s with
  | none => (s, [])
  | some (front, kind) =>
    if kind.isWord then
      match dropAs? front.strip with
      | some source => (source.strip, kind)
      | none => (s, [])
    else (s, [])

/-- The word that a binding begins with. -/
def keyword : Bytes := ascii "context"

/-- Reads a binding: a name, an equals sign, and a source that may end in a kind. The name and the
source may not be missing. -/
def parse (content : Bytes) : Except TemplateFault Binding :=
  let (target, rest) := Statement.readWord (Bytes.skipBlanks (content.drop keyword.length))
  match Statement.dropByte? Byte.equals rest.skipBlanks with
  | none => .error (.malformedBinding content)
  | some text =>
    let (source, kind) := splitKind text.strip
    if target.isEmpty || source.isEmpty then .error (.malformedBinding content)
    else .ok { target, source := Operand.parse source, kind }

end Binding

end Stencil
