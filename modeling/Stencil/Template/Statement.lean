import Stencil.Template.Statement.Binding
import Stencil.Template.Statement.Condition
import Stencil.Template.Statement.Counter
import Stencil.Template.Statement.Loop
import Stencil.Template.Statement.Print

/-!
# Reading a statement

The inside of a region, stripped, is taken for the first statement that it can be. An opening word
without its expression is no statement.
-/

set_option autoImplicit false

namespace Stencil

namespace Statement

/-- The statements that are a single word. -/
def words : List (Bytes × Statement) :=
  [(ascii "else", elseMark), (ascii "endif", endIf), (ascii "endfor", endFor),
    (ascii "break", breakLoop), (ascii "continue", continueLoop), (ascii "default", defaultMark),
    (ascii "endswitch", endSwitch), (ascii "exit", exit)]

/-- A statement that opens with a keyword, or is one word. -/
def parseMark (content : Bytes) : Except TemplateFault Statement :=
  match afterKeyword? (ascii "if") content, afterKeyword? (ascii "switch") content,
      afterKeyword? (ascii "case") content with
  | some (b :: rest), _, _ => (Condition.parse (b :: rest)).map ifOpen
  | _, some subject, _ =>
    .ok (switchOpen (if subject.isEmpty then {} else Operand.parse subject))
  | _, _, some (b :: rest) => .ok (caseMark (Comparison.parse (b :: rest)))
  | _, _, _ =>
    match Table.find? words content with
    | some statement => .ok statement
    | none => .error (.unknownStatement content)

/-- Reads the content of a region. A print statement is looked for first; bindings, counters and
loops are known by their keyword with a space behind it. -/
def parse (content : Bytes) : Except TemplateFault Statement :=
  match Print.parse? content with
  | some result => result.map print
  | none =>
    if content.startsWith (Binding.keyword ++ [Byte.space]) then (Binding.parse content).map bind
    else if content.startsWith (Counter.keyword ++ [Byte.space]) then
      (Counter.parse content).map counter
    else if content.startsWith (ascii "for ") then (LoopHead.parse content).map forOpen
    else parseMark content

end Statement

end Stencil
