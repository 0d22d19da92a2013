import Stencil.Number.Decimal
import Stencil.Tree.Basic

/-!
# Outlines

The outline of a tree has one line for each node, indented by a tab for each level of nesting: the
kind of the node, and what matters of its fields. Texts stand in it as they are.
-/

set_option autoImplicit false

namespace Stencil

/-- Texts with a separator between them. -/
def joinWith (separator : Bytes) : List Bytes → Bytes
  | [] => []
  | [text] => text
  | text :: rest => text ++ separator ++ joinWith separator rest

/-- A text after a label, nothing when the text is empty. -/
def labelled (label text : Bytes) : Bytes := if text.isEmpty then [] else label ++ text

/-- The arguments of a call, in one line. -/
def outlineArgs (args : List Operand) : Bytes := joinWith (ascii ", ") (args.map Operand.outline)

namespace ModifierCall

/-- A modifier call; parentheses stand only around arguments. -/
def outline (call : ModifierCall) : Bytes :=
  call.name ++ if call.args.isEmpty then [] else ascii "(" ++ outlineArgs call.args ++ ascii ")"

end ModifierCall

namespace Print

/-- What the line of a print statement says. -/
def outline (statement : Print) : Bytes :=
  ascii ": " ++ statement.value.outline ++ labelled (ascii " pfx ") statement.before ++
    labelled (ascii " sfx ") statement.after ++
    if statement.modifiers.isEmpty then []
    else ascii " mod " ++ joinWith (ascii ", ") (statement.modifiers.map ModifierCall.outline)

end Print

namespace Binding

/-- What the line of a binding says. -/
def outline (statement : Binding) : Bytes :=
  ascii ": var " ++ statement.target ++ ascii " src " ++ statement.source.outline ++
    labelled (ascii " ins ") statement.kind

end Binding

namespace Counter

/-- What the line of a counter statement says. -/
def outline (statement : Counter) : Bytes :=
  ascii ": " ++ statement.name ++
    ascii (match statement.action with | .init => " = " | .add => " += ") ++
    Decimal.ofInt statement.amount.toInt

end Counter

namespace Comparison

/-- The operator and the right side of a comparison. -/
def outlineRest (comparison : Comparison) : Bytes :=
  ascii " op " ++ comparison.op.text ++ ascii " right " ++ comparison.right.outline

end Comparison

namespace Condition

/-- What the line of a condition says. -/
def outline (condition : Condition) : Bytes :=
  let { comparison, helper, args } := condition
  if helper.isEmpty then
    ascii ": left " ++ comparison.left.outline ++
      if comparison.op = .unknown then [] else comparison.outlineRest
  else ascii ": helper " ++ helper ++ ascii "(" ++ outlineArgs args ++ ascii ")"

end Condition

namespace RangeHead

/-- What the line of a loop over elements says. -/
def outline (head : RangeHead) : Bytes :=
  ascii ": " ++ (if head.key.isEmpty then [] else ascii "key " ++ head.key ++ ascii " ") ++
    ascii "val " ++ head.value ++ ascii " src " ++ head.source ++
    labelled (ascii " sep ") head.separator

end RangeHead

namespace CountHead

/-- What the line of a counting loop says. -/
def outline (head : CountHead) : Bytes :=
  ascii ": cnt " ++ head.counter ++ ascii " init " ++ head.init.outline ++ ascii " cond " ++
    head.test.text ++ ascii " lim " ++ head.limit.outline ++ ascii " op " ++ head.direction.text ++
    ascii " " ++ Decimal.ofInt head.step.toInt ++ labelled (ascii " sep ") head.separator

end CountHead

namespace Node

/-- What the outline says of a node after its kind. -/
def summary : Node → Bytes
  | raw text => ascii ": " ++ text
  | print statement => statement.outline
  | bind statement => statement.outline
  | counter statement => statement.outline
  | cond condition _ => condition.outline
  | forRange head _ => head.outline
  | forCount head _ => head.outline
  | switch subject _ => if subject.isEmpty then [] else ascii ": arg " ++ subject.outline
  | case test _ =>
    if test.op = .unknown then ascii ": val " ++ test.left.outline
    else ascii ": left " ++ test.left.outline ++ test.outlineRest
  | onTrue _ | onFalse _ | default _ | breakLoop | continueLoop | divider | exit => []

/-- The line of a node at a nesting depth. -/
def line (depth : Nat) (node : Node) : Bytes :=
  List.replicate depth Byte.tab ++ node.kind.name ++ node.summary ++ [Byte.newline]

mutual

/-- The lines of a node and of its body. -/
def outline (depth : Nat) : Node → Bytes
  | node@(cond _ children) | node@(onTrue children) | node@(onFalse children)
  | node@(forRange _ children) | node@(forCount _ children) | node@(switch _ children)
  | node@(case _ children) | node@(default children) =>
    node.line depth ++ listOutline (depth + 1) children
  | node => node.line depth

/-- The lines of nodes at a depth. -/
def listOutline (depth : Nat) : List Node → Bytes
  | [] => []
  | node :: rest => outline depth node ++ listOutline depth rest

end

end Node

/-- The lines of a tree, indented by depth. -/
def Tree.outline (tree : Tree) : Bytes := Node.listOutline 0 tree.nodes

end Stencil
