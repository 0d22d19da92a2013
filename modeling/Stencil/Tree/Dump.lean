import Stencil.Tree.Basic

/-!
# The data form of a tree

A tree is written as a JSON array with one object for each node: its kind, its fields, and its body
last. Empty texts around a print statement, an empty list of modifiers and an unnamed inspector are
left out.
-/

set_option autoImplicit false

namespace Stencil

namespace Operand

/-- The data form of an operand; quotes are mentioned only where there are any. -/
def toJson (operand : Operand) : Json :=
  .obj ([(ascii "text", .str operand.text), (ascii "static", .bool operand.isStatic)] ++
    if operand.isQuoted then [(ascii "quoted", .bool true)] else [])

end Operand

/-- A field that holds a text, left out when the text is empty. -/
def Json.optionalField (key text : Bytes) : List (Bytes × Json) :=
  if text.isEmpty then [] else [(key, .str text)]

namespace ModifierCall

/-- A modifier call in data form. -/
def toJson (call : ModifierCall) : Json :=
  .obj [(ascii "name", .str call.name), (ascii "args", .arr (call.args.map Operand.toJson))]

end ModifierCall

namespace Print

/-- The fields of a print statement; what is empty is left out. -/
def fields (statement : Print) : List (Bytes × Json) :=
  [(ascii "value", statement.value.toJson)] ++
    Json.optionalField (ascii "prefix") statement.before ++
    Json.optionalField (ascii "suffix") statement.after ++
    if statement.modifiers.isEmpty then []
    else [(ascii "mods", .arr (statement.modifiers.map ModifierCall.toJson))]

end Print

namespace Binding

/-- The fields of a binding; a kind that is empty is left out. -/
def fields (statement : Binding) : List (Bytes × Json) :=
  [(ascii "var", .str statement.target), (ascii "src", statement.source.toJson)] ++
    Json.optionalField (ascii "kind") statement.kind

end Binding

namespace Counter

/-- The fields of a counter statement. -/
def fields (statement : Counter) : List (Bytes × Json) :=
  [(ascii "name", .str statement.name), (ascii "action", .str statement.action.name),
    (ascii "amount", .int statement.amount.toInt)]

end Counter

namespace Comparison

/-- The fields of a comparison. -/
def fields (comparison : Comparison) : List (Bytes × Json) :=
  [(ascii "left", comparison.left.toJson), (ascii "op", .str comparison.op.text),
    (ascii "right", comparison.right.toJson)]

end Comparison

namespace Condition

/-- The fields of a condition: those of a helper call or those of a comparison. -/
def fields (condition : Condition) : List (Bytes × Json) :=
  let { comparison, helper, args } := condition
  if helper.isEmpty then comparison.fields
  else [(ascii "helper", .str helper), (ascii "args", .arr (args.map Operand.toJson))]

end Condition

namespace RangeHead

/-- The fields of the head of a loop over elements. -/
def fields (head : RangeHead) : List (Bytes × Json) :=
  [(ascii "key", .str head.key), (ascii "val", .str head.value), (ascii "src", .str head.source),
    (ascii "sep", .str head.separator)]

end RangeHead

namespace CountHead

/-- The fields of the head of a counting loop. -/
def fields (head : CountHead) : List (Bytes × Json) :=
  [(ascii "counter", .str head.counter), (ascii "init", head.init.toJson),
    (ascii "cond", .str head.test.text), (ascii "limit", head.limit.toJson),
    (ascii "step_op", .str head.direction.text), (ascii "step", .int head.step.toInt),
    (ascii "sep", .str head.separator)]

end CountHead

namespace Node

/-- The fields of a node other than its kind and its body. -/
def fields : Node → List (Bytes × Json)
  | raw text => [(ascii "text", .str text)]
  | print statement => statement.fields
  | bind statement => statement.fields
  | counter statement => statement.fields
  | cond condition _ => condition.fields
  | forRange head _ => head.fields
  | forCount head _ => head.fields
  | switch subject _ => [(ascii "arg", subject.toJson)]
  | case test _ => test.fields
  | onTrue _ | onFalse _ | default _ | breakLoop | continueLoop | divider | exit => []

/-- An object for a node of a kind with given fields. -/
def object (kind : NodeKind) (fields : List (Bytes × Json)) : Json :=
  .obj ((ascii "type", .str kind.name) :: fields)

mutual

/-- A node in data form: its kind, its fields, and its children if it can have any. -/
def toJson : Node → Json
  | node@(cond _ children) | node@(onTrue children) | node@(onFalse children)
  | node@(forRange _ children) | node@(forCount _ children) | node@(switch _ children)
  | node@(case _ children) | node@(default children) =>
    object node.kind (node.fields ++ [(ascii "children", .arr (listToJson children))])
  | node => object node.kind node.fields

/-- Nodes in data form, in order. -/
def listToJson : List Node → List Json
  | [] => []
  | node :: rest => toJson node :: listToJson rest

end

end Node

/-- A tree in data form. -/
def Tree.toJson (tree : Tree) : Json := .arr (Node.listToJson tree.nodes)

end Stencil
