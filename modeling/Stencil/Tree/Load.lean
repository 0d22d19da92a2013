import Stencil.Json.Printer
import Stencil.Tree.Basic

/-!
# Reading the data form of a tree

The kind of an object decides which fields it must have. A node that owns no body ignores one, and a
body may be any value that can be iterated over.
-/

set_option autoImplicit false

namespace Stencil

/-- Why a form is refused as a tree. -/
inductive LoadFault where
  /-- A field is missing or of another kind, or the form cannot be written into a message. -/
  | json (fault : JsonFault)
  /-- No kind of node has this name. -/
  | unknownKind (name : Bytes)
  /-- The form is no array; its compact form is given. -/
  | notArray (form : Bytes)
  deriving DecidableEq, Repr

namespace LoadFault

variable [JsonLibrary]

/-- The message of a fault. -/
def message : LoadFault → Bytes
  | json fault => JsonLibrary.describe fault
  | unknownKind name => ascii "unknown node type: " ++ name
  | notArray form => ascii "tree dump must be an array: " ++ form

/-- What is shown of a fault: its message up to the first NUL byte. -/
def report (fault : LoadFault) : Bytes := fault.message.untilNul

end LoadFault

namespace Json

/-- The text of a field. -/
def textField (value : Json) (key : Bytes) : Except JsonFault Bytes := do
  (← value.field key).asText

/-- The text in a field, nothing when there is no such field. -/
def textFieldOrEmpty (value : Json) (key : Bytes) : Except JsonFault Bytes :=
  match value.field? key with
  | none => .ok []
  | some entry => entry.asText

end Json

namespace Operand

/-- Reads an operand; one that does not say whether it was quoted was not. -/
def ofJson (form : Json) : Except JsonFault Operand := do
  let text ← form.textField (ascii "text")
  let isStatic ← (← form.field (ascii "static")).asBool
  let isQuoted ← match form.field? (ascii "quoted") with
    | none => .ok false
    | some entry => entry.asBool
  return { text, isStatic, isQuoted }

/-- Reads the operand in a field. -/
def ofField (form : Json) (key : Bytes) : Except JsonFault Operand := do
  ofJson (← form.field key)

end Operand

namespace Operator

/-- Reads the operator in a field. Any text is taken; an unknown spelling is the unknown
operator. -/
def ofField (form : Json) (key : Bytes) : Except JsonFault Operator := do
  return ofText (← form.textField key)

end Operator

namespace ModifierCall

/-- Reads a modifier call. -/
def ofJson (form : Json) : Except JsonFault ModifierCall := do
  let name ← form.textField (ascii "name")
  let args ← (← form.field (ascii "args")).elements.mapM Operand.ofJson
  return { name, args }

end ModifierCall

namespace Print

/-- Reads a print statement; of its fields only the value may not be missing. -/
def ofJson (form : Json) : Except JsonFault Print := do
  let value ← Operand.ofField form (ascii "value")
  let before ← form.textFieldOrEmpty (ascii "prefix")
  let after ← form.textFieldOrEmpty (ascii "suffix")
  let modifiers ← match form.field? (ascii "mods") with
    | none => .ok []
    | some calls => calls.elements.mapM ModifierCall.ofJson
  return { value, before, after, modifiers }

end Print

namespace Binding

/-- Reads a binding; the kind may be missing. -/
def ofJson (form : Json) : Except JsonFault Binding := do
  let target ← form.textField (ascii "var")
  let source ← Operand.ofField form (ascii "src")
  let kind ← form.textFieldOrEmpty (ascii "kind")
  return { target, source, kind }

end Binding

namespace Counter

/-- The counter statement of a data form; every action but the first one adds. -/
def ofJson (form : Json) : Except JsonFault Counter := do
  let name ← form.textField (ascii "name")
  let action ← form.textField (ascii "action")
  let amount ← (← form.field (ascii "amount")).asInt64
  return { name, action := if action == CounterAction.init.name then .init else .add, amount }

end Counter

namespace Comparison

/-- Reads a comparison. -/
def ofJson (form : Json) : Except JsonFault Comparison := do
  let left ← Operand.ofField form (ascii "left")
  let op ← Operator.ofField form (ascii "op")
  let right ← Operand.ofField form (ascii "right")
  return { left, op, right }

end Comparison

namespace Condition

/-- The condition of a data form; only a form without a helper has a comparison. -/
def ofJson (form : Json) : Except JsonFault Condition :=
  match form.field? (ascii "helper") with
  | some helper => do
    let helper ← helper.asText
    let args ← (← form.field (ascii "args")).elements.mapM Operand.ofJson
    return { helper, args }
  | none => return { comparison := ← Comparison.ofJson form }

end Condition

namespace RangeHead

/-- The head of a loop over elements of a data form. -/
def ofJson (form : Json) : Except JsonFault RangeHead := do
  let key ← form.textField (ascii "key")
  let value ← form.textField (ascii "val")
  let source ← form.textField (ascii "src")
  let separator ← form.textField (ascii "sep")
  return { key, value, source, separator }

end RangeHead

namespace CountHead

/-- The head of a counting loop of a data form. -/
def ofJson (form : Json) : Except JsonFault CountHead := do
  let counter ← form.textField (ascii "counter")
  let init ← Operand.ofField form (ascii "init")
  let test ← Operator.ofField form (ascii "cond")
  let limit ← Operand.ofField form (ascii "limit")
  let direction ← Operator.ofField form (ascii "step_op")
  let step ← (← form.field (ascii "step")).asInt64
  let separator ← form.textField (ascii "sep")
  return { counter, init, test, limit, direction, step, separator }

end CountHead

namespace Node

/-- A node that is complete, or one that waits for its body. -/
inductive Shell where
  | leaf (node : Node)
  | branch (withBody : List Node → Node)

/-- The node of a data form without its body, for a form of a given kind. -/
def shellOfKind (form : Json) : NodeKind → Except JsonFault Shell
  | .raw => do return .leaf (raw (← form.textField (ascii "text")))
  | .print => do return .leaf (print (← Print.ofJson form))
  | .bind => do return .leaf (bind (← Binding.ofJson form))
  | .counter => do return .leaf (counter (← Counter.ofJson form))
  | .cond => do return .branch (cond (← Condition.ofJson form))
  | .onTrue => .ok (.branch onTrue)
  | .onFalse => .ok (.branch onFalse)
  | .forRange => do return .branch (forRange (← RangeHead.ofJson form))
  | .forCount => do return .branch (forCount (← CountHead.ofJson form))
  | .breakLoop => .ok (.leaf breakLoop)
  | .continueLoop => .ok (.leaf continueLoop)
  | .switch => do return .branch (switch (← Operand.ofField form (ascii "arg")))
  | .case => do return .branch (case (← Comparison.ofJson form))
  | .default => .ok (.branch default)
  | .divider => .ok (.leaf divider)
  | .exit => .ok (.leaf exit)

/-- A fault of a field as a fault of the form. -/
def liftFault {α : Type} : Except JsonFault α → Except LoadFault α
  | .ok value => .ok value
  | .error fault => .error (.json fault)

/-- The node of a data form without its body. -/
def shell (form : Json) : Except LoadFault Shell := do
  let name ← liftFault (form.textField (ascii "type"))
  match NodeKind.ofName? name with
  | none => .error (.unknownKind name)
  | some kind => liftFault (shellOfKind form kind)

mutual

/-- Reads a node: the kind in its type field says which fields are read and whether it has
children. -/
def ofJson : Json → Except LoadFault Node
  | .obj fields => do
    match ← shell (.obj fields) with
    | .leaf node => return node
    | .branch withBody => return withBody (← bodyOfFields fields)
  | _ => .error (.json .wrongKind)

/-- The nodes of the body among the fields of a form; none when it has no body. -/
def bodyOfFields : List (Bytes × Json) → Except LoadFault (List Node)
  | [] => .ok []
  | (key, value) :: rest =>
    if key = ascii "children" then bodyOf value else bodyOfFields rest

/-- Reads the children of a node, wherever they are listed. -/
def bodyOf : Json → Except LoadFault (List Node)
  | .null => .ok []
  | .arr items => listOfJson items
  | .obj fields => listOfFields fields
  | _ => .error (.json .wrongKind)

/-- The nodes of data forms, up to the first fault. -/
def listOfJson : List Json → Except LoadFault (List Node)
  | [] => .ok []
  | form :: rest => do return (← ofJson form) :: (← listOfJson rest)

/-- The nodes of the data forms in fields, up to the first fault. -/
def listOfFields : List (Bytes × Json) → Except LoadFault (List Node)
  | [] => .ok []
  | (_, form) :: rest => do return (← ofJson form) :: (← listOfFields rest)

end

end Node

/-- Reads a tree from its data form, an array of nodes. -/
def Tree.ofJson [JsonLibrary] (form : Json) : Except LoadFault Tree :=
  match form with
  | .arr forms => do return ⟨← Node.listOfJson forms⟩
  | other => do .error (.notArray (← Node.liftFault other.print))

end Stencil
