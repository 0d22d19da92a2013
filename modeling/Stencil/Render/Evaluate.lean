import Stencil.Render.Monad
import Stencil.Registry

/-!
# Rendering statements

What print, context and counter statements do, and how conditions are decided. A comparison is
carried out by the inspector of the variable on its left; when the left side is a literal, the sides
change places and the operator is swapped.
-/

set_option autoImplicit false

namespace Stencil

namespace Comparison

variable [JsonLibrary]

/-- Whether a variable on one side holds against the text of the other side. An unbound variable
counts as null. -/
def holdsAgainst (context : Context) (variablePath : Bytes) (op : Operator) (text : Bytes) :
    Except Failure Bool :=
  match Variable.lookUp context.bindings variablePath with
  | (some root, some value) => root.inspector.compare value op text
  | _ => Inspector.scalar.compare .null op text

/-- The text of an operand in a comparison. -/
def sideText (context : Context) (operand : Operand) : Except Failure Bytes :=
  if operand.isStatic then .ok operand.text
  else Failure.ofJson (context.resolve operand).toText

/-- Whether a comparison holds. Without an operator it asks whether the left side is there and not
empty. Otherwise the left side, or the right one when the left one is static, is compared as a value
with the text of the other. -/
def evaluate (context : Context) (comparison : Comparison) : Except Failure Bool :=
  let { left, op, right } := comparison
  if op = .unknown ∧ right.isEmpty = true then
    if left.isStatic then .error (.senselessTest left.text)
    else
      match context.find? left.text with
      | some value => .ok !value.isEmpty
      | none => .ok false
  else if left.isStatic && right.isStatic then
    .error (.senselessComparison left.text op right.text)
  else if left.isStatic then do
    holdsAgainst context right.text op.swap (← sideText context left)
  else do
    holdsAgainst context left.text op (← sideText context right)

end Comparison

namespace Condition

variable [JsonLibrary]

/-- Whether a condition holds: that of its comparison, or that of the helper it calls. -/
def evaluate (registry : Registry) (context : Context) (condition : Condition) :
    Except Failure Bool :=
  let { comparison, helper, args } := condition
  if helper.isEmpty then comparison.evaluate context
  else
    match registry.helpers.find? helper with
    | none => .error (.helperNotFound helper)
    | some decide => decide (args.map context.resolve)

end Condition

namespace ModifierCall

/-- Applies modifiers in turn, each to the value that the one before gives; what a modifier does to
the variables is seen by those after it. -/
def applyAll (registry : Registry) : List ModifierCall → Json → RenderM Json
  | [], value => pure value
  | call :: rest, value => do
    match registry.modifiers.find? call.name with
    | none => RenderM.fail (.modifierNotFound call.name)
    | some modifier =>
      let context ← RenderM.context
      let scope := { inspectors := registry.inspectors, bindings := context.bindings }
      let (value, bindings) ←
        RenderM.ofExcept (modifier scope value (call.args.map context.resolve))
      RenderM.update fun context => { context with bindings }
      applyAll registry rest value

end ModifierCall

namespace Json

/-- Whether there is nothing to print: null or the empty string. -/
def isBlank : Json → Bool
  | .null => true
  | .str text => text.isEmpty
  | _ => false

end Json

namespace Print

variable [JsonLibrary]

/-- Writes a value between the two texts of the statement. The first text is written before the
value is turned into a text. -/
def render (registry : Registry) (statement : Print) : RenderM Flow := do
  let context ← RenderM.context
  let value ← ModifierCall.applyAll registry statement.modifiers (context.resolve statement.value)
  if value.isBlank then RenderM.fail (.emptyArgument statement.value.text)
  else
    RenderM.write statement.before
    let text ← RenderM.ofExcept (Failure.ofJson value.toText)
    RenderM.write (text ++ statement.after)
    return .done

end Print

namespace Binding

variable [JsonLibrary]

/-- The variable that a context statement binds. A literal is bound through the inspector of the
kind named. A path keeps the inspector of its root variable unless a kind is named, and an unbound
one gives null. -/
def evaluate (registry : Registry) (context : Context) (statement : Binding) :
    Except Failure Variable :=
  let { source, kind, .. } := statement
  if source.isStatic then Variable.bound registry.inspectors source.literal kind
  else
    let (root, value) := Variable.lookUp context.bindings source.text
    let inspector :=
      if kind.isEmpty then
        some ((root.map Variable.inspector).getD (Inspector.general registry.inspectors))
      else registry.inspectors.find? kind
    match inspector, value with
    | none, _ => .error (.inspectorNotFound kind)
    | some inspector, some value => do return { value := ← inspector.bind value, inspector }
    | some inspector, none => .ok { value := .null, inspector }

/-- Gives the target of a binding its value. Nothing is written. -/
def render (registry : Registry) (statement : Binding) : RenderM Flow := do
  let found ← RenderM.ofExcept (statement.evaluate registry (← RenderM.context))
  RenderM.assign statement.target found.value found.inspector
  return .done

end Binding

namespace Counter

variable [JsonLibrary]

/-- The word in a counter before it is added to: zero when it is unbound or null. -/
def current (context : Context) (name : Bytes) : Except Failure Int64 :=
  match context.find? name with
  | none | some .null => .ok 0
  | some value =>
    match value.toWord? with
    | some n => .ok n
    | none => .error (.counterNotInteger name)

/-- The word in a counter after a counter statement. -/
def evaluate (context : Context) (statement : Counter) : Except Failure Int64 := do
  let before ← match statement.action with
    | .init => .ok 0
    | .add => current context statement.name
  match Word.add? before statement.amount with
  | some after => .ok after
  | none => .error (.counterOverflow statement.name)

/-- Gives a counter its new value. Nothing is written. -/
def render (registry : Registry) (statement : Counter) : RenderM Flow := do
  let n ← RenderM.ofExcept (statement.evaluate (← RenderM.context))
  RenderM.assign statement.name (Json.ofWord n) (Inspector.general registry.inspectors)
  return .done

end Counter

end Stencil
