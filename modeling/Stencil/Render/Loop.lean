import Stencil.Render.Evaluate

/-!
# Rendering loops

A loop over elements visits the value as it was when the loop began, whatever its body binds. A
counting loop reads its counter and its limit anew for every iteration, so its body can lengthen it
without end; it is therefore given a number of iterations, and using them up is an outcome of its
own.
-/

set_option autoImplicit false

namespace Stencil

namespace RangeHead

/-- One visit of an element: its key and value are bound through the inspector of the source, and
the body is run. -/
def visit (head : RangeHead) (inspector : Inspector) (slot : Nat) (body : RenderM Flow)
    (element : Json × Json) : RenderM Flow := do
  if !head.key.isEmpty then RenderM.assign head.key element.1 inspector
  RenderM.assign head.value element.2 inspector
  RenderM.iterate slot body

/-- Runs a body for each element of the source. A break ends the loop normally. -/
def render (head : RangeHead) (body : RenderM Flow) : RenderM Flow := do
  let context ← RenderM.context
  match Variable.lookUp context.bindings head.source with
  | (some root, some source) =>
    let flow ← RenderM.withSlot head.separator fun slot => do
      let elements ← RenderM.ofExcept (root.inspector.elements source)
      visitElements (head.visit root.inspector slot body) elements
    return if flow = .interrupt then .interrupt else .done
  | _ => return .done

end RangeHead

namespace CountHead

variable [JsonLibrary]

/-- The integer of a part of the loop. The message of its failure quotes the value. -/
def integer (head : CountHead) (part : LoopPart) (value : Json) : Except Failure Int64 :=
  match value.toWord? with
  | some n => .ok n
  | none => do
    let form ← Failure.ofJson value.print
    .error (Failure.patterned (.loopNotInteger part head.counter form))

/-- What is added to the counter: the step, or its opposite word. -/
def increment (head : CountHead) : Int64 :=
  if head.direction = .decrement then -head.step else head.step

/-- Whether another iteration begins: the counter and the limit are compared as floating point
numbers. -/
def continues (head : CountHead) (counter limit : Int64) : Bool :=
  head.test.holdsReal (Binary64.ofInt counter.toInt) (Binary64.ofInt limit.toInt)

/-- The counter after an iteration that began with a given one: what the body left in the variable,
and the increment. -/
def next (head : CountHead) (context : Context) (counter : Int64) : Except Failure Int64 := do
  let current ← match context.find? head.counter with
    | some value => head.integer .counter value
    | none => .ok counter
  match Word.add? current head.increment with
  | some n => .ok n
  | none => .error (.loopCounterOverflow head.counter)

/-- Runs a body while the test holds, at most a given number of times. -/
def run (head : CountHead) (inspector : Inspector) (slot : Nat) (body : RenderM Flow) :
    Nat → Int64 → RenderM Flow
  | iterations, counter => do
    let context ← RenderM.context
    let limit ← RenderM.ofExcept (head.integer .limit (context.resolve head.limit))
    if head.continues counter limit then
      match iterations with
      | 0 => RenderM.exhaust
      | iterations + 1 =>
        match ← RenderM.iterate slot body with
        | .breakLoop => return .done
        | .interrupt => return .interrupt
        | .done | .continueLoop =>
          let counter ← RenderM.ofExcept (head.next (← RenderM.context) counter)
          RenderM.assign head.counter (Json.ofWord counter) inspector
          run head inspector slot body iterations counter
    else return .done

/-- Runs a body for the values of the counter, at most a given number of times. -/
def render (registry : Registry) (iterations : Nat) (head : CountHead) (body : RenderM Flow) :
    RenderM Flow := do
  let inspector := Inspector.general registry.inspectors
  let context ← RenderM.context
  let counter ← RenderM.ofExcept (head.integer .init (context.resolve head.init))
  RenderM.assign head.counter (Json.ofWord counter) inspector
  RenderM.withSlot head.separator fun slot =>
    head.run inspector slot body iterations counter

end CountHead

end Stencil
