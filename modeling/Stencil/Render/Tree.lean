import Stencil.Render.Loop

/-!
# Rendering trees

Nodes are rendered in order until one ends with another flow than a normal end. A condition renders
the first or the second of its nodes. A switch renders the first case whose condition holds, and the
last default when none does.
-/

set_option autoImplicit false

namespace Stencil

variable [JsonLibrary]

namespace Comparison

/-- The condition of a case: with a subject, that the subject equals the left side of the case. -/
def ofCase (subject : Operand) (test : Comparison) : Comparison :=
  if subject.isEmpty then test else { left := subject, op := .equal, right := test.left }

end Comparison

namespace Node

/-- The iterations given to a counting loop unless told otherwise: more than there are words. -/
def defaultIterations : Nat := 0x10000000000000001

mutual

/-- Renders a node; counting loops have a given number of iterations. -/
def render (registry : Registry) (iterations : Nat) : Node → RenderM Flow
  | raw text => do
    RenderM.write text
    return .done
  | print statement => statement.render registry
  | bind statement => statement.render registry
  | counter statement => statement.render registry
  | cond condition children => do
    let holds ← RenderM.ofExcept (condition.evaluate registry (← RenderM.context))
    renderNth registry iterations (if holds then 0 else 1) children
  | onTrue children | onFalse children | case _ children | default children =>
    renderAll registry iterations children
  | forRange head children => head.render (renderAll registry iterations children)
  | forCount head children =>
    head.render registry iterations (renderAll registry iterations children)
  | breakLoop => return .breakLoop
  | continueLoop => return .continueLoop
  | switch subject children => do
    return (← renderBranch registry iterations subject children).getD .done
  | divider => RenderM.fail .strayDivider
  | exit => return .interrupt

/-- Renders nodes in order up to the first one that does not end normally. -/
def renderAll (registry : Registry) (iterations : Nat) : List Node → RenderM Flow
  | [] => return .done
  | node :: rest => do
    match ← render registry iterations node with
    | .done => renderAll registry iterations rest
    | flow => return flow

/-- Renders the node at an index, if there is one. -/
def renderNth (registry : Registry) (iterations : Nat) : Nat → List Node → RenderM Flow
  | _, [] => return .done
  | 0, node :: _ => render registry iterations node
  | index + 1, _ :: rest => renderNth registry iterations index rest

/-- Renders the first case that holds, or else the last default; the flow of that branch, or nothing
when there is none. -/
def renderBranch (registry : Registry) (iterations : Nat) (subject : Operand) :
    List Node → RenderM (Option Flow)
  | [] => return none
  | case test children :: rest => do
    let holds ← RenderM.ofExcept ((test.ofCase subject).evaluate (← RenderM.context))
    if holds then return some (← renderAll registry iterations children)
    else renderBranch registry iterations subject rest
  | default children :: rest => do
    match ← renderBranch registry iterations subject rest with
    | some flow => return some flow
    | none => return some (← renderAll registry iterations children)
  | _ :: rest => renderBranch registry iterations subject rest

end

end Node

/-- Renders a template: its nodes in order. -/
def Tree.render (registry : Registry) (tree : Tree) : RenderM Flow :=
  Node.renderAll registry Node.defaultIterations tree.nodes

/-- Renders the template registered under a name. An interruption is a normal end. -/
def Registry.render (registry : Registry) (name : Bytes) : RenderM Unit :=
  match registry.templates.find? name with
  | none => RenderM.fail (.templateNotFound name)
  | some tree => do
    let _ ← tree.render registry
    return ()

end Stencil
