import Stencil.Proofs.Render.Parts

/-!
# A switch is a chain of conditions

A switch is rendered as the conditions that its cases ask, one inside the other: the first that
holds renders its body, and the body of the last default, wherever it stands, is the innermost
alternative. `Node.render_switch_eq_ifChain` says so of every context, with what is written, the
context that is left, and the flow or the failure.
-/

set_option autoImplicit false

namespace Stencil

variable [JsonLibrary]

/-- What a case asks as a condition of its own: with a subject, whether the subject equals the left
side of the case, and its own comparison without one. -/
def Condition.ofCase (subject : Operand) (test : Comparison) : Condition where
  comparison :=
    if subject.isEmpty then test else { left := subject, op := .equal, right := test.left }

/-- The condition of a case comes to what the test of the case does. -/
theorem Condition.evaluate_ofCase (registry : Registry) (context : Context) (subject : Operand)
    (test : Comparison) :
    (ofCase subject test).evaluate registry context = (test.ofCase subject).evaluate context := by
  unfold ofCase Comparison.ofCase
  cases subject.isEmpty <;> rfl

namespace Node

/-- The cases among the children of a switch, in order: what they test, and their bodies. -/
def casesOf : List Node → List (Comparison × List Node)
  | [] => []
  | case test children :: rest => (test, children) :: casesOf rest
  | _ :: rest => casesOf rest

/-- The body of the last default among the children of a switch. -/
def lastDefault? : List Node → Option (List Node)
  | [] => none
  | default children :: rest => some ((lastDefault? rest).getD children)
  | _ :: rest => lastDefault? rest

/-- The condition of the first case, with those of the others inside its alternative and a given
body, if any, as the innermost alternative. -/
def ifChain (subject : Operand) (otherwise : Option (List Node)) :
    List (Comparison × List Node) → Option (List Node)
  | [] => otherwise
  | (test, children) :: rest =>
    some [cond (Condition.ofCase subject test)
      (onTrue children :: ((ifChain subject otherwise rest).map onFalse).toList)]

/-- The body of the first case that holds, if any does. -/
def firstCase? (subject : Operand) (context : Context) :
    List (Comparison × List Node) → Except Failure (Option (List Node))
  | [] => .ok none
  | (test, children) :: rest => do
    if ← (test.ofCase subject).evaluate context then return some children
    else firstCase? subject context rest

/-- The branch that a switch chooses is its first case that holds, or else its last default. -/
theorem chosen?_eq_firstCase? (subject : Operand) (context : Context) (nodes : List Node) :
    chosen? subject context nodes =
      (firstCase? subject context (casesOf nodes)).map (·.or (lastDefault? nodes)) := by
  induction nodes with
  | nil => rfl
  | cons node rest ih =>
    cases node with
    | case test children =>
      rw [chosen?, casesOf, firstCase?, lastDefault?]
      · cases (test.ofCase subject).evaluate context with
        | error failure => rfl
        | ok holds =>
          cases holds with
          | true => rfl
          | false => exact ih
      · simp
    | default children =>
      rw [chosen?, ih, casesOf, lastDefault?]
      · cases firstCase? subject context (casesOf rest) with
        | error failure => rfl
        | ok first => cases first <;> cases lastDefault? rest <;> rfl
      · simp
    | _ => exact ih

section Chain

variable (registry : Registry) (iterations : Nat)

/-- A node by itself is rendered as it is in a list. -/
theorem renderAll_singleton (node : Node) (context : Context) :
    renderAll registry iterations [node] context = node.render registry iterations context := by
  rw [renderAll]
  show RenderM.bind _ _ context = _
  rw [RenderM.bind]
  cases hresult : (node.render registry iterations context).result with
  | error stop => simp [← hresult]
  | ok flow => cases flow <;> simp [renderAll, ← hresult]

/-- A condition renders what stands behind it, as its result says. -/
theorem render_cond_ite (condition : Condition) (children : List Node)
    (otherwise : Option (List Node)) (context : Context) :
    (cond condition (onTrue children :: (otherwise.map onFalse).toList)).render registry iterations
        context =
      match condition.evaluate registry context with
      | .error failure => RenderM.fail failure context
      | .ok true => renderAll registry iterations children context
      | .ok false => renderAll registry iterations (otherwise.getD []) context := by
  rw [render, RenderM.context_bind]
  cases condition.evaluate registry context with
  | error failure => rfl
  | ok holds =>
    rw [RenderM.ofExcept_ok_bind]
    cases holds with
    | true => simp [renderNth, render]
    | false => cases otherwise <;> simp [renderNth, render, renderAll]

/-- A chain of conditions renders the first case that holds, or else the innermost alternative. -/
theorem renderAll_ifChain (subject : Operand) (otherwise : Option (List Node))
    (tests : List (Comparison × List Node)) (context : Context) :
    renderAll registry iterations ((ifChain subject otherwise tests).getD []) context =
      match firstCase? subject context tests with
      | .error failure => RenderM.fail failure context
      | .ok first => renderAll registry iterations ((first.or otherwise).getD []) context := by
  induction tests with
  | nil => rfl
  | cons head rest ih =>
    obtain ⟨test, children⟩ := head
    rw [ifChain, Option.getD_some, renderAll_singleton, render_cond_ite,
      Condition.evaluate_ofCase, firstCase?]
    cases (test.ofCase subject).evaluate context with
    | error failure => rfl
    | ok holds =>
      cases holds with
      | true => rfl
      | false => exact ih

/-- A switch means its chain of conditions. Whatever its cases and defaults are and however they are
mixed, rendering it does the same in every context as rendering the conditions of its cases, one
inside the alternative of the other, with the last default as the innermost alternative and none
when there is no default: it writes the same, leaves the same context, and ends with the same flow
or stops at the same failure. -/
theorem render_switch_eq_ifChain (subject : Operand) (children : List Node) :
    (switch subject children).render registry iterations =
      renderAll registry iterations
        ((ifChain subject (lastDefault? children) (casesOf children)).getD []) := by
  funext context
  rw [render_switch, chosen?_eq_firstCase?, renderAll_ifChain]
  cases firstCase? subject context (casesOf children) with
  | error failure => rfl
  | ok first =>
    simp only [Except.map]
    cases first.or (lastDefault? children) with
    | none => simp [renderAll]
    | some chosen => rfl

/-- A default before and between the cases: the last one is the innermost alternative. -/
example (subject : Operand) (first second : Comparison) (a b c d : List Node) :
    ifChain subject (lastDefault? [default a, case first b, default c, case second d])
        (casesOf [default a, case first b, default c, case second d]) =
      some [cond (Condition.ofCase subject first)
        [onTrue b, onFalse [cond (Condition.ofCase subject second) [onTrue d, onFalse c]]]] := rfl

end Chain

end Node

end Stencil
