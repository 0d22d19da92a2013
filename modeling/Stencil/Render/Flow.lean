import Stencil.Bytes.Basic

/-!
# Flows

How the rendering of a node ends when it does not fail, and what that means for the loop around it:
a visit of elements goes on after a normal end or a continue, and stops at a break or an
interruption.
-/

set_option autoImplicit false

namespace Stencil

/-- How the rendering of a node ends when it does not fail. -/
inductive Flow where
  | done
  | breakLoop
  | continueLoop
  | interrupt
  deriving DecidableEq, Repr

namespace Flow

/-- Whether a loop ends with the iteration that ends so. -/
def stopsLoop : Flow → Bool
  | breakLoop | interrupt => true
  | done | continueLoop => false

end Flow

/-- Visits elements in order until a visit stops the loop; the flow is that of the stopping visit,
or a normal end. -/
def visitElements {α : Type} {m : Type → Type} [Monad m] (visit : α → m Flow) : List α → m Flow
  | [] => pure .done
  | element :: rest => do
    let flow ← visit element
    if flow.stopsLoop then pure flow else visitElements visit rest

end Stencil
