import Stencil.Context
import Stencil.Render.Flow

/-!
# Rendering steps

A rendering step writes bytes, changes the context, and ends with a result or stops. What was
written and changed before a stop stays. A step stops at a failure, or because a counting loop has
used up the iterations that it was given; the latter is an outcome of its own and no failure of the
template.
-/

set_option autoImplicit false

namespace Stencil

/-- Why a rendering stops early. -/
inductive Stop where
  | failed (failure : Failure)
  /-- A counting loop has used up its iterations. -/
  | exhausted
  deriving DecidableEq, Repr

/-- The outcome of a rendering: what it wrote and the context it left, both also when it failed, and
its result. -/
structure Rendered (α : Type) where
  written : Bytes
  context : Context
  result : Except Stop α

namespace Rendered

variable {α β : Type}

/-- An outcome after something else has been written. -/
def after (written : Bytes) (outcome : Rendered α) : Rendered α :=
  { outcome with written := written ++ outcome.written }

/-- What was written before comes first. -/
@[simp] theorem written_after (written : Bytes) (outcome : Rendered α) :
    (outcome.after written).written = written ++ outcome.written := rfl

/-- Text written before leaves the context alone. -/
@[simp] theorem context_after (written : Bytes) (outcome : Rendered α) :
    (outcome.after written).context = outcome.context := rfl

/-- Text written before leaves the result alone. -/
@[simp] theorem result_after (written : Bytes) (outcome : Rendered α) :
    (outcome.after written).result = outcome.result := rfl

/-- The outcome with its value replaced. -/
def map (f : α → β) (outcome : Rendered α) : Rendered β :=
  { outcome with result := outcome.result.map f }

/-- A change of the value writes nothing. -/
@[simp] theorem written_map (f : α → β) (outcome : Rendered α) :
    (outcome.map f).written = outcome.written := rfl

/-- A change of the value leaves the context alone. -/
@[simp] theorem context_map (f : α → β) (outcome : Rendered α) :
    (outcome.map f).context = outcome.context := rfl

/-- A change of the value is one of the result. -/
@[simp] theorem result_map (f : α → β) (outcome : Rendered α) :
    (outcome.map f).result = outcome.result.map f := rfl

end Rendered

/-- A rendering takes a context to an outcome. -/
def RenderM (α : Type) : Type := Context → Rendered α

namespace RenderM

variable {α β : Type}

/-- The step that ends at once. -/
protected def pure (value : α) : RenderM α := fun context =>
  { written := [], context, result := .ok value }

/-- One step after another; a stop of the first one is a stop of both. -/
protected def bind (step : RenderM α) (next : α → RenderM β) : RenderM β := fun context =>
  let first := step context
  match first.result with
  | .ok value =>
    let second := next value first.context
    { second with written := first.written ++ second.written }
  | .error stop => { written := first.written, context := first.context, result := .error stop }

/-- A rendering goes on with what the one before it gives, in the context that it left; after a
failure nothing is rendered. -/
instance : Monad RenderM where
  pure := RenderM.pure
  bind := RenderM.bind

/-- After a step that ends, the next one goes on from its context. -/
theorem bind_of_ok {step : RenderM α} {next : α → RenderM β} {context : Context} {value : α}
    (h : (step context).result = .ok value) :
    (step >>= next) context =
      (next value (step context).context).after (step context).written := by
  show RenderM.bind step next context = _
  rw [RenderM.bind]
  simp only [h]
  rfl

/-- Two steps end only when the first one ends and the second one does after it. -/
theorem result_bind_eq_ok_iff {step : RenderM α} {next : α → RenderM β} {context : Context}
    {value : β} :
    ((step >>= next) context).result = .ok value ↔
      ∃ first, (step context).result = .ok first ∧
        (next first (step context).context).result = .ok value := by
  constructor
  · intro h
    cases hfirst : (step context).result with
    | error stop =>
      have hbind : ((step >>= next) context).result = .error stop := by
        show (RenderM.bind step next context).result = _
        rw [RenderM.bind]
        simp only [hfirst]
      simp [hbind] at h
    | ok first =>
      rw [bind_of_ok hfirst] at h
      exact ⟨first, rfl, h⟩
  · rintro ⟨first, hfirst, hnext⟩
    rw [bind_of_ok hfirst]
    exact hnext

/-- A step that ends at once changes nothing. -/
@[simp] theorem pure_apply (value : α) (context : Context) :
    (pure value : RenderM α) context = { written := [], context, result := .ok value } := rfl

/-- A step whose result is passed on changes nothing more. -/
theorem bind_pure_apply (step : RenderM α) (f : α → β) (context : Context) :
    (step >>= fun value => pure (f value)) context = (step context).map f := by
  show RenderM.bind step _ context = _
  rw [RenderM.bind]
  cases hresult : (step context).result with
  | error stop => simp [Rendered.map, Except.map, hresult]
  | ok value => simp [Rendered.map, Except.map, hresult]

/-- Writes a text. -/
def write (text : Bytes) : RenderM Unit := fun context =>
  { written := text, context, result := .ok () }

/-- The context as it is. -/
def context : RenderM Context := fun context => { written := [], context, result := .ok context }

/-- What follows is given the context. -/
@[simp] theorem context_bind (next : Context → RenderM α) (state : Context) :
    (context >>= next) state = next state state := rfl

/-- Changes the context. -/
def update (f : Context → Context) : RenderM Unit := fun context =>
  { written := [], context := f context, result := .ok () }

/-- What follows goes on in the changed context. -/
@[simp] theorem update_bind (f : Context → Context) (next : Unit → RenderM α) (state : Context) :
    (update f >>= next) state = next () (f state) := rfl

/-- Stops with a failure. -/
def fail (failure : Failure) : RenderM α := fun context =>
  { written := [], context, result := .error (.failed failure) }

/-- Stops a counting loop that has used up its iterations. -/
def exhaust : RenderM α := fun context =>
  { written := [], context, result := .error .exhausted }

/-- Goes on with a value, or stops with the failure in its place. -/
def ofExcept : Except Failure α → RenderM α
  | .ok value => RenderM.pure value
  | .error failure => fail failure

/-- Gives a variable a value and an inspector. -/
def assign (name : Bytes) (value : Json) (inspector : Inspector) : RenderM Unit :=
  update fun context => context.assign name value inspector

/-- What follows goes on with the variable assigned. -/
@[simp] theorem assign_bind (name : Bytes) (value : Json) (inspector : Inspector)
    (next : Unit → RenderM α) (state : Context) :
    (assign name value inspector >>= next) state = next () (state.assign name value inspector) :=
  rfl

/-- A value is handed on. -/
@[simp] theorem ofExcept_ok_bind (value : α) (next : α → RenderM β) :
    (ofExcept (.ok value) >>= next) = next value := rfl

/-- A failure is the result, whatever would have followed. -/
@[simp] theorem result_ofExcept_error_bind (failure : Failure) (next : α → RenderM β)
    (context : Context) :
    ((ofExcept (.error failure) >>= next) context).result = .error (.failed failure) := rfl

/-- Runs a step with a loop slot of its own, given by its index; the slot is given back also when
the step stops. -/
def withSlot (separator : Bytes) (step : Nat → RenderM α) : RenderM α := fun context =>
  let index := context.arena.depth
  let taken := context.arena.acquire.setSlot index { separator }
  let outcome := step index { context with arena := taken }
  { outcome with context := { outcome.context with arena := outcome.context.arena.release } }

/-- Begins an iteration of the loop in a slot: its separator is written before every iteration but
the first. -/
def beginIteration (index : Nat) : RenderM Unit := do
  let slot := (← context).arena.slot index
  update fun context =>
    { context with
      arena := context.arena.setSlot index { slot with begun := slot.begun + 1 } }
  if 0 < slot.begun then write slot.separator else pure ()

/-- One iteration of the loop in a slot; a continue ends the iteration like its end. -/
def iterate (index : Nat) (body : RenderM Flow) : RenderM Flow := do
  beginIteration index
  match ← body with
  | .continueLoop => return .done
  | flow => return flow

end RenderM

end Stencil
