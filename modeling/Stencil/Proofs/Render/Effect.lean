import Stencil.Proofs.Render.Arena

/-!
# The effect of a rendering

A template can tell of a context no more than its variables. The effect of a step is what it writes,
the variables that it leaves and its result; a step is steady when it keeps the arena and has the
effect on every context that it has on a new one with the same variables. Steady steps are built
from steady steps, and the statements without a body are steady.
-/

set_option autoImplicit false

namespace Stencil

/-- What can be told of a rendering without looking at its arena. -/
structure Effect (α : Type) where
  written : Bytes
  bindings : Table Variable
  result : Except Stop α

/-- The effect of an outcome. -/
def Rendered.effect {α : Type} (outcome : Rendered α) : Effect α where
  written := outcome.written
  bindings := outcome.context.bindings
  result := outcome.result

/-- An outcome has an effect when it agrees with it in all three parts. -/
theorem Rendered.effect_eq_iff {α : Type} {outcome : Rendered α} {effect : Effect α} :
    outcome.effect = effect ↔ outcome.written = effect.written ∧
      outcome.context.bindings = effect.bindings ∧ outcome.result = effect.result := by
  cases effect
  simp [Rendered.effect]

/-- The effect of a step on a new context with given variables. -/
def RenderM.effectOn {α : Type} (step : RenderM α) (bindings : Table Variable) : Effect α :=
  (step { bindings }).effect

/-- The arena of a new context has no slot and takes none. -/
theorem LoopArena.inBounds_empty : ({} : LoopArena).InBounds := Nat.le_refl 0

namespace RenderM

variable {α β : Type}

/-- A step that leaves the loops around it alone and looks at nothing but the variables. -/
structure Steady (step : RenderM α) : Prop where
  keepsSlots : ∀ depth, step.KeepsSlots depth depth
  effect_eq : ∀ context : Context, context.arena.InBounds →
    (step context).effect = step.effectOn context.bindings

namespace Steady

/-- A steady step keeps the slots of all loops around it. -/
theorem keeps {step : RenderM α} (h : step.Steady) (context : Context) :
    context.arena.Keeps context.arena.depth (step context).context.arena :=
  h.keepsSlots _ context rfl

/-- Two contexts with the same variables are the same to a steady step. -/
theorem effect_eq_of_bindings {step : RenderM α} (h : step.Steady) {left right : Context}
    (hleft : left.arena.InBounds) (hright : right.arena.InBounds)
    (hbindings : left.bindings = right.bindings) : (step left).effect = (step right).effect := by
  rw [h.effect_eq left hleft, h.effect_eq right hright, hbindings]

/-- What is steady about a loop follows from its effect, when that depends on the variables only. -/
theorem of_effect {step : RenderM α} (effect : Table Variable → Effect α)
    (hkeeps : ∀ depth, step.KeepsSlots depth depth)
    (heffect : ∀ context : Context, context.arena.InBounds →
      (step context).effect = effect context.bindings) : step.Steady := by
  refine ⟨hkeeps, fun context hbounds => ?_⟩
  rw [heffect context hbounds, effectOn, heffect _ LoopArena.inBounds_empty]

/-- A value is steady. -/
theorem pure (value : α) : (Pure.pure value : RenderM α).Steady :=
  ⟨fun _ => .pure value, fun _ _ => rfl⟩

/-- Writing is steady. -/
theorem write (text : Bytes) : (RenderM.write text).Steady :=
  ⟨fun _ => .write text, fun _ _ => rfl⟩

/-- A failure is steady. -/
theorem fail (failure : Failure) : (RenderM.fail failure : RenderM α).Steady :=
  ⟨fun _ => .fail failure, fun _ _ => rfl⟩

/-- A value or a failure is steady. -/
theorem ofExcept (value : Except Failure α) : (RenderM.ofExcept value).Steady := by
  cases value with
  | ok value => exact pure value
  | error failure => exact fail failure

/-- Assigning a variable is steady. -/
theorem assign (name : Bytes) (value : Json) (inspector : Inspector) :
    (RenderM.assign name value inspector).Steady :=
  ⟨fun _ => .assign name value inspector, fun _ _ => rfl⟩

/-- Replacing the variables is steady. -/
theorem setBindings (bindings : Table Variable) :
    (RenderM.update fun context => { context with bindings }).Steady :=
  ⟨fun _ => .of_arena_eq fun _ => rfl, fun _ _ => rfl⟩

/-- Two steady steps in a row are steady. -/
theorem bind {step : RenderM α} {next : α → RenderM β} (hstep : step.Steady)
    (hnext : ∀ value, (next value).Steady) : (step >>= next).Steady := by
  refine ⟨fun depth => (hstep.keepsSlots depth).bind fun value => (hnext value).keepsSlots depth,
    fun context hbounds => ?_⟩
  -- Both ways through the first step leave the same variables, and the slots that are taken exist
  -- after either of them.
  obtain ⟨hwritten, hbindings, hresult⟩ :=
    Rendered.effect_eq_iff.mp (hstep.effect_eq context hbounds)
  simp only [effectOn, Rendered.effect] at hwritten hbindings hresult
  have hafter := (hstep.keeps context).inBounds hbounds
  have hafter' := (hstep.keeps { bindings := context.bindings }).inBounds LoopArena.inBounds_empty
  rw [effectOn]
  cases hfirst : (step context).result with
  | error stop =>
    rw [bind_of_error hfirst, bind_of_error (hresult.symm.trans hfirst)]
    simp only [Rendered.effect, hwritten, hbindings]
  | ok value =>
    have hmore := (hnext value).effect_eq_of_bindings hafter hafter' hbindings
    rw [bind_of_ok hfirst, bind_of_ok (hresult.symm.trans hfirst)]
    simp only [Rendered.effect, Rendered.after, Effect.mk.injEq] at hmore ⊢
    rw [hwritten, hmore.1]
    exact ⟨rfl, hmore.2⟩

/-- A step that looks at the variables first. -/
theorem read {next : Context → RenderM α} (hnext : ∀ context, (next context).Steady)
    (hvariables : ∀ context, next context = next { bindings := context.bindings }) :
    (RenderM.context >>= next).Steady := by
  refine .of_effect (fun bindings => (next { bindings }).effectOn bindings)
    (fun depth => .read fun context => (hnext context).keepsSlots depth) ?_
  intro context hbounds
  rw [context_bind, (hnext context).effect_eq context hbounds, hvariables context]

end Steady

end RenderM

/-! ## Statements without a body -/

/-- Applying modifiers is steady. -/
theorem ModifierCall.steady_applyAll (registry : Registry) (calls : List ModifierCall)
    (value : Json) : (applyAll registry calls value).Steady := by
  induction calls generalizing value with
  | nil => exact .pure value
  | cons call rest ih =>
    rw [applyAll]
    cases registry.modifiers.find? call.name with
    | none => exact .fail _
    | some modifier =>
      refine .read ?_ fun _ => rfl
      intro context
      apply RenderM.Steady.bind (.ofExcept _)
      rintro ⟨value, bindings⟩
      exact .bind (.setBindings bindings) fun _ => ih value

/-- A print statement is steady. -/
theorem Print.steady_render [JsonLibrary] (registry : Registry) (statement : Print) :
    (statement.render registry).Steady := by
  refine .read ?_ fun _ => rfl
  intro context
  apply RenderM.Steady.bind (ModifierCall.steady_applyAll registry statement.modifiers _)
  intro value
  split
  · exact .fail _
  · apply RenderM.Steady.bind (.write _)
    intro _
    apply RenderM.Steady.bind (.ofExcept _)
    intro text
    exact .bind (.write _) fun _ => .pure _

/-- A binding is steady. -/
theorem Binding.steady_render [JsonLibrary] (registry : Registry) (statement : Binding) :
    (statement.render registry).Steady := by
  refine .read ?_ fun _ => rfl
  intro context
  apply RenderM.Steady.bind (.ofExcept _)
  intro found
  exact .bind (.assign _ _ _) fun _ => .pure _

/-- A counter statement is steady. -/
theorem Counter.steady_render [JsonLibrary] (registry : Registry) (statement : Counter) :
    (statement.render registry).Steady := by
  refine .read ?_ fun _ => rfl
  intro context
  apply RenderM.Steady.bind (.ofExcept _)
  intro after
  exact .bind (.assign _ _ _) fun _ => .pure _

end Stencil
