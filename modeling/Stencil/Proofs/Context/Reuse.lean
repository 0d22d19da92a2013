import Stencil.Proofs.Context.Uses

/-!
# Using a context again

A context that is reset keeps the slots of its arena, with whatever earlier renderings have left in
them. No use tells: contexts with the same variables and the same depth are alike, every use shows
the same of both and leaves them alike, and a reset context is alike to a new one
(`Context.observe_reset_eq_new`).
-/

set_option autoImplicit false

namespace Stencil

namespace Context

/-- What a host sees of uses one after another: what each shows, and the depth after it. -/
def observe [JsonLibrary] : List (Registry × Use) → Context → List (Sight × Nat)
  | [], _ => []
  | (registry, use) :: rest, context =>
    let (next, sight) := context.perform registry use
    (sight, next.arena.depth) :: observe rest next

/-- Two contexts that differ at most in the slots of their arenas. -/
structure Alike (left right : Context) : Prop where
  bindings_eq : left.bindings = right.bindings
  depth_eq : left.arena.depth = right.arena.depth
  left_inBounds : left.arena.InBounds
  right_inBounds : right.arena.InBounds

namespace Alike

variable {left right : Context}

/-- A steady step has the same effect on both and leaves them alike. -/
theorem steady {α : Type} {step : RenderM α} (h : left.Alike right) (hstep : step.Steady) :
    (step left).effect = (step right).effect ∧ (step left).context.Alike (step right).context := by
  have heffect := hstep.effect_eq_of_bindings h.left_inBounds h.right_inBounds h.bindings_eq
  have hleft := hstep.keeps left
  have hright := hstep.keeps right
  refine ⟨heffect, congrArg Effect.bindings heffect, ?_, hleft.inBounds h.left_inBounds,
    hright.inBounds h.right_inBounds⟩
  rw [hleft.depth_eq, hright.depth_eq, h.depth_eq]

/-- Contexts stay alike when both arenas are replaced at the same depth. -/
theorem setArena (h : left.Alike right) {first second : LoopArena}
    (hdepth : first.depth = second.depth) (hfirst : first.InBounds) (hsecond : second.InBounds) :
    Alike { left with arena := first } { right with arena := second } :=
  ⟨h.bindings_eq, hdepth, hfirst, hsecond⟩

/-- Alike contexts render a registered template alike, down to what can be seen of them. -/
theorem renderNamed [JsonLibrary] (h : left.Alike right) (registry : Registry) (name : Bytes) :
    (Session.renderNamed name registry left).2 = (Session.renderNamed name registry right).2 := by
  obtain ⟨heffect, hafter⟩ := h.steady (registry.steady_render name)
  obtain ⟨hwritten, -, hresult⟩ := Rendered.effect_eq_iff.mp heffect
  simp only [Rendered.effect] at hwritten hresult
  simp only [Session.renderNamed, hwritten, hresult, hafter.depth_eq]

/-- Alike contexts render a registered template to a text alike. -/
theorem renderNamedText [JsonLibrary] (h : left.Alike right) (registry : Registry) (name : Bytes) :
    (Session.renderNamedText name registry left).2 =
      (Session.renderNamedText name registry right).2 := by
  obtain ⟨heffect, -⟩ := h.steady (registry.steady_render name)
  obtain ⟨hwritten, -, hresult⟩ := Rendered.effect_eq_iff.mp heffect
  simp only [Rendered.effect] at hwritten hresult
  simp only [Session.renderNamedText, hwritten, hresult]
  cases (registry.render name right).result with
  | ok _ => rfl
  | error stop => cases stop <;> rfl

/-- Alike contexts answer a binding alike, and are alike behind it. -/
theorem bindValue [JsonLibrary] (h : left.Alike right) (registry : Registry) (name : Bytes)
    (value : Json) (kind : Bytes) :
    (Session.bindValue name value kind registry left).2 =
        (Session.bindValue name value kind registry right).2 ∧
      (Session.bindValue name value kind registry left).1.Alike
        (Session.bindValue name value kind registry right).1 := by
  simp only [Session.bindValue, Context.bind]
  cases Variable.bound registry.inspectors value kind with
  | error failure => exact ⟨rfl, h⟩
  | ok found =>
    refine ⟨rfl, ?_, h.depth_eq, h.left_inBounds, h.right_inBounds⟩
    exact congrArg (fun bindings : Table Variable => bindings.insert name found) h.bindings_eq

/-- Every use shows the same of both and leaves them alike. -/
theorem perform [JsonLibrary] (h : left.Alike right) (registry : Registry) (use : Use) :
    (left.perform registry use).2 = (right.perform registry use).2 ∧
      (left.perform registry use).1.Alike (right.perform registry use).1 := by
  cases use with
  | bind name value kind =>
    obtain ⟨hanswer, hafter⟩ := h.bindValue registry name value kind
    exact ⟨congrArg Sight.answered hanswer, hafter⟩
  | look path =>
    refine ⟨?_, h⟩
    simp only [Context.perform, h.bindings_eq]
  | render name =>
    exact ⟨congrArg Sight.answered (h.renderNamed registry name),
      (h.steady (registry.steady_render name)).2⟩
  | renderText name =>
    refine ⟨congrArg Sight.answered (h.renderNamedText registry name), ?_⟩
    show Alike (Session.renderNamedText name registry left).1
      (Session.renderNamedText name registry right).1
    rw [context_renderNamedText, context_renderNamedText]
    exact (h.steady (registry.steady_render name)).2
  | renderNodes iterations nodes =>
    obtain ⟨heffect, hafter⟩ := h.steady (Node.steady_renderAll registry iterations nodes)
    obtain ⟨hwritten, -, hresult⟩ := Rendered.effect_eq_iff.mp heffect
    simp only [Rendered.effect] at hwritten hresult
    refine ⟨?_, hafter⟩
    simp only [Context.perform, hwritten, hresult]
  | enterLoop =>
    have hdepth : left.arena.acquire.depth = right.arena.acquire.depth :=
      congrArg (· + 1) h.depth_eq
    exact ⟨congrArg (Sight.answered ∘ Answer.depth) hdepth,
      h.setArena hdepth h.left_inBounds.acquire h.right_inBounds.acquire⟩
  | leaveLoop =>
    have hdepth : left.arena.release.depth = right.arena.release.depth := by
      rw [LoopArena.depth_release, LoopArena.depth_release, h.depth_eq]
    exact ⟨congrArg (Sight.answered ∘ Answer.depth) hdepth,
      h.setArena hdepth h.left_inBounds.release h.right_inBounds.release⟩
  | reset => exact ⟨rfl, rfl, rfl, left.arena.inBounds_reset, right.arena.inBounds_reset⟩

/-- A context that was reset is like a new one. -/
theorem reset_new (context : Context) : context.reset.Alike {} where
  bindings_eq := rfl
  depth_eq := rfl
  left_inBounds := context.arena.inBounds_reset
  right_inBounds := LoopArena.inBounds_empty

/-- No sequence of uses tells the two apart. The induction is on the uses; what carries it is that
they leave the contexts alike. -/
theorem observe_eq [JsonLibrary] (h : left.Alike right) (uses : List (Registry × Use)) :
    left.observe uses = right.observe uses := by
  induction uses generalizing left right with
  | nil => rfl
  | cons first rest ih =>
    obtain ⟨registry, use⟩ := first
    obtain ⟨hsight, hafter⟩ := h.perform registry use
    simp only [observe, hsight, hafter.depth_eq, ih hafter]

end Alike

/-- A reset context is as good as a new one: whatever has been done with it before, and whatever is
done with both from then on, they show the same. -/
theorem observe_reset_eq_new [JsonLibrary] (earlier later : List (Registry × Use)) :
    observe later (performAll earlier {}).reset = observe later {} :=
  (Alike.reset_new (performAll earlier {})).observe_eq later

end Context

end Stencil
