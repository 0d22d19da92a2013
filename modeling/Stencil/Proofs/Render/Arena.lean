import Stencil.Proofs.Render.Parts

/-!
# The loop arena under a rendering

A loop takes the slot at its depth and gives it back however it ends, so that a rendering leaves the
arena as it found it, save for slots beyond the depth that it has cleared. `LoopArena.Keeps` says
this of two arenas and `RenderM.KeepsSlots` of a step; the second part of the file carries the
latter through everything that rendering steps are made of, up to the two loops.
-/

set_option autoImplicit false

namespace Stencil

namespace LoopArena

variable {arena : LoopArena} {index other : Nat}

/-- Whether every slot that is taken exists. -/
def InBounds (arena : LoopArena) : Prop := arena.depth ≤ arena.slots.length

/-- A slot that is set holds what it was set to, when there is one. -/
theorem slot_setSlot_self (hindex : index < arena.slots.length) (slot : LoopSlot) :
    (arena.setSlot index slot).slot index = slot := by
  simp [setSlot, LoopArena.slot, hindex]

/-- Setting a slot leaves every other one alone. -/
theorem slot_setSlot_of_ne (hother : other ≠ index) (slot : LoopSlot) :
    (arena.setSlot index slot).slot other = arena.slot other := by
  simp [setSlot, LoopArena.slot, List.getElem?_set_ne hother.symm]

/-- Taking a slot leaves every other one alone. -/
theorem slot_acquire_of_ne (hother : other ≠ arena.depth) :
    arena.acquire.slot other = arena.slot other := by
  rw [acquire, slot, slot]
  split
  · simp [List.getElem?_set_ne hother.symm]
  · by_cases hlength : other < arena.slots.length
    · simp [List.getElem?_append_left hlength]
    · -- The new slot is as clear as one that is not there.
      have hnone : arena.slots[other]? = none := List.getElem?_eq_none (by omega)
      rw [List.getElem?_append_right (by omega), hnone]
      cases other - arena.slots.length <;> simp

/-- Taking a slot gives none back. -/
theorem length_slots_acquire_le (arena : LoopArena) :
    arena.slots.length ≤ arena.acquire.slots.length := by
  rw [acquire]
  split <;> simp

/-- Taking a slot keeps an arena in its bounds. -/
theorem InBounds.acquire (h : arena.InBounds) : arena.acquire.InBounds := by
  rw [InBounds] at h ⊢
  rw [LoopArena.acquire]
  split <;> simp <;> omega

/-- Giving a slot back leaves it in the arena. -/
theorem length_slots_release (arena : LoopArena) :
    arena.release.slots.length = arena.slots.length := by
  rw [release]
  split <;> simp

/-- A slot that is given back is clear. -/
theorem slot_release_self {depth : Nat} (hdepth : arena.depth = depth + 1) :
    arena.release.slot depth = {} := by
  rw [release, hdepth, slot]
  by_cases hlength : depth < arena.slots.length <;> simp [hlength]

/-- Giving a slot back leaves every other one alone. -/
theorem slot_release_of_ne {depth : Nat} (hdepth : arena.depth = depth + 1)
    (hother : other ≠ depth) : arena.release.slot other = arena.slot other := by
  rw [release, hdepth, slot, slot]
  simp [List.getElem?_set_ne hother.symm]

/-- Giving a slot back takes one off the depth. -/
theorem depth_release (arena : LoopArena) : arena.release.depth = arena.depth - 1 := by
  rw [release]
  split <;> simp_all

/-- An arena after something has been done with it: the depth is what it was, no slot is gone, the
slots before the first `count` are untouched, and those that are free are untouched or clear. -/
structure Keeps (count : Nat) (before after : LoopArena) : Prop where
  depth_eq : after.depth = before.depth
  length_le : before.slots.length ≤ after.slots.length
  below : ∀ index < count, after.slot index = before.slot index
  free : ∀ index, before.depth ≤ index →
    after.slot index = {} ∨ after.slot index = before.slot index

namespace Keeps

variable {count : Nat} {before middle after : LoopArena}

/-- An arena with which nothing was done is kept. -/
theorem refl (count : Nat) (arena : LoopArena) : Keeps count arena arena :=
  ⟨rfl, Nat.le_refl _, fun _ _ => rfl, fun _ _ => .inr rfl⟩

/-- What is kept twice in a row is kept. -/
theorem trans (hfirst : Keeps count before middle) (hsecond : Keeps count middle after) :
    Keeps count before after := by
  refine ⟨hsecond.depth_eq.trans hfirst.depth_eq, Nat.le_trans hfirst.length_le hsecond.length_le,
    ?_, ?_⟩
  · intro index hindex
    exact (hsecond.below index hindex).trans (hfirst.below index hindex)
  · intro index hindex
    have hlater := hsecond.free index (hfirst.depth_eq ▸ hindex)
    have hearlier := hfirst.free index hindex
    obtain hclear | hsame := hlater
    · exact .inl hclear
    · exact hearlier.imp hsame.trans hsame.trans

/-- What is kept with more slots is kept with fewer. -/
theorem mono {fewer : Nat} (hle : fewer ≤ count) (h : Keeps count before after) :
    Keeps fewer before after :=
  ⟨h.depth_eq, h.length_le, fun index hindex => h.below index (Nat.lt_of_lt_of_le hindex hle),
    h.free⟩

/-- An arena that is kept stays in its bounds. -/
theorem inBounds (h : Keeps count before after) (hbounds : before.InBounds) : after.InBounds := by
  rw [InBounds, h.depth_eq]
  exact Nat.le_trans hbounds h.length_le

end Keeps

/-- A taken slot may be written to by its own loop. -/
theorem keeps_setSlot (arena : LoopArena) (slot : LoopSlot) (hindex : index < arena.depth) :
    arena.Keeps index (arena.setSlot index slot) := by
  refine ⟨rfl, by simp [setSlot], ?_, ?_⟩
  · intro other hother
    exact slot_setSlot_of_ne (Nat.ne_of_lt hother) slot
  · intro other hother
    exact .inr (slot_setSlot_of_ne (by omega) slot)

end LoopArena

/-- Entering a loop leaves every slot but its own alone. -/
theorem Context.slot_enterLoop_of_ne {context : Context} {index : Nat}
    (hindex : index ≠ context.arena.depth) (separator : Bytes) :
    (context.enterLoop separator).arena.slot index = context.arena.slot index := by
  rw [enterLoop, LoopArena.slot_setSlot_of_ne hindex, LoopArena.slot_acquire_of_ne hindex]

/-- Entering a loop gives no slot back. -/
theorem Context.length_slots_enterLoop_le (context : Context) (separator : Bytes) :
    context.arena.slots.length ≤ (context.enterLoop separator).arena.slots.length := by
  simpa [enterLoop, LoopArena.setSlot] using context.arena.length_slots_acquire_le

/-- A loop that keeps the slots around its own one keeps the arena: its own slot is cleared in the
end. -/
theorem LoopArena.Keeps.leaveLoop {context : Context} {separator : Bytes} {after : LoopArena}
    (h : Keeps context.arena.depth (context.enterLoop separator).arena after) :
    Keeps context.arena.depth context.arena after.release := by
  have hdepth : after.depth = context.arena.depth + 1 := h.depth_eq
  refine ⟨by rw [depth_release, hdepth, Nat.add_sub_cancel], ?_, ?_, ?_⟩
  · rw [length_slots_release]
    exact Nat.le_trans (context.length_slots_enterLoop_le separator) h.length_le
  · intro index hindex
    have hne : index ≠ context.arena.depth := Nat.ne_of_lt hindex
    rw [slot_release_of_ne hdepth hne, h.below index hindex, context.slot_enterLoop_of_ne hne]
  · intro index hindex
    by_cases hne : index = context.arena.depth
    · subst hne
      exact .inl (slot_release_self hdepth)
    · rw [slot_release_of_ne hdepth hne, ← context.slot_enterLoop_of_ne hne separator]
      refine h.free index ?_
      show context.arena.depth + 1 ≤ index
      omega

namespace RenderM

variable {α β : Type}

/-- Behind a failure nothing is rendered. -/
theorem bind_of_error {step : RenderM α} {next : α → RenderM β} {context : Context} {stop : Stop}
    (h : (step context).result = .error stop) :
    (step >>= next) context =
      { written := (step context).written, context := (step context).context,
        result := .error stop } := by
  show RenderM.bind step next context = _
  rw [RenderM.bind]
  simp only [h]

/-- A step at a nesting depth, however it ends, keeps the arena with its first `count` slots. -/
def KeepsSlots (count depth : Nat) (step : RenderM α) : Prop :=
  ∀ context : Context,
    context.arena.depth = depth → context.arena.Keeps count (step context).context.arena

namespace KeepsSlots

variable {count depth : Nat}

/-- A step that leaves the arena alone. -/
theorem of_arena_eq {step : RenderM α}
    (h : ∀ context, (step context).context.arena = context.arena) :
    step.KeepsSlots count depth := by
  intro context _
  rw [h context]
  exact .refl count _

/-- A value keeps all slots. -/
theorem pure (value : α) : (Pure.pure value : RenderM α).KeepsSlots count depth :=
  of_arena_eq fun _ => rfl

/-- Writing keeps all slots. -/
theorem write (text : Bytes) : (RenderM.write text).KeepsSlots count depth :=
  of_arena_eq fun _ => rfl

/-- A failure keeps all slots. -/
theorem fail (failure : Failure) : (RenderM.fail failure : RenderM α).KeepsSlots count depth :=
  of_arena_eq fun _ => rfl

/-- A loop that has used up its iterations keeps all slots. -/
theorem exhaust : (RenderM.exhaust : RenderM α).KeepsSlots count depth :=
  of_arena_eq fun _ => rfl

/-- Assigning a variable keeps all slots. -/
theorem assign (name : Bytes) (value : Json) (inspector : Inspector) :
    (RenderM.assign name value inspector).KeepsSlots count depth :=
  of_arena_eq fun _ => rfl

/-- A value or a failure keeps all slots. -/
theorem ofExcept (value : Except Failure α) :
    (RenderM.ofExcept value).KeepsSlots count depth := by
  cases value with
  | ok value => exact pure value
  | error failure => exact fail failure

/-- Two steps in a row keep the slots that both of them keep. -/
theorem bind {step : RenderM α} {next : α → RenderM β} (hstep : step.KeepsSlots count depth)
    (hnext : ∀ value, (next value).KeepsSlots count depth) :
    (step >>= next).KeepsSlots count depth := by
  intro context hdepth
  have hfirst := hstep context hdepth
  cases hresult : (step context).result with
  | error stop =>
    rw [bind_of_error hresult]
    exact hfirst
  | ok value =>
    rw [bind_of_ok hresult]
    exact hfirst.trans (hnext value _ (hfirst.depth_eq.trans hdepth))

/-- A step that looks at the context first. -/
theorem read {next : Context → RenderM α}
    (hnext : ∀ context, (next context).KeepsSlots count depth) :
    (RenderM.context >>= next).KeepsSlots count depth := by
  intro context hdepth
  rw [context_bind]
  exact hnext context context hdepth

/-- A step with a slot of its own keeps those below, though it may do with its own what it likes. -/
theorem withSlot {separator : Bytes} {step : Nat → RenderM α}
    (hstep : (step depth).KeepsSlots depth (depth + 1)) :
    (RenderM.withSlot separator step).KeepsSlots depth depth := by
  rintro context rfl
  rw [withSlot_apply]
  exact (hstep (context.enterLoop separator) rfl).leaveLoop

/-- Beginning an iteration keeps the slots below that of the loop. -/
theorem beginIteration (slot : Nat) :
    (RenderM.beginIteration slot).KeepsSlots slot (slot + 1) := by
  intro context hdepth
  rw [RenderM.beginIteration, context_bind, update_bind]
  have hkeeps := context.arena.keeps_setSlot
    { context.arena.slot slot with begun := (context.arena.slot slot).begun + 1 }
    (show slot < context.arena.depth by omega)
  split
  · exact hkeeps
  · exact hkeeps

/-- An iteration keeps the slots around that of its loop. -/
theorem iterate {slot : Nat} {body : RenderM Flow}
    (hbody : body.KeepsSlots (slot + 1) (slot + 1)) :
    (RenderM.iterate slot body).KeepsSlots slot (slot + 1) := by
  intro context hdepth
  have hbegin := beginIteration slot context hdepth
  rw [iterate_apply]
  exact hbegin.trans ((hbody _ (hbegin.depth_eq.trans hdepth)).mono (Nat.le_succ slot))

/-- Visiting elements keeps the slots that every visit keeps. -/
theorem visitElements {γ : Type} {visit : γ → RenderM Flow}
    (hvisit : ∀ element, (visit element).KeepsSlots count depth) (elements : List γ) :
    (Stencil.visitElements visit elements).KeepsSlots count depth := by
  induction elements with
  | nil => exact pure _
  | cons element rest ih =>
    refine (hvisit element).bind fun flow => ?_
    split
    · exact pure _
    · exact ih

end KeepsSlots

end RenderM

/-- The visit of an element keeps the slots below that of the loop. -/
theorem RangeHead.keepsSlots_visit (head : RangeHead) (inspector : Inspector) {slot : Nat}
    {body : RenderM Flow} (hbody : body.KeepsSlots (slot + 1) (slot + 1))
    (element : Json × Json) :
    (head.visit inspector slot body element).KeepsSlots slot (slot + 1) := by
  unfold visit
  have hrest := (RenderM.KeepsSlots.assign head.value element.2 inspector).bind
    fun _ => RenderM.KeepsSlots.iterate hbody
  cases head.key.isEmpty with
  | true => exact hrest
  | false => exact (RenderM.KeepsSlots.assign _ _ _).bind fun _ => hrest

/-- A loop over elements keeps the arena when its body does. -/
theorem RangeHead.keepsSlots_render (head : RangeHead) {body : RenderM Flow}
    (hbody : ∀ depth, body.KeepsSlots depth depth) (depth : Nat) :
    (head.render body).KeepsSlots depth depth := by
  apply RenderM.KeepsSlots.read
  intro context
  split
  · rename_i root source _
    have hvisits : RenderM.KeepsSlots depth (depth + 1)
        (RenderM.ofExcept (root.inspector.elements source) >>=
          visitElements (head.visit root.inspector depth body)) := by
      apply RenderM.KeepsSlots.bind (.ofExcept _)
      intro elements
      exact .visitElements (head.keepsSlots_visit root.inspector (hbody (depth + 1))) elements
    exact .bind (.withSlot hvisits) fun flow => .pure _
  · exact .pure _

/-- The iterations of a counting loop keep the slots around that of the loop. -/
theorem CountHead.keepsSlots_run [JsonLibrary] (head : CountHead) (inspector : Inspector)
    {slot : Nat} {body : RenderM Flow} (hbody : body.KeepsSlots (slot + 1) (slot + 1))
    (iterations : Nat) (counter : Int64) :
    (head.run inspector slot body iterations counter).KeepsSlots slot (slot + 1) := by
  induction iterations generalizing counter with
  | zero =>
    rw [run]
    apply RenderM.KeepsSlots.read
    intro context
    apply RenderM.KeepsSlots.bind (.ofExcept _)
    intro limit
    split
    · exact .exhaust
    · exact .pure _
  | succ left ih =>
    rw [run]
    apply RenderM.KeepsSlots.read
    intro context
    apply RenderM.KeepsSlots.bind (.ofExcept _)
    intro limit
    split
    · apply RenderM.KeepsSlots.bind (.iterate hbody)
      intro flow
      have hnext := RenderM.KeepsSlots.read fun context =>
        (RenderM.KeepsSlots.ofExcept (head.next context counter)).bind fun after =>
          (RenderM.KeepsSlots.assign head.counter (Json.ofWord after) inspector).bind
            fun _ => ih after
      cases flow with
      | breakLoop => exact .pure _
      | interrupt => exact .pure _
      | done => exact hnext
      | continueLoop => exact hnext
    · exact .pure _

/-- A counting loop keeps the arena when its body does. -/
theorem CountHead.keepsSlots_render [JsonLibrary] (head : CountHead) (registry : Registry)
    (iterations : Nat) {body : RenderM Flow} (hbody : ∀ depth, body.KeepsSlots depth depth)
    (depth : Nat) :
    (head.render registry iterations body).KeepsSlots depth depth := by
  apply RenderM.KeepsSlots.read
  intro context
  apply RenderM.KeepsSlots.bind (.ofExcept _)
  intro counter
  apply RenderM.KeepsSlots.bind (.assign _ _ _)
  intro _
  exact .withSlot (head.keepsSlots_run _ (hbody (depth + 1)) iterations counter)

end Stencil
