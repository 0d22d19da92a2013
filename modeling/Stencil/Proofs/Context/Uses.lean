import Stencil.Proofs.Render.Course
import Stencil.Session

/-!
# Uses of a context

A host binds variables, looks values up, renders, enters and leaves loops by hand, and resets, in
any order and on a registry that may change in between. The depth of the loop arena counts the loops
that are entered, and every slot that is free is clear (`Context.arena_balanced`): a rendering gives
back what it takes however it ends, so that only the uses that say so move the depth.
-/

set_option autoImplicit false

namespace Stencil

/-- What a host can do with a context. -/
inductive Context.Use where
  | bind (name : Bytes) (value : Json) (kind : Bytes)
  | look (path : Bytes)
  | render (name : Bytes)
  | renderText (name : Bytes)
  | renderNodes (iterations : Nat) (nodes : List Node)
  | enterLoop
  | leaveLoop
  | reset

/-- What a use of a context lets a host see, beside the depth of the arena after it. -/
inductive Context.Sight where
  | answered (answer : Answer)
  | found (root : Option Variable) (value : Option Json)
  | rendered (written : Bytes) (result : Except Stop Flow)

namespace Context

/-- What a use makes of a context, and what is seen of it. -/
def perform [JsonLibrary] (registry : Registry) (context : Context) : Use → Context × Sight
  | .bind name value kind =>
    (Session.bindValue name value kind registry context).map id .answered
  | .look path =>
    let (root, value) := Variable.lookUp context.bindings path
    (context, .found root value)
  | .render name => (Session.renderNamed name registry context).map id .answered
  | .renderText name => (Session.renderNamedText name registry context).map id .answered
  | .renderNodes iterations nodes =>
    let outcome := Node.renderAll registry iterations nodes context
    (outcome.context, .rendered outcome.written outcome.result)
  | .enterLoop =>
    let arena := context.arena.acquire
    ({ context with arena }, .answered (.depth arena.depth))
  | .leaveLoop =>
    let arena := context.arena.release
    ({ context with arena }, .answered (.depth arena.depth))
  | .reset => (context.reset, .answered (.depth context.reset.arena.depth))

/-- The context after uses one after another, each on the registry as it is then. -/
def performAll [JsonLibrary] : List (Registry × Use) → Context → Context
  | [], context => context
  | (registry, use) :: rest, context => performAll rest (context.perform registry use).1

/-- How many loops are entered after a use. -/
def Use.count (entered : Nat) : Use → Nat
  | enterLoop => entered + 1
  | leaveLoop => entered - 1
  | reset => 0
  | bind _ _ _ | look _ | render _ | renderText _ | renderNodes _ _ => entered

end Context

/-! ## The arena between uses -/

namespace LoopArena

/-- An arena between two uses: the slots that are taken exist, and those that are free are clear. -/
structure Tidy (arena : LoopArena) : Prop where
  inBounds : arena.InBounds
  clear : ∀ index, arena.depth ≤ index → arena.slot index = {}

/-- An arena that was reset is in its bounds. -/
theorem inBounds_reset (arena : LoopArena) : arena.reset.InBounds := Nat.zero_le _

/-- Leaving a loop keeps an arena in its bounds. -/
theorem InBounds.release {arena : LoopArena} (h : arena.InBounds) : arena.release.InBounds := by
  rw [InBounds] at h ⊢
  rw [depth_release, length_slots_release]
  omega

namespace Tidy

variable {arena : LoopArena}

/-- A new arena is tidy. -/
theorem empty : ({} : LoopArena).Tidy := ⟨inBounds_empty, fun _ _ => rfl⟩

/-- An arena stays tidy when its depth is kept and its free slots are at most cleared. -/
theorem of_keeps {count : Nat} {before after : LoopArena} (h : before.Tidy)
    (hkeeps : Keeps count before after) : after.Tidy := by
  refine ⟨hkeeps.inBounds h.inBounds, fun index hindex => ?_⟩
  rw [hkeeps.depth_eq] at hindex
  obtain hclear | hsame := hkeeps.free index hindex
  · exact hclear
  · exact hsame.trans (h.clear index hindex)

/-- Entering a loop keeps an arena tidy. -/
theorem acquire (h : arena.Tidy) : arena.acquire.Tidy := by
  refine ⟨h.inBounds.acquire, fun index hindex => ?_⟩
  have hbeyond : arena.depth < index := hindex
  rw [slot_acquire_of_ne (Nat.ne_of_gt hbeyond)]
  exact h.clear index (Nat.le_of_lt hbeyond)

/-- Leaving a loop keeps an arena tidy. -/
theorem release (h : arena.Tidy) : arena.release.Tidy := by
  refine ⟨h.inBounds.release, fun index hindex => ?_⟩
  rw [depth_release] at hindex
  cases hdepth : arena.depth with
  | zero =>
    rw [show arena.release = arena by simp [LoopArena.release, hdepth]]
    exact h.clear index (by omega)
  | succ depth =>
    by_cases hlast : index = depth
    · subst hlast
      exact slot_release_self hdepth
    · rw [slot_release_of_ne hdepth hlast]
      exact h.clear index (by omega)

/-- A reset clears the slots that are taken; the others are clear already. -/
theorem reset (h : arena.Tidy) : arena.reset.Tidy := by
  refine ⟨arena.inBounds_reset, fun index _ => ?_⟩
  rw [LoopArena.reset, slot]
  by_cases htaken : index < arena.depth
  · simp [List.getElem?_append_left, htaken]
  · rw [List.getElem?_append_right (by simp; omega), List.getElem?_drop, List.length_replicate,
      Nat.add_sub_cancel' (Nat.le_of_not_lt htaken)]
    exact h.clear index (Nat.le_of_not_lt htaken)

end Tidy

end LoopArena

/-- Rendering a registered template is steady. -/
theorem Registry.steady_render [JsonLibrary] (registry : Registry) (name : Bytes) :
    (registry.render name).Steady := by
  rw [render]
  cases registry.templates.find? name with
  | none => exact .fail _
  | some tree => exact .bind (Node.steady_renderAll registry _ tree.nodes) fun _ => .pure _

namespace Context

variable [JsonLibrary] (registry : Registry) (context : Context)

/-- A binding leaves the arena alone, also when it fails. -/
theorem arena_bindValue (name : Bytes) (value : Json) (kind : Bytes) :
    (Session.bindValue name value kind registry context).1.arena = context.arena := by
  rw [Session.bindValue, Context.bind]
  cases Variable.bound registry.inspectors value kind <;> rfl

/-- Rendering to a text leaves the context as rendering does. -/
theorem context_renderNamedText (name : Bytes) :
    (Session.renderNamedText name registry context).1 = (registry.render name context).context := by
  rw [Session.renderNamedText]
  cases (registry.render name context).result with
  | ok _ => rfl
  | error stop => cases stop <;> rfl

/-- What a use does to the arena. -/
inductive ArenaStep (before : LoopArena) : Use → LoopArena → Prop where
  | kept (use : Use) {after : LoopArena} (hcount : use.count before.depth = before.depth)
      (hkeeps : before.Keeps before.depth after) : ArenaStep before use after
  | entered : ArenaStep before .enterLoop before.acquire
  | left : ArenaStep before .leaveLoop before.release
  | reset : ArenaStep before .reset before.reset

/-- The uses that render or bind keep the arena; the others are single steps of it. -/
theorem arenaStep_perform (use : Use) :
    ArenaStep context.arena use (context.perform registry use).1.arena := by
  cases use with
  | bind name value kind =>
    refine .kept _ rfl ?_
    show LoopArena.Keeps _ _ (Session.bindValue name value kind registry context).1.arena
    rw [arena_bindValue]
    exact .refl _ _
  | look path => exact .kept _ rfl (.refl _ _)
  | render name => exact .kept _ rfl ((registry.steady_render name).keeps context)
  | renderText name =>
    refine .kept _ rfl ?_
    show LoopArena.Keeps _ _ (Session.renderNamedText name registry context).1.arena
    rw [context_renderNamedText]
    exact (registry.steady_render name).keeps context
  | renderNodes iterations nodes =>
    exact .kept _ rfl ((Node.steady_renderAll registry iterations nodes).keeps context)
  | enterLoop => exact .entered
  | leaveLoop => exact .left
  | reset => exact .reset

/-- The depth behind a use is what counting the use says. -/
theorem depth_perform (use : Use) :
    (context.perform registry use).1.arena.depth = use.count context.arena.depth := by
  cases arenaStep_perform registry context use with
  | kept use hcount hkeeps => rw [hkeeps.depth_eq, hcount]
  | entered | reset => rfl
  | left => exact context.arena.depth_release

/-- A use keeps the arena tidy. -/
theorem tidy_perform {context : Context} (h : context.arena.Tidy) (use : Use) :
    (context.perform registry use).1.arena.Tidy := by
  cases arenaStep_perform registry context use with
  | kept use hcount hkeeps => exact h.of_keeps hkeeps
  | entered => exact h.acquire
  | left => exact h.release
  | reset => exact h.reset

/-- The depth behind a run of uses is what counting them says. -/
theorem depth_performAll (uses : List (Registry × Use)) :
    (performAll uses context).arena.depth =
      (uses.map Prod.snd).foldl Use.count context.arena.depth := by
  induction uses generalizing context with
  | nil => rfl
  | cons first rest ih =>
    obtain ⟨registry, use⟩ := first
    rw [performAll, ih, depth_perform]
    rfl

/-- A run of uses keeps the arena tidy. -/
theorem tidy_performAll (uses : List (Registry × Use)) {context : Context}
    (h : context.arena.Tidy) : (performAll uses context).arena.Tidy := by
  induction uses generalizing context with
  | nil => exact h
  | cons first rest ih => exact ih (tidy_perform first.1 h first.2)

/-- The arena stays balanced. Rendering nodes leaves the depth as it was, whatever the context and
however the rendering ends. Between the uses of a new context the depth counts the loops that are
entered, with nothing to leave when there are none and none after a reset; it never exceeds the
number of slots, and every slot from there on is clear. -/
theorem arena_balanced :
    (∀ (registry : Registry) (iterations : Nat) (nodes : List Node) (context : Context),
      (Node.renderAll registry iterations nodes context).context.arena.depth =
        context.arena.depth) ∧
    ∀ uses : List (Registry × Use),
      (performAll uses {}).arena.depth = (uses.map Prod.snd).foldl Use.count 0 ∧
        (performAll uses {}).arena.Tidy := by
  constructor
  · intro registry iterations nodes context
    exact ((Node.steady_renderAll registry iterations nodes).keeps context).depth_eq
  · intro uses
    exact ⟨depth_performAll {} uses, tidy_performAll uses .empty⟩

end Context

end Stencil
