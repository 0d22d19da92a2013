import Stencil.Proofs.Render.Parts

/-!
# The course of a rendering

Rendering is one function for a whole tree. This file cuts it into steps from one site to the next:
a node, the nodes of a body, the elements that a loop still has to visit, the iterations that a
counting loop still has. A step says what has been written when the next site begins, and in which
context it does. An interruption comes from a site to the one before (`Site.Calls.interrupted`), and
a flow that is no normal end comes from nowhere else (`Site.exists_calls_of_node` and its likes).
-/

set_option autoImplicit false

namespace Stencil

/-- What is being rendered. -/
inductive Site where
  | node (node : Node)
  /-- Nodes in order. -/
  | all (nodes : List Node)
  /-- The elements that a loop has left to visit. -/
  | visits (head : RangeHead) (inspector : Inspector) (slot : Nat) (children : List Node)
    (elements : List (Json × Json))
  /-- A counting loop with a number of iterations left. -/
  | counts (head : CountHead) (slot : Nat) (children : List Node) (iterations : Nat)
    (counter : Int64)

namespace Site

variable (registry : Registry) (iterations : Nat)

/-- The rendering of a site. -/
def render [JsonLibrary] : Site → RenderM Flow
  | node single => single.render registry iterations
  | all nodes => Node.renderAll registry iterations nodes
  | visits head inspector slot children elements =>
    visitElements (head.visit inspector slot (Node.renderAll registry iterations children)) elements
  | counts head slot children left counter =>
    head.run (Inspector.general registry.inspectors) slot
      (Node.renderAll registry iterations children) left counter

/-- The rendering of a site in a context comes, after something has been written, to the rendering
of another site in another context. -/
inductive Calls [JsonLibrary] : Site → Context → Bytes → Site → Context → Prop
  | first {first : Node} {rest : List Node} {context : Context} :
    Calls (all (first :: rest)) context [] (node first) context
  | next {first : Node} {rest : List Node} {context : Context}
    (hdone : (first.render registry iterations context).result = .ok .done) :
    Calls (all (first :: rest)) context (first.render registry iterations context).written
      (all rest) (first.render registry iterations context).context
  | cond {condition : Condition} {children : List Node} {child : Node} {context : Context}
    {holds : Bool} (hholds : condition.evaluate registry context = .ok holds)
    (hchild : children[if holds then 0 else 1]? = some child) :
    Calls (node (.cond condition children)) context [] (node child) context
  | onTrue {children : List Node} {context : Context} :
    Calls (node (.onTrue children)) context [] (all children) context
  | onFalse {children : List Node} {context : Context} :
    Calls (node (.onFalse children)) context [] (all children) context
  | case {test : Comparison} {children : List Node} {context : Context} :
    Calls (node (.case test children)) context [] (all children) context
  | default {children : List Node} {context : Context} :
    Calls (node (.default children)) context [] (all children) context
  | switch {subject : Operand} {children chosen : List Node} {context : Context}
    (hchosen : Node.chosen? subject context children = .ok (some chosen)) :
    Calls (node (.switch subject children)) context [] (all chosen) context
  | range {head : RangeHead} {children : List Node} {context : Context} {root : Variable}
    {source : Json} {elements : List (Json × Json)}
    (hsource : Variable.lookUp context.bindings head.source = (some root, some source))
    (helements : root.inspector.elements source = .ok elements) :
    Calls (node (.forRange head children)) context []
      (visits head root.inspector context.arena.depth children elements)
      (context.enterLoop head.separator)
  | visit {head : RangeHead} {inspector : Inspector} {slot : Nat} {children : List Node}
    {element : Json × Json} {rest : List (Json × Json)} {context : Context} :
    Calls (visits head inspector slot children (element :: rest)) context
      (head.begin inspector slot element context).written (all children)
      (head.begin inspector slot element context).context
  | nextVisit {head : RangeHead} {inspector : Inspector} {slot : Nat} {children : List Node}
    {element : Json × Json} {rest : List (Json × Json)} {context : Context}
    {visited : Rendered Flow} {flow : Flow}
    (hvisited : head.visit inspector slot (Node.renderAll registry iterations children) element
      context = visited)
    (hflow : visited.result = .ok flow) (hgoes : flow.stopsLoop = false) :
    Calls (visits head inspector slot children (element :: rest)) context visited.written
      (visits head inspector slot children rest) visited.context
  | count {head : CountHead} {children : List Node} {context : Context} {counter : Int64}
    (hinit : head.integer .init (context.resolve head.init) = .ok counter) :
    Calls (node (.forCount head children)) context []
      (counts head context.arena.depth children iterations counter)
      ((context.assign head.counter (Json.ofWord counter)
        (Inspector.general registry.inspectors)).enterLoop head.separator)
  | iteration {head : CountHead} {slot : Nat} {children : List Node} {left : Nat}
    {counter limit : Int64} {context : Context}
    (hlimit : head.integer .limit (context.resolve head.limit) = .ok limit)
    (hcontinues : head.continues counter limit = true) :
    Calls (counts head slot children (left + 1) counter) context
      (RenderM.beginIteration slot context).written (all children)
      (RenderM.beginIteration slot context).context
  | nextIteration {head : CountHead} {slot : Nat} {children : List Node} {left : Nat}
    {counter limit after : Int64} {context : Context} {iterated : Rendered Flow}
    (hlimit : head.integer .limit (context.resolve head.limit) = .ok limit)
    (hcontinues : head.continues counter limit = true)
    (hiterated : RenderM.iterate slot (Node.renderAll registry iterations children) context =
      iterated)
    (hflow : iterated.result = .ok .done) (hnext : head.next iterated.context counter = .ok after) :
    Calls (counts head slot children (left + 1) counter) context iterated.written
      (counts head slot children left after)
      (iterated.context.assign head.counter (Json.ofWord after)
        (Inspector.general registry.inspectors))

/-- The rendering of a site in a context comes to an exit node, after something has been written and
in another context. -/
inductive Executes [JsonLibrary] : Site → Context → Bytes → Context → Prop
  | exit {context : Context} : Executes (node .exit) context [] context
  | step {site next : Site} {before between after : Context} {written more : Bytes}
    (hcalls : Calls registry iterations site before written next between)
    (hnext : Executes next between more after) : Executes site before (written ++ more) after

/-! ## Sites get smaller -/

/-- How much there is to render at a site: the size of its nodes, and what a loop has left. -/
noncomputable def size : Site → Nat × Nat
  | node single => (sizeOf single, 0)
  | all nodes => (sizeOf nodes, 0)
  | visits _ _ _ children elements => (sizeOf children, elements.length + 1)
  | counts _ _ children left _ => (sizeOf children, left + 1)

/-- No site comes to smaller ones for ever. -/
theorem size_wf : WellFounded fun next site : Site =>
    Prod.Lex (· < ·) (· < ·) next.size site.size :=
  InvImage.wf size (Prod.lex Nat.lt_wfRel Nat.lt_wfRel).wf

/-- What a site comes to is smaller. -/
theorem Calls.size_lt [JsonLibrary] {registry : Registry} {iterations : Nat} {site next : Site}
    {before after : Context} {written : Bytes}
    (h : Calls registry iterations site before written next after) :
    Prod.Lex (· < ·) (· < ·) next.size site.size := by
  cases h with
  | first => exact .left _ _ (by simp only [List.cons.sizeOf_spec]; omega)
  | next hdone => exact .left _ _ (by simp only [List.cons.sizeOf_spec]; omega)
  | cond hholds hchild =>
    have hmem := List.sizeOf_lt_of_mem (List.mem_of_getElem? hchild)
    exact .left _ _ (by simp only [Node.cond.sizeOf_spec]; omega)
  | onTrue => exact .left _ _ (by simp only [Node.onTrue.sizeOf_spec]; omega)
  | onFalse => exact .left _ _ (by simp only [Node.onFalse.sizeOf_spec]; omega)
  | case => exact .left _ _ (by simp only [Node.case.sizeOf_spec]; omega)
  | default => exact .left _ _ (by simp only [Node.default.sizeOf_spec]; omega)
  | switch hchosen =>
    obtain ⟨test, hmem⟩ | hmem := Node.mem_of_chosen? hchosen
    · have hless := List.sizeOf_lt_of_mem hmem
      simp only [Node.case.sizeOf_spec] at hless
      exact .left _ _ (by simp only [Node.switch.sizeOf_spec]; omega)
    · have hless := List.sizeOf_lt_of_mem hmem
      simp only [Node.default.sizeOf_spec] at hless
      exact .left _ _ (by simp only [Node.switch.sizeOf_spec]; omega)
  | range hsource helements =>
    exact .left _ _ (by simp only [Node.forRange.sizeOf_spec]; omega)
  | visit => exact .right _ (by simp)
  | nextVisit hvisited hflow hgoes => exact .right _ (by simp)
  | count hinit => exact .left _ _ (by simp only [Node.forCount.sizeOf_spec]; omega)
  | iteration hlimit hcontinues => exact .right _ (by simp)
  | nextIteration hlimit hcontinues hiterated hflow hnext => exact .right _ (by simp)

end Site

/-! ## Interruptions -/

/-- A rendering is interrupted, after something has been written and with given variables. -/
structure Rendered.Interrupted (outcome : Rendered Flow) (written : Bytes)
    (bindings : Table Variable) : Prop where
  result : outcome.result = .ok .interrupt
  written : outcome.written = written
  bindings : outcome.context.bindings = bindings

namespace Rendered.Interrupted

variable {outcome : Rendered Flow} {written : Bytes} {bindings : Table Variable}

/-- Text written before an interruption comes first. -/
theorem after (h : outcome.Interrupted written bindings) (before : Bytes) :
    (outcome.after before).Interrupted (before ++ written) bindings :=
  ⟨h.result, congrArg (before ++ ·) h.written, h.bindings⟩

/-- Leaving a loop changes nothing of an interruption. -/
theorem leaveLoop (h : outcome.Interrupted written bindings) :
    outcome.leaveLoop.Interrupted written bindings :=
  ⟨h.result, h.written, h.bindings⟩

/-- A map that keeps an interruption changes nothing of it. -/
theorem map {f : Flow → Flow} (hf : f .interrupt = .interrupt)
    (h : outcome.Interrupted written bindings) : (outcome.map f).Interrupted written bindings := by
  refine ⟨?_, h.written, h.bindings⟩
  rw [result_map, h.result, Except.map, hf]

end Rendered.Interrupted

namespace Site

variable {registry : Registry} {iterations : Nat}

/-- An interruption comes from a site to the one before: nothing more is written, and no variable is
changed. -/
theorem Calls.interrupted [JsonLibrary] {site next : Site} {before after : Context}
    {written more : Bytes} {bindings : Table Variable}
    (h : Calls registry iterations site before written next after)
    (hnext : (next.render registry iterations after).Interrupted more bindings) :
    (site.render registry iterations before).Interrupted (written ++ more) bindings := by
  cases h with
  | first =>
    rw [render, Node.renderAll_of_flow hnext.result (by simp)]
    exact hnext
  | next hdone =>
    rw [render, Node.renderAll_of_done hdone]
    exact hnext.after _
  | cond hholds hchild =>
    rw [render, Node.render, RenderM.context_bind, hholds, RenderM.ofExcept_ok_bind,
      Node.renderNth_of_getElem? hchild]
    exact hnext
  | onTrue | onFalse | case | default =>
    rw [render, Node.render]
    exact hnext
  | switch hchosen =>
    rw [render, Node.render_switch]
    simp only [hchosen]
    exact hnext
  | range hsource helements =>
    rw [render, Node.render, RangeHead.render_of_elements hsource helements]
    exact hnext.leaveLoop.map rfl
  | @visit head inspector slot children element rest =>
    have hvisit : (head.visit inspector slot (Node.renderAll registry iterations children) element
        before).Interrupted
          ((head.begin inspector slot element before).written ++ more) bindings := by
      rw [RangeHead.visit_apply]
      exact (hnext.map rfl).after _
    rw [render, visitElements_cons hvisit.result]
    exact hvisit
  | nextVisit hvisited hflow hgoes =>
    subst hvisited
    rw [render, visitElements_cons hflow, hgoes]
    exact hnext.after _
  | count hinit =>
    rw [render, Node.render, CountHead.render_of_init hinit]
    exact hnext.leaveLoop
  | @iteration head slot children left counter limit _ hlimit hcontinues =>
    have hiterated : (RenderM.iterate slot (Node.renderAll registry iterations children)
        before).Interrupted ((RenderM.beginIteration slot before).written ++ more) bindings := by
      rw [RenderM.iterate_apply]
      exact (hnext.map rfl).after _
    rw [render, CountHead.run_of_interrupt hlimit hcontinues hiterated.result]
    exact hiterated
  | nextIteration hlimit hcontinues hiterated hflow hcounter =>
    subst hiterated
    rw [render, CountHead.run_of_done hlimit hcontinues hflow hcounter]
    exact hnext.after _

/-- From the moment an exit node is executed nothing is written and no variable is changed. -/
theorem Executes.interrupted [JsonLibrary] {site : Site} {before atExit : Context} {written : Bytes}
    (h : Executes registry iterations site before written atExit) :
    (site.render registry iterations before).Interrupted written atExit.bindings := by
  induction h with
  | exit => exact ⟨rfl, rfl, rfl⟩
  | step hcalls hnext ih => exact hcalls.interrupted ih

end Site

/-! ## Where a flow comes from -/

/-- The flow of a node that ends with one of its own making. -/
def Node.flow? : Node → Option Flow
  | .breakLoop => some .breakLoop
  | .continueLoop => some .continueLoop
  | .exit => some .interrupt
  | _ => none

namespace Site

variable [JsonLibrary] {registry : Registry} {iterations : Nat}

/-- When nodes in order end early, one of them does. -/
theorem exists_calls_of_all {nodes : List Node} {context : Context} {flow : Flow}
    (h : ((all nodes).render registry iterations context).result = .ok flow)
    (hflow : flow ≠ .done) :
    ∃ written next after, Calls registry iterations (all nodes) context written next after ∧
      (next.render registry iterations after).result = .ok flow := by
  rw [render] at h
  cases nodes with
  | nil => exact absurd (Except.ok.inj h).symm hflow
  | cons first rest =>
    rw [Node.renderAll] at h
    obtain ⟨ended, hended, -⟩ := RenderM.result_bind_eq_ok_iff.mp h
    rw [← Node.renderAll] at h
    by_cases hdone : ended = .done
    · subst hdone
      rw [Node.renderAll_of_done hended] at h
      exact ⟨_, _, _, .next hended, h⟩
    · rw [Node.renderAll_of_flow hended hdone] at h
      exact ⟨_, _, _, .first, h⟩

/-- When a loop over elements ends early, one of its iterations does. -/
theorem exists_calls_of_visits {head : RangeHead} {inspector : Inspector} {slot : Nat}
    {children : List Node} {elements : List (Json × Json)} {context : Context} {flow : Flow}
    (h : ((visits head inspector slot children elements).render registry iterations
      context).result = .ok flow) (hflow : flow ≠ .done) :
    ∃ written next after,
      Calls registry iterations (visits head inspector slot children elements) context written next
        after ∧ (next.render registry iterations after).result = .ok flow := by
  rw [render] at h
  cases elements with
  | nil => exact absurd (Except.ok.inj h).symm hflow
  | cons element rest =>
    rw [visitElements] at h
    obtain ⟨ended, hended, -⟩ := RenderM.result_bind_eq_ok_iff.mp h
    rw [← visitElements, visitElements_cons hended] at h
    cases hstops : ended.stopsLoop with
    | false =>
      rw [hstops] at h
      exact ⟨_, _, _, .nextVisit rfl hended hstops, h⟩
    | true =>
      rw [hstops, if_pos rfl, RangeHead.visit_apply, Rendered.result_after] at h
      exact ⟨_, _, _, .visit, Rendered.result_of_ofIteration h hflow⟩

/-- When a counting loop ends early, one of its iterations does. -/
theorem exists_calls_of_counts {head : CountHead} {slot : Nat} {children : List Node} {left : Nat}
    {counter : Int64} {context : Context} {flow : Flow}
    (h : ((counts head slot children left counter).render registry iterations context).result =
      .ok flow) (hflow : flow ≠ .done) :
    ∃ written next after,
      Calls registry iterations (counts head slot children left counter) context written next
        after ∧ (next.render registry iterations after).result = .ok flow := by
  rw [render] at h
  obtain hdone | ⟨left, limit, rfl, hlimit, hcontinues, rfl, hended | ⟨hended, after, hnext,
    hmore⟩⟩ := CountHead.eq_done_of_run h
  · exact absurd hdone hflow
  · rw [RenderM.iterate_apply, Rendered.result_after] at hended
    exact ⟨_, _, _, .iteration hlimit hcontinues, Rendered.result_of_ofIteration hended hflow⟩
  · exact ⟨_, _, _, .nextIteration hlimit hcontinues rfl hended hnext, hmore⟩

/-- A node ends with a flow that it makes itself, or because what it owns does. -/
theorem exists_calls_of_node {single : Node} {context : Context} {flow : Flow}
    (h : ((node single).render registry iterations context).result = .ok flow)
    (hflow : flow ≠ .done) :
    single.flow? = some flow ∨
      ∃ written next after, Calls registry iterations (node single) context written next after ∧
        (next.render registry iterations after).result = .ok flow := by
  rw [render] at h
  cases single with
  | raw text =>
    rw [Node.render] at h
    exact absurd (Except.ok.inj h).symm hflow
  | print statement => exact absurd (statement.eq_done_of_render h) hflow
  | bind statement => exact absurd (statement.eq_done_of_render h) hflow
  | counter statement => exact absurd (statement.eq_done_of_render h) hflow
  | cond condition children =>
    rw [Node.render, RenderM.context_bind] at h
    cases hholds : condition.evaluate registry context with
    | error failure => simp [hholds] at h
    | ok holds =>
      rw [hholds, RenderM.ofExcept_ok_bind] at h
      cases hchild : children[if holds then 0 else 1]? with
      | none =>
        rw [Node.renderNth_of_none hchild] at h
        exact absurd (Except.ok.inj h).symm hflow
      | some child =>
        rw [Node.renderNth_of_getElem? hchild] at h
        exact .inr ⟨_, _, _, .cond hholds hchild, h⟩
  | onTrue children =>
    rw [Node.render] at h
    exact .inr ⟨_, _, _, .onTrue, h⟩
  | onFalse children =>
    rw [Node.render] at h
    exact .inr ⟨_, _, _, .onFalse, h⟩
  | case test children =>
    rw [Node.render] at h
    exact .inr ⟨_, _, _, .case, h⟩
  | default children =>
    rw [Node.render] at h
    exact .inr ⟨_, _, _, .default, h⟩
  | forRange head children =>
    rw [Node.render] at h
    obtain hdone | ⟨root, source, elements, hsource, helements⟩ := head.exists_elements_of_render h
    · exact absurd hdone hflow
    · rw [RangeHead.render_of_elements hsource helements] at h
      exact .inr ⟨_, _, _, .range hsource helements, Rendered.result_of_ofLoop h hflow⟩
  | forCount head children =>
    rw [Node.render] at h
    obtain ⟨counter, hinit⟩ := CountHead.exists_init_of_render h
    rw [CountHead.render_of_init hinit] at h
    exact .inr ⟨_, _, _, .count hinit, h⟩
  | breakLoop => exact .inl (congrArg some (Except.ok.inj h))
  | continueLoop => exact .inl (congrArg some (Except.ok.inj h))
  | switch subject children =>
    rw [Node.render_switch] at h
    cases hchosen : Node.chosen? subject context children with
    | error failure => simp [hchosen, RenderM.fail] at h
    | ok chosen =>
      cases chosen with
      | none =>
        simp only [hchosen] at h
        exact absurd (Except.ok.inj h).symm hflow
      | some chosen =>
        simp only [hchosen] at h
        exact .inr ⟨_, _, _, .switch hchosen, h⟩
  | divider => cases h
  | exit => exact .inl (congrArg some (Except.ok.inj h))

end Site

end Stencil
