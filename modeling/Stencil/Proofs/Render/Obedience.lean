import Stencil.Proofs.Render.Arena
import Stencil.Proofs.Render.Discipline
import Stencil.Proofs.Template.Form
import Stencil.Proofs.Template.Origin

/-!
# Renderings that obey

A rendering with a host and variables that obey a discipline leaves such variables and fails with
allowed failures only (`Node.obeys_renderAll`). `RenderM.Obeys` carries this over the steps of a
rendering; of the template it is asked that its nodes are formed, so that none is unknown, and that
the values of its literals are allowed.
-/

set_option autoImplicit false

namespace Stencil

variable [JsonLibrary]

/-- An outcome with allowed variables that is an allowed failure or has a property. -/
structure Rendered.Obeys {α : Type} (discipline : Discipline) (property : α → Prop)
    (outcome : Rendered α) : Prop where
  context : outcome.context.Obeys discipline
  ok : ∀ value, outcome.result = .ok value → property value
  error : ∀ cause, outcome.result = .error (.failed cause) → discipline.failure cause

/-- A step whose outcome is as `Rendered.Obeys` says when the variables are allowed before it. -/
def RenderM.Obeys {α : Type} (discipline : Discipline) (property : α → Prop) (step : RenderM α) :
    Prop :=
  ∀ context : Context, context.Obeys discipline → (step context).Obeys discipline property

namespace RenderM.Obeys

variable {discipline : Discipline} {α β : Type} {property : α → Prop} {further : β → Prop}

/-- A value with the property obeys. -/
theorem pure {value : α} (h : property value) :
    (Pure.pure value : RenderM α).Obeys discipline property := by
  refine fun _ hcontext => ⟨hcontext, ?_, ?_⟩
  · rintro _ ⟨⟩
    exact h
  · rintro _ ⟨⟩

/-- Of a value nothing need be asked. -/
theorem done (value : α) : (Pure.pure value : RenderM α).Obeys discipline anything := pure trivial

/-- An allowed failure obeys. -/
theorem fail {cause : Failure} (h : discipline.failure cause) :
    (RenderM.fail cause : RenderM α).Obeys discipline property := by
  refine fun _ hcontext => ⟨hcontext, ?_, ?_⟩
  · rintro _ ⟨⟩
  · rintro _ ⟨⟩
    exact h

/-- A loop that has used up its iterations has not failed. -/
theorem exhaust : (RenderM.exhaust : RenderM α).Obeys discipline property := by
  refine fun _ hcontext => ⟨hcontext, ?_, ?_⟩
  · rintro _ ⟨⟩
  · rintro _ ⟨⟩

/-- What is allowed as a result is allowed in a rendering. -/
theorem ofExcept {value : Except Failure α} (h : discipline.Yields property value) :
    (RenderM.ofExcept value).Obeys discipline property := by
  cases value with
  | ok value => exact pure h
  | error cause => exact fail h

/-- A change that keeps the discipline of a context obeys. -/
theorem update {f : Context → Context}
    (h : ∀ context, context.Obeys discipline → (f context).Obeys discipline) :
    (RenderM.update f).Obeys discipline anything := by
  refine fun context hcontext => ⟨h context hcontext, fun _ _ => trivial, ?_⟩
  rintro _ ⟨⟩

/-- Writing obeys. -/
theorem write (text : Bytes) : (RenderM.write text).Obeys discipline anything := by
  refine fun _ hcontext => ⟨hcontext, fun _ _ => trivial, ?_⟩
  rintro _ ⟨⟩

/-- Assigning an allowed value through an inspector that obeys does so as well. -/
theorem assign (name : Bytes) {value : Json} {inspector : Inspector}
    (hvalue : discipline.value value) (hinspector : inspector.Obeys discipline) :
    (RenderM.assign name value inspector).Obeys discipline anything :=
  update fun _ hcontext => Variable.AllObey.insert hcontext ⟨hvalue, hinspector⟩

/-- Two steps in a row obey when each does, the second one given what the first gives. -/
theorem bind {step : RenderM α} {next : α → RenderM β} (hstep : step.Obeys discipline property)
    (hnext : ∀ value, property value → (next value).Obeys discipline further) :
    (step >>= next).Obeys discipline further := by
  intro context hcontext
  have hfirst := hstep context hcontext
  cases hresult : (step context).result with
  | error stop =>
    rw [bind_of_error hresult]
    refine ⟨hfirst.context, ?_, ?_⟩
    · rintro _ ⟨⟩
    · rintro cause ⟨⟩
      exact hfirst.error cause hresult
  | ok value =>
    rw [bind_of_ok hresult]
    have hsecond := hnext value (hfirst.ok value hresult) _ hfirst.context
    exact ⟨hsecond.context, hsecond.ok, hsecond.error⟩

/-- A step that looks at the context first. -/
theorem read {next : Context → RenderM α}
    (hnext : ∀ context, context.Obeys discipline → (next context).Obeys discipline property) :
    (RenderM.context >>= next).Obeys discipline property :=
  fun context hcontext => hnext context hcontext context hcontext

/-- A step with a slot of its own obeys when the step does. -/
theorem withSlot {separator : Bytes} {step : Nat → RenderM α}
    (hstep : ∀ slot, (step slot).Obeys discipline property) :
    (RenderM.withSlot separator step).Obeys discipline property := by
  intro context hcontext
  have houtcome := hstep context.arena.depth (context.enterLoop separator) hcontext
  rw [withSlot_apply]
  exact ⟨houtcome.context, houtcome.ok, houtcome.error⟩

/-- Beginning an iteration obeys. -/
theorem beginIteration (slot : Nat) :
    (RenderM.beginIteration slot).Obeys discipline anything := by
  apply read
  intro context _
  refine bind (update fun _ hcontext => hcontext) ?_
  intro _ _
  split
  · exact write _
  · exact done _

/-- An iteration obeys when its body does. -/
theorem iterate (slot : Nat) {body : RenderM Flow} (hbody : body.Obeys discipline anything) :
    (RenderM.iterate slot body).Obeys discipline anything := by
  apply bind (beginIteration slot)
  intro _ _
  apply bind hbody
  intro flow _
  cases flow <;> exact done _

/-- A visit of elements obeys when the visit of each does. -/
theorem visitElements {γ : Type} {visit : γ → RenderM Flow} {elements : List γ}
    (hvisit : ∀ element ∈ elements, (visit element).Obeys discipline anything) :
    (Stencil.visitElements visit elements).Obeys discipline anything := by
  induction elements with
  | nil => exact done _
  | cons element rest ih =>
    rw [List.forall_mem_cons] at hvisit
    apply bind hvisit.1
    intro flow _
    split
    · exact done _
    · exact ih hvisit.2

end RenderM.Obeys

/-! ## Statements and loops -/

section Statements

variable {discipline : Discipline} {registry : Registry}

/-- Modifiers take an allowed value to an allowed one. -/
theorem ModifierCall.obeys_applyAll (hregistry : registry.Obeys discipline)
    {calls : List ModifierCall}
    (hargs : ∀ operand ∈ calls.flatMap ModifierCall.args, operand.Obeys discipline) {value : Json}
    (hvalue : discipline.value value) :
    (applyAll registry calls value).Obeys discipline discipline.value := by
  induction calls generalizing value with
  | nil => exact .pure hvalue
  | cons call rest ih =>
    rw [List.flatMap_cons, List.forall_mem_append] at hargs
    rw [applyAll]
    cases hmodifier : registry.modifiers.find? call.name with
    | none => exact .fail (discipline.coded (by simp [Failure.code?]) (by simp [Failure.code?]))
    | some modifier =>
      apply RenderM.Obeys.read
      intro context hcontext
      have hmodifier : modifier.Obeys discipline :=
        hregistry.modifiers _ (Table.mem_of_find? hmodifier)
      refine .bind (.ofExcept (hmodifier hregistry.inspectors hcontext hvalue
        (Context.values_resolve hcontext hargs.1))) ?_
      rintro ⟨changed, bindings⟩ ⟨hchanged, hbindings⟩
      refine .bind (.update fun _ _ => hbindings) ?_
      intro _ _
      exact ih hargs.2 hchanged

/-- A print statement obeys when its operands do. -/
theorem Print.obeys_render (hregistry : registry.Obeys discipline) {statement : Print}
    (hvalue : statement.value.Obeys discipline)
    (hargs : ∀ operand ∈ statement.modifiers.flatMap ModifierCall.args,
      operand.Obeys discipline) :
    (statement.render registry).Obeys discipline anything := by
  apply RenderM.Obeys.read
  intro context hcontext
  have hgiven := Context.value_resolve hcontext hvalue
  apply RenderM.Obeys.bind (ModifierCall.obeys_applyAll hregistry hargs hgiven)
  intro value hvalue
  split
  · exact .fail (discipline.coded (by simp [Failure.code?]) (by simp [Failure.code?]))
  · apply RenderM.Obeys.bind (.write _)
    intro _ _
    apply RenderM.Obeys.bind (.ofExcept (.toText hvalue))
    intro text _
    exact .bind (.write _) fun _ _ => .done _

/-- A binding obeys when its source does. -/
theorem Binding.obeys_render (hregistry : registry.Obeys discipline) {statement : Binding}
    (h : statement.source.Obeys discipline) :
    (statement.render registry).Obeys discipline anything := by
  apply RenderM.Obeys.read
  intro context hcontext
  apply RenderM.Obeys.bind (.ofExcept (Binding.yields_evaluate hregistry hcontext h))
  intro found hfound
  exact .bind (.assign _ hfound.value hfound.inspector) fun _ _ => .done _

/-- A counter statement obeys. -/
theorem Counter.obeys_render (hregistry : registry.Obeys discipline) (statement : Counter) :
    (statement.render registry).Obeys discipline anything := by
  apply RenderM.Obeys.read
  intro context _
  apply RenderM.Obeys.bind (.ofExcept (Counter.yields_evaluate context statement))
  intro after _
  have hgeneral := Inspector.obeys_general hregistry.inspectors
  exact .bind (.assign _ (discipline.int _) hgeneral) fun _ _ => .done _

/-- The visit of an allowed element obeys when the body does. -/
theorem RangeHead.obeys_visit (head : RangeHead) {inspector : Inspector}
    (hinspector : inspector.Obeys discipline) (slot : Nat) {body : RenderM Flow}
    (hbody : body.Obeys discipline anything) {element : Json × Json}
    (helement : discipline.value element.1 ∧ discipline.value element.2) :
    (head.visit inspector slot body element).Obeys discipline anything := by
  have hrest := RenderM.Obeys.bind (.assign head.value helement.2 hinspector)
    fun _ _ => RenderM.Obeys.iterate slot hbody
  unfold visit
  cases head.key.isEmpty with
  | true => exact hrest
  | false => exact .bind (.assign _ helement.1 hinspector) fun _ _ => hrest

/-- A loop over elements obeys when its body does. -/
theorem RangeHead.obeys_render (head : RangeHead) {body : RenderM Flow}
    (hbody : body.Obeys discipline anything) :
    (head.render body).Obeys discipline anything := by
  apply RenderM.Obeys.read
  intro context hcontext
  split
  · rename_i root source hsource
    obtain ⟨hroot, hvalue⟩ := Variable.obeys_of_lookUp hcontext hsource
    have hvisits : ∀ slot, RenderM.Obeys discipline anything
        (RenderM.ofExcept (root.inspector.elements source) >>=
          visitElements (head.visit root.inspector slot body)) := by
      intro slot
      apply RenderM.Obeys.bind (.ofExcept (hroot.inspector.elements (hvalue source rfl)))
      intro elements helements
      exact .visitElements fun element hmem =>
        head.obeys_visit hroot.inspector slot hbody (helements element hmem)
    exact .bind (.withSlot hvisits) fun flow _ => .done _
  · exact .done _

/-- The iterations of a counting loop obey when its body and its limit do. -/
theorem CountHead.obeys_run {head : CountHead} (hlimit : head.limit.Obeys discipline)
    {inspector : Inspector} (hinspector : inspector.Obeys discipline) (slot : Nat)
    {body : RenderM Flow} (hbody : body.Obeys discipline anything) (iterations : Nat)
    (counter : Int64) :
    (head.run inspector slot body iterations counter).Obeys discipline anything := by
  induction iterations generalizing counter with
  | zero =>
    rw [run]
    apply RenderM.Obeys.read
    intro context hcontext
    have hvalue := Context.value_resolve hcontext hlimit
    apply RenderM.Obeys.bind (.ofExcept (head.yields_integer .limit hvalue))
    intro limit _
    split
    · exact .exhaust
    · exact .done _
  | succ left ih =>
    rw [run]
    apply RenderM.Obeys.read
    intro context hcontext
    have hvalue := Context.value_resolve hcontext hlimit
    apply RenderM.Obeys.bind (.ofExcept (head.yields_integer .limit hvalue))
    intro limit _
    split
    · apply RenderM.Obeys.bind (.iterate slot hbody)
      intro flow _
      have hnext := RenderM.Obeys.read fun context hcontext =>
        RenderM.Obeys.bind (.ofExcept (head.yields_next hcontext counter)) fun after _ =>
          .bind (.assign head.counter (discipline.int after.toInt) hinspector) fun _ _ => ih after
      cases flow with
      | breakLoop => exact .done _
      | interrupt => exact .done _
      | done => exact hnext
      | continueLoop => exact hnext
    · exact .done _

/-- A counting loop obeys when its body and its two operands do. -/
theorem CountHead.obeys_render (hregistry : registry.Obeys discipline) {head : CountHead}
    (hinit : head.init.Obeys discipline) (hlimit : head.limit.Obeys discipline) (iterations : Nat)
    {body : RenderM Flow} (hbody : body.Obeys discipline anything) :
    (head.render registry iterations body).Obeys discipline anything := by
  have hgeneral := Inspector.obeys_general hregistry.inspectors
  apply RenderM.Obeys.read
  intro context hcontext
  have hvalue := Context.value_resolve hcontext hinit
  apply RenderM.Obeys.bind (.ofExcept (head.yields_integer .init hvalue))
  intro counter _
  apply RenderM.Obeys.bind (.assign _ (discipline.int _) hgeneral)
  intro _ _
  apply RenderM.Obeys.withSlot
  intro slot
  exact obeys_run hlimit hgeneral slot hbody iterations counter

end Statements

/-! ## Nodes -/

/-- Content whose literals are allowed. -/
def Token.Obeys (discipline : Discipline) (token : Token) : Prop :=
  ∀ operand ∈ token.operands, operand.Obeys discipline

/-- A discipline that allows every value allows every content. -/
theorem Token.obeys_of_forall {discipline : Discipline} (h : ∀ value, discipline.value value)
    (token : Token) : token.Obeys discipline :=
  fun operand _ _ => h operand.literal

namespace Node

variable {discipline : Discipline} {registry : Registry} (iterations : Nat)

mutual

/-- A formed node whose literals are allowed obeys. -/
theorem obeys_render (hregistry : registry.Obeys discipline) :
    (node : Node) → node.isFormed = true → (∀ token ∈ node.walk, token.Obeys discipline) →
      (node.render registry iterations).Obeys discipline anything
  | raw text, _, _ => by
    rw [render]
    exact .bind (.write text) fun _ _ => .done _
  | print statement, _, hwalk => by
    rw [walk, List.forall_mem_singleton] at hwalk
    obtain ⟨hvalue, hargs⟩ := List.forall_mem_cons.mp hwalk
    rw [render]
    exact Print.obeys_render hregistry hvalue hargs
  | bind statement, _, hwalk => by
    rw [walk, List.forall_mem_singleton] at hwalk
    rw [render]
    exact Binding.obeys_render hregistry (List.forall_mem_singleton.mp hwalk)
  | counter statement, _, _ => by
    rw [render]
    exact statement.obeys_render hregistry
  | cond condition children, hformed, hwalk => by
    rw [isFormed, Bool.and_eq_true] at hformed
    rw [walk, List.forall_mem_cons, List.forall_mem_append] at hwalk
    rw [render]
    apply RenderM.Obeys.read
    intro context hcontext
    apply RenderM.Obeys.bind (.ofExcept (Condition.yields_evaluate hregistry hcontext hwalk.1))
    intro holds _
    exact obeys_renderNth hregistry _ children hformed.2 hwalk.2.1
  | onTrue children, hformed, hwalk => by
    rw [isFormed, Bool.and_eq_true] at hformed
    rw [walk] at hwalk
    rw [render]
    exact obeys_renderAll hregistry children hformed.2 hwalk
  | onFalse children, hformed, hwalk | case _ children, hformed, hwalk
  | default children, hformed, hwalk => by
    rw [isFormed, Bool.and_eq_true] at hformed
    rw [walk, List.forall_mem_cons] at hwalk
    rw [render]
    exact obeys_renderAll hregistry children hformed.2 hwalk.2
  | forRange head children, hformed, hwalk => by
    rw [isFormed, Bool.and_eq_true] at hformed
    rw [walk, List.forall_mem_cons, List.forall_mem_append] at hwalk
    rw [render]
    exact head.obeys_render (obeys_renderAll hregistry children hformed.2 hwalk.2.1)
  | forCount head children, hformed, hwalk => by
    rw [isFormed, Bool.and_eq_true] at hformed
    rw [walk, List.forall_mem_cons, List.forall_mem_append] at hwalk
    obtain ⟨hinit, hlimit⟩ := List.forall_mem_cons.mp hwalk.1
    rw [render]
    exact CountHead.obeys_render hregistry hinit (List.forall_mem_singleton.mp hlimit) iterations
      (obeys_renderAll hregistry children hformed.2 hwalk.2.1)
  | switch subject children, hformed, hwalk => by
    rw [isFormed, Bool.and_eq_true] at hformed
    rw [walk, List.forall_mem_cons, List.forall_mem_append] at hwalk
    rw [render]
    exact .bind (obeys_renderBranch hregistry subject children hformed.2 hwalk.2.1)
      fun _ _ => .done _
  | breakLoop, _, _ | continueLoop, _, _ | exit, _, _ => by
    rw [render]
    exact .done _
  | divider, hformed, _ => by cases hformed

/-- Formed nodes whose literals are allowed obey, one after another. -/
theorem obeys_renderAll (hregistry : registry.Obeys discipline) :
    (nodes : List Node) → formedAll nodes = true →
      (∀ token ∈ walkAll nodes, token.Obeys discipline) →
        (renderAll registry iterations nodes).Obeys discipline anything
  | [], _, _ => by
    rw [renderAll]
    exact .done _
  | node :: rest, hformed, hwalk => by
    rw [formedAll, Bool.and_eq_true] at hformed
    rw [walkAll, List.forall_mem_append] at hwalk
    rw [renderAll]
    apply RenderM.Obeys.bind (obeys_render hregistry node hformed.1 hwalk.1)
    intro flow _
    cases flow with
    | done => exact obeys_renderAll hregistry rest hformed.2 hwalk.2
    | breakLoop | continueLoop | interrupt => exact .done _

/-- A node by its index obeys when all nodes do. -/
theorem obeys_renderNth (hregistry : registry.Obeys discipline) :
    (index : Nat) → (nodes : List Node) → formedAll nodes = true →
      (∀ token ∈ walkAll nodes, token.Obeys discipline) →
        (renderNth registry iterations index nodes).Obeys discipline anything
  | _, [], _, _ => by
    rw [renderNth]
    exact .done _
  | 0, node :: rest, hformed, hwalk => by
    rw [formedAll, Bool.and_eq_true] at hformed
    rw [walkAll, List.forall_mem_append] at hwalk
    rw [renderNth]
    exact obeys_render hregistry node hformed.1 hwalk.1
  | index + 1, node :: rest, hformed, hwalk => by
    rw [formedAll, Bool.and_eq_true] at hformed
    rw [walkAll, List.forall_mem_append] at hwalk
    rw [renderNth]
    exact obeys_renderNth hregistry index rest hformed.2 hwalk.2

/-- The cases of a switch obey when all nodes do. -/
theorem obeys_renderBranch (hregistry : registry.Obeys discipline) (subject : Operand) :
    (nodes : List Node) → formedAll nodes = true →
      (∀ token ∈ walkAll nodes, token.Obeys discipline) →
        (renderBranch registry iterations subject nodes).Obeys discipline anything
  | [], _, _ => by
    rw [renderBranch]
    exact .done _
  | node :: rest, hformed, hwalk => by
    rw [formedAll, Bool.and_eq_true] at hformed
    rw [walkAll, List.forall_mem_append] at hwalk
    obtain ⟨hnode, hlater⟩ := hwalk
    have hrest := obeys_renderBranch hregistry subject rest hformed.2 hlater
    cases node with
    | case test children =>
      have hchildren := hformed.1
      rw [isFormed, Bool.and_eq_true] at hchildren
      rw [walk, List.forall_mem_cons] at hnode
      rw [renderBranch]
      apply RenderM.Obeys.read
      intro context hcontext
      apply RenderM.Obeys.bind (.ofExcept (Comparison.yields_evaluate hcontext _))
      intro holds _
      split
      · exact .bind (obeys_renderAll hregistry children hchildren.2 hnode.2) fun _ _ => .done _
      · exact hrest
    | default children =>
      have hchildren := hformed.1
      rw [isFormed, Bool.and_eq_true] at hchildren
      rw [walk, List.forall_mem_cons] at hnode
      rw [renderBranch]
      apply RenderM.Obeys.bind hrest
      intro chosen _
      cases chosen with
      | some flow => exact .done _
      | none =>
        exact .bind (obeys_renderAll hregistry children hchildren.2 hnode.2) fun _ _ => .done _
    | _ =>
      rw [renderBranch]
      · exact hrest
      all_goals simp

end

end Node

end Stencil
