import Stencil.Render.Tree

/-!
# The parts of a rendering

What each part of a rendering comes to when the parts that it is made of end with given flows: an
iteration and a visit, the nodes of a body, a switch, and the two loops. None of these facts depends
on what a body does.
-/

set_option autoImplicit false

namespace Stencil

/-- The context inside a loop, with a slot of its own. -/
def Context.enterLoop (context : Context) (separator : Bytes) : Context :=
  { context with
    arena := context.arena.acquire.setSlot context.arena.depth { separator } }

/-- The value that a name without a dot finds is that of the variable of the name. -/
theorem Variable.lookUp_of_notMem (bindings : Table Variable) {name : Bytes}
    (hname : Byte.dot ∉ name) :
    lookUp bindings name = (bindings.find? name, (bindings.find? name).map value) := by
  have hsplit : name.splitOn Byte.dot = [name] :=
    List.splitOnP_eq_singleton fun b hb => beq_false_of_ne fun heq => hname (heq ▸ hb)
  rw [lookUp, hsplit]
  cases hfound : bindings.find? name <;> simp [hfound]

/-- The part of a visit before the body: the variables of the element are bound, and the iteration
begins. -/
def RangeHead.begin (head : RangeHead) (inspector : Inspector) (slot : Nat)
    (element : Json × Json) : RenderM Unit := do
  if !head.key.isEmpty then RenderM.assign head.key element.1 inspector
  RenderM.assign head.value element.2 inspector
  RenderM.beginIteration slot

/-- The branch that a switch chooses: the first case that holds, or else the last default. -/
def Node.chosen? [JsonLibrary] (subject : Operand) (context : Context) :
    List Node → Except Failure (Option (List Node))
  | [] => .ok none
  | case test children :: rest => do
    if ← (test.ofCase subject).evaluate context then return some children
    else chosen? subject context rest
  | default children :: rest => do
    return some ((← chosen? subject context rest).getD children)
  | _ :: rest => chosen? subject context rest

/-- The case that a switch chooses is one of its cases, or a default. -/
theorem Node.mem_of_chosen? [JsonLibrary] {subject : Operand} {context : Context}
    {nodes chosen : List Node} (h : chosen? subject context nodes = .ok (some chosen)) :
    (∃ test, case test chosen ∈ nodes) ∨ default chosen ∈ nodes := by
  induction nodes generalizing chosen with
  | nil => simp [chosen?] at h
  | cons node rest ih =>
    have hrest : ∀ {more}, chosen? subject context rest = .ok (some more) →
        (∃ test, case test more ∈ node :: rest) ∨ default more ∈ node :: rest := by
      intro more hmore
      obtain ⟨test, hmem⟩ | hmem := ih hmore
      · exact .inl ⟨test, .tail _ hmem⟩
      · exact .inr (.tail _ hmem)
    cases node with
    | case test children =>
      rw [chosen?] at h
      cases hholds : (test.ofCase subject).evaluate context with
      | error failure =>
        rw [hholds] at h
        cases h
      | ok holds =>
        rw [hholds] at h
        cases holds with
        | true =>
          cases h
          exact .inl ⟨test, .head _⟩
        | false => exact hrest h
    | default children =>
      rw [chosen?] at h
      cases hmore : chosen? subject context rest with
      | error failure =>
        rw [hmore] at h
        cases h
      | ok more =>
        rw [hmore] at h
        cases more with
        | none =>
          cases h
          exact .inr (.head _)
        | some other =>
          cases h
          exact hrest hmore
    | _ => exact hrest h

/-- The flow of an iteration: a continue ends it like its end. -/
def Flow.ofIteration : Flow → Flow
  | continueLoop => done
  | flow => flow

/-- An iteration always begins. -/
theorem RenderM.result_beginIteration (index : Nat) (context : Context) :
    (beginIteration index context).result = .ok () := by
  rw [beginIteration, context_bind, update_bind]
  split <;> rfl

/-- An iteration is its beginning and the body. -/
theorem RenderM.iterate_apply (index : Nat) (body : RenderM Flow) (context : Context) :
    iterate index body context =
      ((body (beginIteration index context).context).map Flow.ofIteration).after
        (beginIteration index context).written := by
  have hiterate : iterate index body =
      beginIteration index >>= fun _ => body >>= fun flow => pure flow.ofIteration := by
    unfold iterate
    congr
    funext _
    congr
    funext flow
    cases flow <;> rfl
  rw [hiterate, bind_of_ok (result_beginIteration index context), bind_pure_apply]

/-- Beginning the visit of an element assigns the key, if it is asked for, and the value. -/
theorem RangeHead.begin_apply (head : RangeHead) (inspector : Inspector) (slot : Nat)
    (element : Json × Json) (context : Context) :
    head.begin inspector slot element context =
      RenderM.beginIteration slot
        ((if head.key.isEmpty then context
          else context.assign head.key element.1 inspector).assign
            head.value element.2 inspector) := by
  unfold RangeHead.begin
  cases head.key.isEmpty <;> rfl

/-- A visit is its beginning with the body behind it. -/
theorem RangeHead.visit_apply (head : RangeHead) (inspector : Inspector) (slot : Nat)
    (body : RenderM Flow) (element : Json × Json) (context : Context) :
    head.visit inspector slot body element context =
      ((body (head.begin inspector slot element context).context).map Flow.ofIteration).after
        (head.begin inspector slot element context).written := by
  rw [RangeHead.begin_apply, ← RenderM.iterate_apply]
  unfold RangeHead.visit
  cases head.key.isEmpty <;> rfl

namespace Node

variable [JsonLibrary] {registry : Registry} {iterations : Nat} {context : Context}

/-- Behind a node that ends normally the others are rendered. -/
theorem renderAll_of_done {node : Node} {rest : List Node}
    (h : (node.render registry iterations context).result = .ok .done) :
    renderAll registry iterations (node :: rest) context =
      (renderAll registry iterations rest (node.render registry iterations context).context).after
        (node.render registry iterations context).written := by
  rw [renderAll, RenderM.bind_of_ok h]

/-- A node that ends in another way ends the nodes. -/
theorem renderAll_of_flow {node : Node} {rest : List Node} {flow : Flow}
    (h : (node.render registry iterations context).result = .ok flow) (hflow : flow ≠ .done) :
    renderAll registry iterations (node :: rest) context =
      node.render registry iterations context := by
  rw [renderAll, RenderM.bind_of_ok h]
  cases flow with
  | done => exact absurd rfl hflow
  | breakLoop => simp [Rendered.after, ← h]
  | continueLoop => simp [Rendered.after, ← h]
  | interrupt => simp [Rendered.after, ← h]

/-- The node at an index is rendered. -/
theorem renderNth_of_getElem? {nodes : List Node} {index : Nat} {child : Node}
    (h : nodes[index]? = some child) :
    renderNth registry iterations index nodes = child.render registry iterations := by
  induction nodes generalizing index with
  | nil => simp at h
  | cons node rest ih =>
    cases index with
    | zero =>
      obtain rfl : node = child := by simpa using h
      rw [renderNth]
    | succ index => exact ih (by simpa using h)

/-- Beyond the last node nothing is rendered. -/
theorem renderNth_of_none {nodes : List Node} {index : Nat} (h : nodes[index]? = none) :
    renderNth registry iterations index nodes = pure .done := by
  induction nodes generalizing index with
  | nil => rw [renderNth]
  | cons node rest ih =>
    cases index with
    | zero => simp at h
    | succ index => exact ih (by simpa using h)

/-- The branches of a switch are tried in order, and only the chosen one is rendered. -/
theorem renderBranch_eq (subject : Operand) (nodes : List Node) :
    renderBranch registry iterations subject nodes context =
      (RenderM.ofExcept (chosen? subject context nodes) >>= fun chosen =>
        match chosen with
        | none => pure none
        | some children =>
          renderAll registry iterations children >>= fun flow => pure (some flow)) context := by
  induction nodes with
  | nil => rfl
  | cons node rest ih =>
    cases node with
    | case test children =>
      rw [renderBranch, chosen?, RenderM.context_bind]
      cases hholds : (test.ofCase subject).evaluate context with
      | error failure => rfl
      | ok holds =>
        cases holds with
        | true => rfl
        | false => exact ih
    | default children =>
      rw [renderBranch, chosen?]
      show RenderM.bind _ _ context = _
      rw [RenderM.bind, ih]
      cases hmore : chosen? subject context rest with
      | error failure => rfl
      | ok more =>
        cases more with
        | none => rfl
        | some other =>
          -- The branch behind the default one is rendered as it is.
          show _ = (renderAll registry iterations other >>= fun flow => pure (some flow)) context
          simp only [RenderM.ofExcept_ok_bind, RenderM.bind_pure_apply]
          cases hresult : (renderAll registry iterations other context).result with
          | error stop => simp [Rendered.map, hresult, Except.map]
          | ok flow => simp [Rendered.map, hresult, Except.map]
    | _ => exact ih

/-- A switch is rendered as the branch that it chooses. -/
theorem render_switch (subject : Operand) (children : List Node) :
    (switch subject children).render registry iterations context =
      match chosen? subject context children with
      | .error failure => RenderM.fail failure context
      | .ok none => { written := [], context, result := .ok .done }
      | .ok (some chosen) => renderAll registry iterations chosen context := by
  rw [render, RenderM.bind_pure_apply, renderBranch_eq]
  cases chosen? subject context children with
  | error failure => rfl
  | ok chosen =>
    cases chosen with
    | none => rfl
    | some chosen =>
      simp only [RenderM.ofExcept_ok_bind, RenderM.bind_pure_apply]
      obtain ⟨written, after, result⟩ := renderAll registry iterations chosen context
      cases result <;> rfl

end Node

/-- What is left of a loop when its slot has been given back. -/
def Rendered.leaveLoop {α : Type} (outcome : Rendered α) : Rendered α :=
  { outcome with context := { outcome.context with arena := outcome.context.arena.release } }

/-- A step with a slot of its own is run inside the loop, which is left behind it. -/
theorem RenderM.withSlot_apply {α : Type} (separator : Bytes) (step : Nat → RenderM α)
    (context : Context) :
    withSlot separator step context =
      (step context.arena.depth (context.enterLoop separator)).leaveLoop := rfl

/-- The flow of a loop over elements: a break ends it like its end. -/
def Flow.ofLoop (flow : Flow) : Flow := if flow = .interrupt then .interrupt else .done

/-- A loop over elements visits them in a slot of its own. -/
theorem RangeHead.render_of_elements {head : RangeHead} {body : RenderM Flow} {context : Context}
    {root : Variable} {source : Json} {elements : List (Json × Json)}
    (hsource : Variable.lookUp context.bindings head.source = (some root, some source))
    (helements : root.inspector.elements source = .ok elements) :
    head.render body context =
      ((visitElements (head.visit root.inspector context.arena.depth body) elements
        (context.enterLoop head.separator)).leaveLoop).map Flow.ofLoop := by
  rw [RangeHead.render, RenderM.context_bind]
  simp only [hsource]
  have hflow : (fun flow : Flow => (return if flow = .interrupt then .interrupt else .done :
      RenderM Flow)) = fun flow => pure flow.ofLoop := by
    funext flow
    rfl
  rw [RenderM.bind_pure_apply, RenderM.withSlot_apply, helements]
  rfl

/-- A loop over elements ends normally when there is nothing to visit, and fails when its source
cannot be visited. -/
theorem RangeHead.exists_elements_of_render {head : RangeHead} {body : RenderM Flow}
    {context : Context} {flow : Flow} (h : (head.render body context).result = .ok flow) :
    flow = .done ∨ ∃ root source elements,
      Variable.lookUp context.bindings head.source = (some root, some source) ∧
        root.inspector.elements source = .ok elements := by
  rw [RangeHead.render, RenderM.context_bind] at h
  cases hsource : Variable.lookUp context.bindings head.source with
  | mk root source =>
    cases root with
    | none =>
      simp only [hsource] at h
      exact .inl (Except.ok.inj h).symm
    | some root =>
      cases source with
      | none =>
        simp only [hsource] at h
        exact .inl (Except.ok.inj h).symm
      | some source =>
        simp only [hsource] at h
        cases helements : root.inspector.elements source with
        | ok elements => exact .inr ⟨root, source, elements, rfl, helements⟩
        | error failure =>
          obtain ⟨visited, hvisited, -⟩ := RenderM.result_bind_eq_ok_iff.mp h
          rw [RenderM.withSlot_apply, helements] at hvisited
          cases hvisited

/-- The first visit of a loop, and the others unless it stops the loop. -/
theorem visitElements_cons {α : Type} {visit : α → RenderM Flow} {element : α} {rest : List α}
    {context : Context} {flow : Flow} (h : (visit element context).result = .ok flow) :
    visitElements visit (element :: rest) context =
      if flow.stopsLoop then visit element context
      else (visitElements visit rest (visit element context).context).after
        (visit element context).written := by
  rw [visitElements, RenderM.bind_of_ok h]
  split
  · simp [Rendered.after, ← h]
  · rfl

/-- A continue ends within its iteration. -/
theorem RenderM.iterate_ne_continue {index : Nat} {body : RenderM Flow} {context : Context} :
    (iterate index body context).result ≠ .ok .continueLoop := by
  rw [iterate_apply]
  cases hresult : (body (beginIteration index context).context).result with
  | error stop => simp [hresult, Except.map]
  | ok flow => cases flow <;> simp [hresult, Except.map, Flow.ofIteration]

namespace CountHead

variable [JsonLibrary] {head : CountHead} {inspector : Inspector} {slot : Nat} {body : RenderM Flow}
  {left : Nat} {counter limit after : Int64} {context : Context} {flow : Flow}

/-- A counting loop ends with an interruption, and passes it on. -/
theorem run_of_interrupt (hlimit : head.integer .limit (context.resolve head.limit) = .ok limit)
    (hcontinues : head.continues counter limit = true)
    (hflow : (RenderM.iterate slot body context).result = .ok .interrupt) :
    head.run inspector slot body (left + 1) counter context =
      RenderM.iterate slot body context := by
  rw [run, RenderM.context_bind, hlimit, RenderM.ofExcept_ok_bind, if_pos hcontinues,
    RenderM.bind_of_ok hflow]
  simp [Rendered.after, ← hflow]

/-- Behind an iteration that ends normally a counting loop goes on with the next counter. -/
theorem run_of_done (hlimit : head.integer .limit (context.resolve head.limit) = .ok limit)
    (hcontinues : head.continues counter limit = true)
    (hflow : (RenderM.iterate slot body context).result = .ok .done)
    (hnext : head.next (RenderM.iterate slot body context).context counter = .ok after) :
    head.run inspector slot body (left + 1) counter context =
      (head.run inspector slot body left after
        ((RenderM.iterate slot body context).context.assign head.counter (Json.ofWord after)
          inspector)).after (RenderM.iterate slot body context).written := by
  rw [run, RenderM.context_bind, hlimit, RenderM.ofExcept_ok_bind, if_pos hcontinues,
    RenderM.bind_of_ok hflow]
  simp only
  rw [RenderM.context_bind, hnext, RenderM.ofExcept_ok_bind, RenderM.assign_bind]

/-- A counting loop ends normally, or in an iteration that is interrupted: the first one that is
left, or a later one. -/
theorem eq_done_of_run {iterations : Nat}
    (h : (head.run inspector slot body iterations counter context).result = .ok flow) :
    flow = .done ∨ ∃ left limit, iterations = left + 1 ∧
      head.integer .limit (context.resolve head.limit) = .ok limit ∧
      head.continues counter limit = true ∧ flow = .interrupt ∧
      ((RenderM.iterate slot body context).result = .ok .interrupt ∨
        (RenderM.iterate slot body context).result = .ok .done ∧
        ∃ after, head.next (RenderM.iterate slot body context).context counter = .ok after ∧
          (head.run inspector slot body left after
            ((RenderM.iterate slot body context).context.assign head.counter (Json.ofWord after)
              inspector)).result = .ok .interrupt) := by
  induction iterations generalizing context counter with
  | zero =>
    rw [run, RenderM.context_bind] at h
    cases hlimit : head.integer .limit (context.resolve head.limit) with
    | error failure => simp [hlimit] at h
    | ok limit =>
      rw [hlimit, RenderM.ofExcept_ok_bind] at h
      split at h
      · cases h
      · exact .inl (Except.ok.inj h).symm
  | succ left ih =>
    rw [run, RenderM.context_bind] at h
    cases hlimit : head.integer .limit (context.resolve head.limit) with
    | error failure => simp [hlimit] at h
    | ok limit =>
      rw [hlimit, RenderM.ofExcept_ok_bind] at h
      split at h
      · rename_i hcontinues
        obtain ⟨first, hfirst, hrest⟩ := RenderM.result_bind_eq_ok_iff.mp h
        cases first with
        | breakLoop => exact .inl (Except.ok.inj hrest).symm
        | interrupt =>
          exact .inr ⟨left, limit, rfl, rfl, hcontinues, (Except.ok.inj hrest).symm, .inl hfirst⟩
        | continueLoop => exact absurd hfirst RenderM.iterate_ne_continue
        | done =>
          simp only at hrest
          rw [RenderM.context_bind] at hrest
          cases hnext : head.next (RenderM.iterate slot body context).context counter with
          | error failure => simp [hnext] at hrest
          | ok after =>
            rw [hnext, RenderM.ofExcept_ok_bind, RenderM.assign_bind] at hrest
            obtain hdone | ⟨_, _, -, -, -, hinterrupt, -⟩ := ih hrest
            · exact .inl hdone
            · exact .inr ⟨left, limit, rfl, rfl, hcontinues, hinterrupt,
                .inr ⟨hfirst, after, rfl, hinterrupt ▸ hrest⟩⟩
      · exact .inl (Except.ok.inj h).symm

/-- A counting loop whose beginning is an integer assigns it, enters and runs. -/
theorem render_of_init {registry : Registry} {iterations : Nat}
    (hinit : head.integer .init (context.resolve head.init) = .ok counter) :
    head.render registry iterations body context =
      (head.run (Inspector.general registry.inspectors) context.arena.depth body iterations counter
        ((context.assign head.counter (Json.ofWord counter)
          (Inspector.general registry.inspectors)).enterLoop head.separator)).leaveLoop := by
  rw [render, RenderM.context_bind, hinit, RenderM.ofExcept_ok_bind, RenderM.assign_bind,
    RenderM.withSlot_apply]
  rfl

/-- A counting loop that does not fail began with an integer. -/
theorem exists_init_of_render {registry : Registry} {iterations : Nat}
    (h : (head.render registry iterations body context).result = .ok flow) :
    ∃ counter, head.integer .init (context.resolve head.init) = .ok counter := by
  rw [render, RenderM.context_bind] at h
  cases hinit : head.integer .init (context.resolve head.init) with
  | error failure => simp [hinit] at h
  | ok counter => exact ⟨counter, rfl⟩

end CountHead

/-! ## How parts end -/

/-- A print statement that does not fail ends normally. -/
theorem Print.eq_done_of_render [JsonLibrary] {registry : Registry} {statement : Print}
    {context : Context} {flow : Flow} (h : (statement.render registry context).result = .ok flow) :
    flow = .done := by
  rw [render, RenderM.context_bind] at h
  obtain ⟨value, -, h⟩ := RenderM.result_bind_eq_ok_iff.mp h
  split at h
  · cases h
  · obtain ⟨-, -, h⟩ := RenderM.result_bind_eq_ok_iff.mp h
    obtain ⟨text, -, h⟩ := RenderM.result_bind_eq_ok_iff.mp h
    obtain ⟨-, -, h⟩ := RenderM.result_bind_eq_ok_iff.mp h
    exact (Except.ok.inj h).symm

/-- A binding that does not fail ends normally. -/
theorem Binding.eq_done_of_render [JsonLibrary] {registry : Registry} {statement : Binding}
    {context : Context} {flow : Flow} (h : (statement.render registry context).result = .ok flow) :
    flow = .done := by
  rw [render, RenderM.context_bind] at h
  obtain ⟨found, -, h⟩ := RenderM.result_bind_eq_ok_iff.mp h
  rw [RenderM.assign_bind] at h
  exact (Except.ok.inj h).symm

/-- A counter statement that does not fail ends normally. -/
theorem Counter.eq_done_of_render [JsonLibrary] {registry : Registry} {statement : Counter}
    {context : Context} {flow : Flow} (h : (statement.render registry context).result = .ok flow) :
    flow = .done := by
  rw [render, RenderM.context_bind] at h
  obtain ⟨amount, -, h⟩ := RenderM.result_bind_eq_ok_iff.mp h
  rw [RenderM.assign_bind] at h
  exact (Except.ok.inj h).symm

/-- Only a body that ends with a flow of its own ends an iteration with it. -/
theorem Rendered.result_of_ofIteration {outcome : Rendered Flow} {flow : Flow}
    (h : (outcome.map Flow.ofIteration).result = .ok flow) (hflow : flow ≠ .done) :
    outcome.result = .ok flow := by
  rw [result_map] at h
  cases hresult : outcome.result with
  | error stop => simp [hresult, Except.map] at h
  | ok ended =>
    rw [hresult] at h
    cases ended <;> cases h <;> simp_all [Flow.ofIteration]

/-- A loop over elements ends with no flow but an interruption of its visits. -/
theorem Rendered.result_of_ofLoop {outcome : Rendered Flow} {flow : Flow}
    (h : (outcome.leaveLoop.map Flow.ofLoop).result = .ok flow) (hflow : flow ≠ .done) :
    outcome.result = .ok flow := by
  rw [result_map] at h
  cases hresult : outcome.result with
  | error stop => simp [leaveLoop, hresult, Except.map] at h
  | ok ended =>
    simp only [leaveLoop, hresult, Except.map, Flow.ofLoop] at h
    cases ended <;> cases h <;> simp_all

/-- A loop over elements ends normally or with an interruption. -/
theorem Rendered.eq_of_ofLoop {outcome : Rendered Flow} {flow : Flow}
    (h : (outcome.map Flow.ofLoop).result = .ok flow) : flow = .done ∨ flow = .interrupt := by
  rw [result_map] at h
  cases hresult : outcome.result with
  | error stop => simp [hresult, Except.map] at h
  | ok ended =>
    rw [hresult] at h
    cases ended <;> cases h <;> simp [Flow.ofLoop]

end Stencil
