import Stencil.Proofs.Render.Effect

/-!
# The course of a loop

What a loop does, as a function of variables: `RangeHead.course` and `CountHead.course` run the
iterations of a loop one after another on the variables that the one before has left. They know of
no arena and no separator. Rendering a loop has the effect of its course, with the separator between
what the iterations write, whatever the arena holds from loops around it or before it. A loop is
therefore steady when its body is, and so is every node.
-/

set_option autoImplicit false

namespace Stencil

/-! ## Courses -/

/-- Whether a loop goes on after an iteration. -/
def Effect.goesOn (iteration : Effect Flow) : Bool :=
  match iteration.result with
  | .ok flow => !flow.stopsLoop
  | .error _ => false

/-- The iterations that a loop begins, the variables that it leaves, and how it ends. -/
structure Course where
  iterations : List (Effect Flow)
  bindings : Table Variable
  result : Except Stop Flow

namespace Course

/-- A loop that begins no further iteration. -/
def ended (bindings : Table Variable) (result : Except Stop Flow) : Course :=
  { iterations := [], bindings, result }

/-- A loop whose last iteration is given. -/
def last (iteration : Effect Flow) (result : Except Stop Flow) : Course :=
  { iterations := [iteration], bindings := iteration.bindings, result }

/-- A loop with an iteration before those of another. -/
def cons (iteration : Effect Flow) (rest : Course) : Course :=
  { rest with iterations := iteration :: rest.iterations }

/-- What the iterations of a loop write. -/
def texts (course : Course) : List Bytes := course.iterations.map Effect.written

/-- What a loop does: it writes the texts of its iterations, the separator between them. -/
def effect (course : Course) (separator : Bytes) : Effect Flow where
  written := separator.intercalate course.texts
  bindings := course.bindings
  result := course.result

/-- What is left of a loop to do when some of its iterations have begun. -/
def effectAfter (course : Course) (begun : Nat) (separator : Bytes) : Effect Flow where
  written := if 0 < begun then course.texts.flatMap (separator ++ ·)
    else separator.intercalate course.texts
  bindings := course.bindings
  result := course.result

end Course

namespace RangeHead

/-- The variables with those of an element bound. -/
def bindElement (head : RangeHead) (inspector : Inspector) (element : Json × Json)
    (bindings : Table Variable) : Table Variable :=
  (if head.key.isEmpty then bindings
    else bindings.insert head.key { value := element.1, inspector }).insert
      head.value { value := element.2, inspector }

/-- The course of a loop over given elements. -/
def courseOver (head : RangeHead) (inspector : Inspector)
    (body : Table Variable → Effect Flow) :
    List (Json × Json) → Table Variable → Course
  | [], bindings => .ended bindings (.ok .done)
  | element :: rest, bindings =>
    let iteration := body (head.bindElement inspector element bindings)
    if iteration.goesOn then
      .cons iteration (courseOver head inspector body rest iteration.bindings)
    else .last iteration (iteration.result.map Flow.ofLoop)

/-- The course of a loop over the elements that its source has at the start. -/
def course (head : RangeHead) (body : Table Variable → Effect Flow) (bindings : Table Variable) :
    Course :=
  match Variable.lookUp bindings head.source with
  | (some root, some source) =>
    match root.inspector.elements source with
    | .ok elements => head.courseOver root.inspector body elements bindings
    | .error failure => .ended bindings (.error (.failed failure))
  | _ => .ended bindings (.ok .done)

end RangeHead

namespace CountHead

/-- The course of a counting loop that has a given counter and may begin so many iterations. -/
def courseFrom [JsonLibrary] (head : CountHead) (inspector : Inspector)
    (body : Table Variable → Effect Flow) :
    Nat → Int64 → Table Variable → Course
  | iterations, counter, bindings =>
    match head.integer .limit (Context.resolve { bindings } head.limit) with
    | .error failure => .ended bindings (.error (.failed failure))
    | .ok limit =>
      if head.continues counter limit then
        match iterations with
        | 0 => .ended bindings (.error .exhausted)
        | left + 1 =>
          let iteration := body bindings
          if iteration.goesOn then
            match head.next { bindings := iteration.bindings } counter with
            | .error failure => .last iteration (.error (.failed failure))
            | .ok after =>
              .cons iteration (courseFrom head inspector body left after
                (iteration.bindings.insert head.counter { value := Json.ofWord after, inspector }))
          else .last iteration (iteration.result.map Flow.ofLoop)
      else .ended bindings (.ok .done)

/-- The course of a counting loop that may begin so many iterations. -/
def course [JsonLibrary] (head : CountHead) (registry : Registry) (iterations : Nat)
    (body : Table Variable → Effect Flow) (bindings : Table Variable) : Course :=
  let inspector := Inspector.general registry.inspectors
  match head.integer .init (Context.resolve { bindings } head.init) with
  | .error failure => .ended bindings (.error (.failed failure))
  | .ok counter =>
    head.courseFrom inspector body iterations counter
      (bindings.insert head.counter { value := Json.ofWord counter, inspector })

end CountHead

/-! ## The slot of a running loop -/

/-- A context inside a loop that has begun a number of iterations. -/
structure Context.InLoop (context : Context) (slot begun : Nat) (separator : Bytes) : Prop where
  depth_eq : context.arena.depth = slot + 1
  inBounds : context.arena.InBounds
  slot_eq : context.arena.slot slot = { begun, separator }

namespace Context.InLoop

variable {context : Context} {slot begun : Nat} {separator : Bytes}

/-- A loop that has been entered has a slot of its own, in which no iteration has begun. -/
theorem enterLoop (hbounds : context.arena.InBounds) (separator : Bytes) :
    (context.enterLoop separator).InLoop context.arena.depth 0 separator := by
  have hacquire : context.arena.depth + 1 ≤ context.arena.acquire.slots.length := hbounds.acquire
  refine ⟨rfl, ?_, LoopArena.slot_setSlot_self hacquire _⟩
  simpa [Context.enterLoop, LoopArena.InBounds, LoopArena.setSlot] using hbounds.acquire

/-- Binding variables does not leave the loop. -/
theorem setBindings (h : context.InLoop slot begun separator) (bindings : Table Variable) :
    Context.InLoop { context with bindings } slot begun separator :=
  ⟨h.depth_eq, h.inBounds, h.slot_eq⟩

/-- What is kept around the slots of a loop and of the loops inside keeps its count. -/
theorem of_keeps {after : Context} (h : context.InLoop slot begun separator)
    (hkeeps : LoopArena.Keeps (slot + 1) context.arena after.arena) :
    after.InLoop slot begun separator :=
  ⟨hkeeps.depth_eq.trans h.depth_eq, hkeeps.inBounds h.inBounds,
    (hkeeps.below slot (Nat.lt_succ_self slot)).trans h.slot_eq⟩

end Context.InLoop

namespace RenderM

variable {body : RenderM Flow} {context : Context} {slot begun : Nat} {separator : Bytes}

/-- The beginning of an iteration writes the separator when it is not the first one, and counts. -/
theorem beginIteration_of_inLoop (h : context.InLoop slot begun separator) :
    (beginIteration slot context).effect =
      { written := if 0 < begun then separator else [], bindings := context.bindings,
        result := .ok () } ∧
    (beginIteration slot context).context.InLoop slot (begun + 1) separator := by
  have hindex : slot < context.arena.slots.length := by
    have hbounds : context.arena.depth ≤ context.arena.slots.length := h.inBounds
    rw [h.depth_eq] at hbounds
    exact hbounds
  have hcount : Context.InLoop
      { context with arena := context.arena.setSlot slot { begun := begun + 1, separator } }
      slot (begun + 1) separator :=
    ⟨h.depth_eq, by simpa [LoopArena.InBounds, LoopArena.setSlot] using h.inBounds,
      LoopArena.slot_setSlot_self hindex _⟩
  rw [beginIteration, context_bind, update_bind]
  simp only [h.slot_eq]
  split
  · exact ⟨rfl, hcount⟩
  · exact ⟨rfl, hcount⟩

/-- An iteration writes the separator when it is not the first one, does what the body does to the
variables, and counts once whatever loops the body holds. -/
theorem iterate_of_inLoop (hbody : body.Steady) (h : context.InLoop slot begun separator) :
    (iterate slot body context).effect =
      { body.effectOn context.bindings with
        written := (if 0 < begun then separator else []) ++
          (body.effectOn context.bindings).written
        result := (body.effectOn context.bindings).result.map Flow.ofIteration } ∧
    (iterate slot body context).context.InLoop slot (begun + 1) separator := by
  obtain ⟨hbegin, hbegun⟩ := beginIteration_of_inLoop h
  have heffect := hbody.effect_eq _ hbegun.inBounds
  have hbindings : (beginIteration slot context).context.bindings = context.bindings :=
    congrArg Effect.bindings hbegin
  have hwritten : (beginIteration slot context).written = if 0 < begun then separator else [] :=
    congrArg Effect.written hbegin
  rw [hbindings] at heffect
  rw [iterate_apply]
  constructor
  · rw [← heffect]
    simp [Rendered.effect, Rendered.after, Rendered.map, hwritten]
  · have hkeeps := hbody.keeps (beginIteration slot context).context
    rw [hbegun.depth_eq] at hkeeps
    exact hbegun.of_keeps hkeeps

end RenderM

/-! ## Loops follow their courses -/

namespace Course

variable {iteration : Effect Flow} {begun : Nat} {separator : Bytes}

/-- Before the first iteration there is no separator. -/
@[simp] theorem effectAfter_zero (course : Course) (separator : Bytes) :
    course.effectAfter 0 separator = course.effect separator := rfl

/-- A loop that ends at once writes nothing. -/
@[simp] theorem effectAfter_ended (bindings : Table Variable) (result : Except Stop Flow) :
    (ended bindings result).effectAfter begun separator =
      { written := [], bindings, result } := by
  simp [effectAfter, ended, texts]

/-- The last iteration has the separator before it, unless it is the first one as well. -/
@[simp] theorem effectAfter_last (result : Except Stop Flow) :
    (last iteration result).effectAfter begun separator =
      { iteration with
        written := (if 0 < begun then separator else []) ++ iteration.written
        result } := by
  by_cases hbegun : 0 < begun <;> simp [effectAfter, last, texts, hbegun]

/-- An iteration before others: the others have the separator before each of them. -/
theorem effectAfter_cons (rest : Course) :
    (cons iteration rest).effectAfter begun separator =
      { rest.effectAfter (begun + 1) separator with
        written := (if 0 < begun then separator else []) ++ iteration.written ++
          (rest.effectAfter (begun + 1) separator).written } := by
  have hjoin : ∀ (text : Bytes) (more : List Bytes), separator.intercalate (text :: more) =
      text ++ more.flatMap (separator ++ ·) := by
    intro text more
    induction more generalizing text with
    | nil => simp
    | cons next more ih => simp [List.intercalate_cons_cons, ih]
  by_cases hbegun : 0 < begun
  · simp [effectAfter, cons, texts, hbegun]
  · simp [effectAfter, cons, texts, hbegun, hjoin]

end Course

/-- A visit is an iteration on the variables of its element. -/
theorem RangeHead.visit_eq_iterate (head : RangeHead) (inspector : Inspector) (slot : Nat)
    (body : RenderM Flow) (element : Json × Json) (context : Context) :
    head.visit inspector slot body element context =
      RenderM.iterate slot body
        { context with bindings := head.bindElement inspector element context.bindings } := by
  unfold visit bindElement
  cases head.key.isEmpty <;> rfl

namespace CountHead

variable [JsonLibrary] {head : CountHead} {inspector : Inspector} {slot : Nat} {body : RenderM Flow}
  {left : Nat} {counter limit : Int64} {context : Context}

/-- A loop whose limit is no integer fails before the iteration. -/
theorem run_of_limit_error {failure : Failure}
    (hlimit : head.integer .limit (context.resolve head.limit) = .error failure) :
    head.run inspector slot body left counter context =
      { written := [], context, result := .error (.failed failure) } := by
  cases left with
  | zero | succ left =>
    rw [run, RenderM.context_bind, hlimit]
    rfl

/-- A loop ends when its test does not hold. -/
theorem run_of_not_continues
    (hlimit : head.integer .limit (context.resolve head.limit) = .ok limit)
    (htest : head.continues counter limit = false) :
    head.run inspector slot body left counter context =
      { written := [], context, result := .ok .done } := by
  cases left with
  | zero | succ left =>
    rw [run, RenderM.context_bind, hlimit, RenderM.ofExcept_ok_bind, htest]
    rfl

/-- A loop stops with an iteration that fails, and keeps what that has written. -/
theorem run_of_iterate_error {stop : Stop}
    (hlimit : head.integer .limit (context.resolve head.limit) = .ok limit)
    (hcontinues : head.continues counter limit = true)
    (hstops : (RenderM.iterate slot body context).result = .error stop) :
    head.run inspector slot body (left + 1) counter context =
      { RenderM.iterate slot body context with result := .error stop } := by
  rw [run, RenderM.context_bind, hlimit, RenderM.ofExcept_ok_bind, if_pos hcontinues,
    RenderM.bind_of_error hstops]

/-- A loop ends with an iteration that leaves it. -/
theorem run_of_break (hlimit : head.integer .limit (context.resolve head.limit) = .ok limit)
    (hcontinues : head.continues counter limit = true)
    (hflow : (RenderM.iterate slot body context).result = .ok .breakLoop) :
    head.run inspector slot body (left + 1) counter context =
      { RenderM.iterate slot body context with result := .ok .done } := by
  rw [run, RenderM.context_bind, hlimit, RenderM.ofExcept_ok_bind, if_pos hcontinues,
    RenderM.bind_of_ok hflow]
  simp [Rendered.after]

/-- A loop stops behind an iteration whose counter cannot go on. -/
theorem run_of_next_error {failure : Failure}
    (hlimit : head.integer .limit (context.resolve head.limit) = .ok limit)
    (hcontinues : head.continues counter limit = true)
    (hflow : (RenderM.iterate slot body context).result = .ok .done)
    (hnext : head.next (RenderM.iterate slot body context).context counter = .error failure) :
    head.run inspector slot body (left + 1) counter context =
      { RenderM.iterate slot body context with result := .error (.failed failure) } := by
  rw [run, RenderM.context_bind, hlimit, RenderM.ofExcept_ok_bind, if_pos hcontinues,
    RenderM.bind_of_ok hflow]
  simp only
  rw [RenderM.context_bind, hnext]
  show Rendered.after _ ((RenderM.ofExcept (.error failure) >>= _) _) = _
  rw [RenderM.bind_of_error rfl]
  simp [Rendered.after, RenderM.ofExcept, RenderM.fail]

end CountHead

section Loops

variable {body : RenderM Flow} {context : Context} {slot begun : Nat} {separator : Bytes}

/-- The visits that a loop has left have the effect of its course. The induction is on the elements;
the count of the slot says whether a separator is due. -/
theorem RangeHead.effect_visitElements (head : RangeHead) (inspector : Inspector)
    (hbody : body.Steady) (elements : List (Json × Json))
    (h : context.InLoop slot begun separator) :
    ((visitElements (head.visit inspector slot body) elements context).map Flow.ofLoop).effect =
      (head.courseOver inspector body.effectOn elements context.bindings).effectAfter begun
        separator := by
  induction elements generalizing context begun with
  | nil =>
    rw [courseOver, Course.effectAfter_ended]
    rfl
  | cons element rest ih =>
    have hbound := h.setBindings (head.bindElement inspector element context.bindings)
    obtain ⟨heffect, hinside⟩ := RenderM.iterate_of_inLoop hbody hbound
    rw [← head.visit_eq_iterate inspector slot body element context] at heffect hinside
    obtain ⟨hwritten, hbindings, hended⟩ := Rendered.effect_eq_iff.mp heffect
    simp only at hwritten hbindings hended
    rw [courseOver]
    cases hresult :
        (body.effectOn (head.bindElement inspector element context.bindings)).result with
    | error stop =>
      rw [hresult] at hended
      rw [visitElements, RenderM.bind_of_error hended]
      simp [Effect.goesOn, hresult, Rendered.effect, Rendered.map, hwritten, hbindings, Except.map]
    | ok flow =>
      rw [hresult] at hended
      rw [visitElements_cons hended]
      cases flow with
      | breakLoop | interrupt =>
        simp [Effect.goesOn, hresult, Rendered.effect, Rendered.map, hwritten, hbindings, hended,
          Except.map, Flow.stopsLoop, Flow.ofIteration, Flow.ofLoop]
      | done | continueLoop =>
        have hrest := ih hinside
        rw [hbindings] at hrest
        simp only [Effect.goesOn, hresult, Flow.stopsLoop, Flow.ofIteration, Bool.not_false,
          if_true, Bool.false_eq_true, if_false, Course.effectAfter_cons, ← hrest]
        simp [Rendered.effect, Rendered.map, Rendered.after, hwritten]

/-- A loop over elements has the effect of its course. -/
theorem RangeHead.effect_render (head : RangeHead) (hbody : body.Steady)
    (hbounds : context.arena.InBounds) :
    (head.render body context).effect =
      (head.course body.effectOn context.bindings).effect head.separator := by
  rw [course]
  cases hsource : Variable.lookUp context.bindings head.source with
  | mk root source =>
    cases root with
    | none =>
      rw [render, RenderM.context_bind]
      simp only [hsource]
      rfl
    | some root =>
      cases source with
      | none =>
        rw [render, RenderM.context_bind]
        simp only [hsource]
        rfl
      | some source =>
        cases helements : root.inspector.elements source with
        | error failure =>
          rw [render, RenderM.context_bind]
          simp only [hsource, helements, RenderM.bind_pure_apply, RenderM.withSlot_apply]
          rfl
        | ok elements =>
          rw [render_of_elements hsource helements]
          simp only [helements]
          exact head.effect_visitElements root.inspector hbody elements
            (Context.InLoop.enterLoop hbounds head.separator)

namespace CountHead

variable [JsonLibrary] (head : CountHead) (inspector : Inspector) {counter limit : Int64}

/-- A limit that is no integer stops the loop. -/
theorem effect_run_of_limit_error {failure : Failure}
    (hlimit : head.integer .limit (context.resolve head.limit) = .error failure)
    (iterations : Nat) :
    (head.run inspector slot body iterations counter context).effect =
      (head.courseFrom inspector body.effectOn iterations counter context.bindings).effectAfter
        begun separator := by
  have hlimit' : head.integer .limit (Context.resolve { bindings := context.bindings } head.limit) =
      .error failure := hlimit
  rw [run_of_limit_error hlimit]
  cases iterations with
  | zero | succ left =>
    rw [courseFrom, hlimit']
    simp only [Course.effectAfter_ended]
    rfl

/-- A test that fails ends the loop. -/
theorem effect_run_of_not_continues
    (hlimit : head.integer .limit (context.resolve head.limit) = .ok limit)
    (hcontinues : head.continues counter limit = false) (iterations : Nat) :
    (head.run inspector slot body iterations counter context).effect =
      (head.courseFrom inspector body.effectOn iterations counter context.bindings).effectAfter
        begun separator := by
  have hlimit' : head.integer .limit (Context.resolve { bindings := context.bindings } head.limit) =
      .ok limit := hlimit
  rw [run_of_not_continues hlimit hcontinues]
  cases iterations with
  | zero | succ left =>
    rw [courseFrom, hlimit']
    simp only [hcontinues, Bool.false_eq_true, if_false, Course.effectAfter_ended]
    rfl

/-- One iteration of a counting loop and what the loop does after it, when that is known to have the
effect of its course. -/
theorem effect_run_succ (hbody : body.Steady) {left : Nat}
    (h : context.InLoop slot begun separator)
    (hlimit : head.integer .limit (context.resolve head.limit) = .ok limit)
    (hcontinues : head.continues counter limit = true)
    (hmore : ∀ {after : Context} (counter : Int64), after.InLoop slot (begun + 1) separator →
      (head.run inspector slot body left counter after).effect =
        (head.courseFrom inspector body.effectOn left counter after.bindings).effectAfter
          (begun + 1) separator) :
    (head.run inspector slot body (left + 1) counter context).effect =
      (head.courseFrom inspector body.effectOn (left + 1) counter context.bindings).effectAfter
        begun separator := by
  have hlimit' : head.integer .limit (Context.resolve { bindings := context.bindings } head.limit) =
      .ok limit := hlimit
  obtain ⟨heffect, hinside⟩ := RenderM.iterate_of_inLoop hbody h
  obtain ⟨hwritten, hbindings, hended⟩ := Rendered.effect_eq_iff.mp heffect
  simp only at hwritten hbindings hended
  rw [courseFrom, hlimit']
  simp only [hcontinues, if_true]
  cases hresult : (body.effectOn context.bindings).result with
  | error stop =>
    rw [hresult] at hended
    rw [run_of_iterate_error hlimit hcontinues hended]
    simp [Effect.goesOn, hresult, Rendered.effect, hwritten, hbindings, Except.map]
  | ok flow =>
    rw [hresult] at hended
    cases flow with
    | breakLoop =>
      rw [run_of_break hlimit hcontinues hended]
      simp [Effect.goesOn, hresult, Rendered.effect, hwritten, hbindings,
        Except.map, Flow.stopsLoop, Flow.ofLoop]
    | interrupt =>
      rw [run_of_interrupt hlimit hcontinues hended]
      simp [Effect.goesOn, hresult, Rendered.effect, hwritten, hbindings, hended,
        Except.map, Flow.stopsLoop, Flow.ofIteration, Flow.ofLoop]
    | done | continueLoop =>
      have hnext : head.next { bindings := (body.effectOn context.bindings).bindings } counter =
          head.next (RenderM.iterate slot body context).context counter := by
        rw [← hbindings]
        rfl
      simp only [Effect.goesOn, hresult, Flow.stopsLoop, Bool.not_false, if_true, hnext]
      cases hafter : head.next (RenderM.iterate slot body context).context counter with
      | error failure =>
        rw [run_of_next_error hlimit hcontinues hended hafter]
        simp [Rendered.effect, hwritten, hbindings]
      | ok after =>
        have hrest := hmore after (hinside.setBindings
          ((RenderM.iterate slot body context).context.bindings.insert head.counter
            { value := Json.ofWord after, inspector }))
        rw [run_of_done hlimit hcontinues hended hafter]
        simp only [Course.effectAfter_cons, ← hbindings, ← hrest]
        simp [Rendered.effect, Rendered.after, hwritten, Context.assign]

/-- The iterations that a counting loop has left have the effect of its course. The induction is on
how many it may begin. -/
theorem effect_run (hbody : body.Steady) (iterations : Nat) (counter : Int64)
    (h : context.InLoop slot begun separator) :
    (head.run inspector slot body iterations counter context).effect =
      (head.courseFrom inspector body.effectOn iterations counter context.bindings).effectAfter
        begun separator := by
  induction iterations generalizing context begun counter with
  | zero =>
    cases hlimit : head.integer .limit (context.resolve head.limit) with
    | error failure => exact head.effect_run_of_limit_error inspector hlimit 0
    | ok limit =>
      cases hcontinues : head.continues counter limit with
      | false => exact head.effect_run_of_not_continues inspector hlimit hcontinues 0
      | true =>
        have hlimit' : head.integer .limit
            (Context.resolve { bindings := context.bindings } head.limit) = .ok limit := hlimit
        rw [run, courseFrom, RenderM.context_bind, hlimit, hlimit', RenderM.ofExcept_ok_bind]
        simp only [hcontinues, if_true, Course.effectAfter_ended]
        rfl
  | succ left ih =>
    cases hlimit : head.integer .limit (context.resolve head.limit) with
    | error failure => exact head.effect_run_of_limit_error inspector hlimit (left + 1)
    | ok limit =>
      cases hcontinues : head.continues counter limit with
      | false => exact head.effect_run_of_not_continues inspector hlimit hcontinues (left + 1)
      | true => exact head.effect_run_succ inspector hbody h hlimit hcontinues ih

/-- A counting loop has the effect of its course. -/
theorem effect_render (registry : Registry) (iterations : Nat) (hbody : body.Steady)
    (hbounds : context.arena.InBounds) :
    (head.render registry iterations body context).effect =
      (head.course registry iterations body.effectOn context.bindings).effect head.separator := by
  have hresolve : Context.resolve { bindings := context.bindings } head.init =
      context.resolve head.init := rfl
  rw [course, hresolve]
  cases hinit : head.integer .init (context.resolve head.init) with
  | error failure =>
    rw [render, RenderM.context_bind, hinit]
    rfl
  | ok counter =>
    have hassigned : (context.assign head.counter (Json.ofWord counter)
        (Inspector.general registry.inspectors)).arena.InBounds := hbounds
    rw [render_of_init hinit]
    exact head.effect_run (Inspector.general registry.inspectors) hbody iterations counter
      (Context.InLoop.enterLoop hassigned head.separator)

end CountHead

end Loops

/-- A loop over elements is steady when its body is. -/
theorem RangeHead.steady_render (head : RangeHead) {body : RenderM Flow} (hbody : body.Steady) :
    (head.render body).Steady :=
  .of_effect (fun bindings => (head.course body.effectOn bindings).effect head.separator)
    (head.keepsSlots_render hbody.keepsSlots) fun _ => head.effect_render hbody

/-- A counting loop is steady when its body is. -/
theorem CountHead.steady_render [JsonLibrary] (head : CountHead) (registry : Registry)
    (iterations : Nat) {body : RenderM Flow} (hbody : body.Steady) :
    (head.render registry iterations body).Steady :=
  .of_effect
    (fun bindings =>
      (head.course registry iterations body.effectOn bindings).effect head.separator)
    (head.keepsSlots_render registry iterations hbody.keepsSlots)
    fun _ => head.effect_render registry iterations hbody

namespace Node

variable [JsonLibrary] (registry : Registry) (iterations : Nat)

mutual

/-- Every node is steady: it leaves the loops around it alone, however it ends, and looks at nothing
but the variables. -/
theorem steady_render : (node : Node) → (node.render registry iterations).Steady
  | raw text => by
    rw [render]
    exact .bind (.write text) fun _ => .pure _
  | print statement => by
    rw [render]
    exact statement.steady_render registry
  | bind statement => by
    rw [render]
    exact statement.steady_render registry
  | counter statement => by
    rw [render]
    exact statement.steady_render registry
  | cond condition children => by
    rw [render]
    refine .read ?_ fun _ => rfl
    intro context
    apply RenderM.Steady.bind (.ofExcept _)
    intro holds
    exact steady_renderNth _ children
  | onTrue children | onFalse children | case _ children | default children => by
    rw [render]
    exact steady_renderAll children
  | forRange head children => by
    rw [render]
    exact head.steady_render (steady_renderAll children)
  | forCount head children => by
    rw [render]
    exact head.steady_render registry iterations (steady_renderAll children)
  | switch subject children => by
    rw [render]
    exact .bind (steady_renderBranch subject children) fun _ => .pure _
  | breakLoop | continueLoop | exit => by
    rw [render]
    exact .pure _
  | divider => by
    rw [render]
    exact .fail _

/-- Nodes in order are steady. -/
theorem steady_renderAll : (nodes : List Node) → (renderAll registry iterations nodes).Steady
  | [] => by
    rw [renderAll]
    exact .pure _
  | node :: rest => by
    rw [renderAll]
    apply RenderM.Steady.bind (steady_render node)
    intro flow
    cases flow with
    | done => exact steady_renderAll rest
    | breakLoop | continueLoop | interrupt => exact .pure _

/-- A node by its index is steady. -/
theorem steady_renderNth :
    (index : Nat) → (nodes : List Node) → (renderNth registry iterations index nodes).Steady
  | _, [] => by
    rw [renderNth]
    exact .pure _
  | 0, node :: rest => by
    rw [renderNth]
    exact steady_render node
  | index + 1, node :: rest => by
    rw [renderNth]
    exact steady_renderNth index rest

/-- The cases of a switch are steady. -/
theorem steady_renderBranch (subject : Operand) :
    (nodes : List Node) → (renderBranch registry iterations subject nodes).Steady
  | [] => by
    rw [renderBranch]
    exact .pure _
  | node :: rest => by
    have hrest := steady_renderBranch subject rest
    cases node with
    | case test children =>
      rw [renderBranch]
      refine .read ?_ fun _ => rfl
      intro context
      apply RenderM.Steady.bind (.ofExcept _)
      intro holds
      split
      · exact .bind (steady_renderAll children) fun _ => .pure _
      · exact hrest
    | default children =>
      rw [renderBranch]
      apply RenderM.Steady.bind hrest
      intro chosen
      cases chosen with
      | some flow => exact .pure _
      | none => exact .bind (steady_renderAll children) fun _ => .pure _
    | _ =>
      rw [renderBranch]
      · exact hrest
      all_goals simp

end

end Node

end Stencil
