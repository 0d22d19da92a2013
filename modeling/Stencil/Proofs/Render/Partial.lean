import Stencil.Builtins
import Stencil.Json.Strict
import Stencil.Proofs.Json.Encoded
import Stencil.Proofs.Render.Course
import Stencil.Proofs.Render.Steps
import Stencil.Proofs.Template.Grammar

/-!
# What a failed rendering has written

A print statement writes all of its text or nothing, with one exception: a container that holds a
string that is not UTF-8 is found to have no text only after the text before it has been written
(`Print.Outcome`). A rendering that fails has therefore written what the nodes and separators before
the one that fails have written, and in that exception the text before the value
(`Site.Fails`, `Node.partial_output`). Both directions follow the sites that a rendering comes to: a
failure comes from a site to the one before (`Site.Calls.failed`), and from nowhere else unless the
site fails by itself (`Site.FailsHere`).
-/

set_option autoImplicit false

namespace Stencil

/-! ## Steps that write nothing -/

/-- How steps in a row are grouped makes no difference. -/
theorem RenderM.bind_assoc {α β γ : Type} (step : RenderM α) (next : α → RenderM β)
    (last : β → RenderM γ) :
    ((step >>= next) >>= last) = step >>= fun value => next value >>= last := by
  funext context
  cases hfirst : (step context).result with
  | error stop =>
    have hboth : ((step >>= next) context).result = .error stop := by rw [bind_of_error hfirst]
    rw [bind_of_error hboth, bind_of_error hfirst, bind_of_error hfirst]
  | ok value =>
    have hnext : (step >>= next) context = (next value (step context).context).after
        (step context).written := bind_of_ok hfirst
    rw [bind_of_ok hfirst]
    cases hsecond : (next value (step context).context).result with
    | error stop =>
      have hboth : ((step >>= next) context).result = .error stop := by rw [hnext]; exact hsecond
      rw [bind_of_error hboth, bind_of_error hsecond, hnext]
      rfl
    | ok second =>
      have hboth : ((step >>= next) context).result = .ok second := by rw [hnext]; exact hsecond
      rw [bind_of_ok hboth, bind_of_ok hsecond, hnext]
      simp [Rendered.after]

/-- A step that writes nothing, and stops only at a failure. -/
structure RenderM.Silent {α : Type} (step : RenderM α) : Prop where
  written_eq : ∀ context, (step context).written = []
  not_exhausted : ∀ context, (step context).result ≠ .error .exhausted

namespace RenderM.Silent

variable {α β : Type}

/-- A value is silent. -/
theorem pure (value : α) : (Pure.pure value : RenderM α).Silent :=
  ⟨fun _ => rfl, fun _ h => by cases h⟩

/-- A failure is silent. -/
theorem fail (failure : Failure) : (RenderM.fail failure : RenderM α).Silent :=
  ⟨fun _ => rfl, fun _ h => by cases h⟩

/-- A change of the context is silent. -/
theorem update (f : Context → Context) : (RenderM.update f).Silent :=
  ⟨fun _ => rfl, fun _ h => by cases h⟩

/-- A value or a failure is silent. -/
theorem ofExcept (value : Except Failure α) : (RenderM.ofExcept value).Silent := by
  cases value with
  | ok value => exact pure value
  | error failure => exact fail failure

/-- Two silent steps in a row are silent. -/
theorem bind {step : RenderM α} {next : α → RenderM β} (hstep : step.Silent)
    (hnext : ∀ value, (next value).Silent) : (step >>= next).Silent := by
  constructor
  · intro context
    cases hresult : (step context).result with
    | error stop =>
      rw [RenderM.bind_of_error hresult]
      exact hstep.written_eq context
    | ok value =>
      rw [RenderM.bind_of_ok hresult, Rendered.written_after, hstep.written_eq,
        (hnext value).written_eq]
      rfl
  · intro context
    cases hresult : (step context).result with
    | error stop =>
      rw [RenderM.bind_of_error hresult]
      rintro ⟨⟩
      exact hstep.not_exhausted context hresult
    | ok value =>
      rw [RenderM.bind_of_ok hresult]
      exact (hnext value).not_exhausted _

/-- A step that is given the context is silent when it is so for every context. -/
theorem read {next : Context → RenderM α} (hnext : ∀ context, (next context).Silent) :
    (RenderM.context >>= next).Silent :=
  ⟨fun context => (hnext context).written_eq context,
    fun context => (hnext context).not_exhausted context⟩

end RenderM.Silent

/-- Modifiers write nothing. -/
theorem ModifierCall.silent_applyAll (registry : Registry) (calls : List ModifierCall)
    (value : Json) : (applyAll registry calls value).Silent := by
  induction calls generalizing value with
  | nil =>
    rw [applyAll]
    exact .pure value
  | cons call rest ih =>
    rw [applyAll]
    cases registry.modifiers.find? call.name with
    | none => exact .fail _
    | some modifier =>
      exact .read fun context => .bind (.ofExcept _) fun result =>
        .bind (.update _) fun _ => ih result.1

/-! ## Printing -/

/-- Every value has a text except a container with a string that is not UTF-8. -/
theorem Json.toText_eq_error_iff [JsonLibrary] {value : Json} {fault : JsonFault} :
    value.toText = .error fault ↔
      value.shape ≠ .scalar ∧ ¬ value.Encoded ∧ fault = .notUtf8 := by
  constructor
  · intro h
    refine ⟨fun hscalar => ?_, fun hencoded => ?_, Unwritable.toText value fault h⟩
    · cases value with
      | arr _ | obj _ => cases hscalar
      | _ => cases h
    · obtain ⟨text, htext⟩ := hencoded.exists_toText
      cases htext.symm.trans h
  · rintro ⟨hcontainer, hencoded, rfl⟩
    cases htext : value.toText with
    | error fault => rw [Unwritable.toText value fault htext]
    | ok text =>
      refine absurd ?_ hencoded
      cases value with
      | arr items => exact encoded_of_print (.arr items) htext
      | obj fields => exact encoded_of_print (.obj fields) htext
      | _ => exact absurd rfl hcontainer

namespace Print

/-- The value that a statement is to write: what its modifiers make of the operand, unless that is
blank. -/
def final (registry : Registry) (statement : Print) : RenderM Json := do
  let context ← RenderM.context
  let value ← ModifierCall.applyAll registry statement.modifiers (context.resolve statement.value)
  if value.isBlank then RenderM.fail (.emptyArgument statement.value.text) else return value

/-- What becomes of a print statement: all of its text is written, or nothing because there is no
value to write, or only the text before a value that has none. -/
inductive Outcome [JsonLibrary] (registry : Registry) (statement : Print) (context : Context) :
    Rendered Flow → Prop
  | all {value : Json} {text : Bytes}
    (hvalue : (statement.final registry context).result = .ok value)
    (htext : value.toText = .ok text) :
    Outcome registry statement context
      { written := statement.before ++ text ++ statement.after
        context := (statement.final registry context).context
        result := .ok .done }
  | nothing {failure : Failure}
    (hfails : (statement.final registry context).result = .error (.failed failure)) :
    Outcome registry statement context
      { written := []
        context := (statement.final registry context).context
        result := .error (.failed failure) }
  | unwritable {value : Json}
    (hvalue : (statement.final registry context).result = .ok value)
    (hcontainer : value.shape ≠ .scalar) (hencoded : ¬ value.Encoded) :
    Outcome registry statement context
      { written := statement.before
        context := (statement.final registry context).context
        result := .error (.failed (.json .notUtf8)) }

variable (registry : Registry) (statement : Print)

/-- The value of a print statement is computed in silence. -/
theorem silent_final : (statement.final registry).Silent := by
  refine .read fun context => (ModifierCall.silent_applyAll ..).bind fun value => ?_
  cases value.isBlank with
  | true => exact .fail _
  | false => exact .pure value

/-- A statement finds the value to write first. -/
theorem render_eq_bind [JsonLibrary] :
    statement.render registry = statement.final registry >>= fun value => do
      RenderM.write statement.before
      let text ← RenderM.ofExcept (Failure.ofJson value.toText)
      RenderM.write (text ++ statement.after)
      return .done := by
  rw [render, final, RenderM.bind_assoc]
  congr 1
  funext context
  rw [RenderM.bind_assoc]
  congr 1
  funext value
  cases value.isBlank <;> rfl

variable {registry statement} {context : Context} {value : Json}

/-- A value with a text is written with what stands around it. -/
theorem render_of_toText [JsonLibrary] {text : Bytes}
    (hvalue : (statement.final registry context).result = .ok value)
    (htext : value.toText = .ok text) :
    statement.render registry context =
      { written := statement.before ++ text ++ statement.after
        context := (statement.final registry context).context
        result := .ok .done } := by
  rw [render_eq_bind, RenderM.bind_of_ok hvalue, (statement.silent_final registry).written_eq,
    htext]
  show Rendered.mk (statement.before ++ ([] ++ ((text ++ statement.after) ++ []))) _ _ = _
  rw [List.nil_append, List.append_nil, ← List.append_assoc]
  rfl

/-- Without a value nothing is written. -/
theorem render_of_no_value [JsonLibrary] {failure : Failure}
    (hfails : (statement.final registry context).result = .error (.failed failure)) :
    statement.render registry context =
      { written := []
        context := (statement.final registry context).context
        result := .error (.failed failure) } := by
  rw [render_eq_bind, RenderM.bind_of_error hfails, (statement.silent_final registry).written_eq]

/-- A container that cannot be written fails behind what stands before it. -/
theorem render_of_unwritable [JsonLibrary]
    (hvalue : (statement.final registry context).result = .ok value)
    (hcontainer : value.shape ≠ .scalar) (hencoded : ¬ value.Encoded) :
    statement.render registry context =
      { written := statement.before
        context := (statement.final registry context).context
        result := .error (.failed (.json .notUtf8)) } := by
  have htext : value.toText = .error .notUtf8 :=
    Json.toText_eq_error_iff.mpr ⟨hcontainer, hencoded, rfl⟩
  rw [render_eq_bind, RenderM.bind_of_ok hvalue, (statement.silent_final registry).written_eq,
    htext]
  show Rendered.mk (statement.before ++ []) _ _ = _
  rw [List.append_nil]
  rfl

/-- A statement has one of the three outcomes. -/
theorem outcome_render [JsonLibrary] (registry : Registry) (statement : Print) (context : Context) :
    statement.Outcome registry context (statement.render registry context) := by
  cases hvalue : (statement.final registry context).result with
  | error stop =>
    cases stop with
    | exhausted =>
      exact absurd hvalue ((statement.silent_final registry).not_exhausted context)
    | failed failure =>
      rw [render_of_no_value hvalue]
      exact .nothing hvalue
  | ok value =>
    cases htext : value.toText with
    | ok text =>
      rw [render_of_toText hvalue htext]
      exact .all hvalue htext
    | error fault =>
      obtain ⟨hcontainer, hencoded, -⟩ := Json.toText_eq_error_iff.mp htext
      rw [render_of_unwritable hvalue hcontainer hencoded]
      exact .unwritable hvalue hcontainer hencoded

end Print

/-! ## Failures -/

/-- A rendering fails after something has been written. -/
structure Rendered.Failed {α : Type} (outcome : Rendered α) (written : Bytes)
    (failure : Failure) : Prop where
  result : outcome.result = .error (.failed failure)
  written : outcome.written = written

/-- A failure with its value replaced was a failure. -/
theorem Rendered.result_of_map_error {α β : Type} {outcome : Rendered α} {f : α → β}
    {stop : Stop} (h : (outcome.map f).result = .error stop) : outcome.result = .error stop := by
  rw [result_map] at h
  cases hresult : outcome.result with
  | error cause =>
    rw [hresult, Except.map] at h
    cases h
    rfl
  | ok value => simp [hresult, Except.map] at h

namespace Rendered.Failed

variable {α β : Type} {outcome : Rendered α} {written : Bytes} {failure : Failure}

/-- Text written before a failure comes first. -/
theorem after (h : outcome.Failed written failure) (before : Bytes) :
    (outcome.after before).Failed (before ++ written) failure :=
  ⟨h.result, congrArg (before ++ ·) h.written⟩

/-- Leaving a loop changes nothing of a failure. -/
theorem leaveLoop (h : outcome.Failed written failure) : outcome.leaveLoop.Failed written failure :=
  ⟨h.result, h.written⟩

/-- A change of the value changes nothing of a failure. -/
theorem map (h : outcome.Failed written failure) (f : α → β) :
    (outcome.map f).Failed written failure := by
  refine ⟨?_, h.written⟩
  rw [result_map, h.result, Except.map]

/-- What would have followed changes nothing of a failure. -/
theorem bind {step : RenderM α} {context : Context} (h : (step context).Failed written failure)
    (next : α → RenderM β) : ((step >>= next) context).Failed written failure := by
  rw [RenderM.bind_of_error h.result]
  exact ⟨rfl, h.written⟩

end Rendered.Failed

/-- An outcome fails with its value replaced exactly when it fails as it is. -/
theorem Rendered.failed_map_iff {α β : Type} {outcome : Rendered α} {f : α → β} {written : Bytes}
    {failure : Failure} :
    (outcome.map f).Failed written failure ↔ outcome.Failed written failure :=
  ⟨fun h => ⟨result_of_map_error h.result, h.written⟩, fun h => h.map f⟩

namespace Site

variable (registry : Registry) (iterations : Nat)

/-- The rendering of a site in a context fails by itself, and not because what it owns does. What it
has written by then is nothing, or the text before a value that has no text, or the iteration after
which a counter cannot go on. -/
inductive FailsHere [JsonLibrary] : Site → Context → Bytes → Failure → Prop
  | print {statement : Print} {context : Context} {failure : Failure}
    (hfails : (statement.final registry context).result = .error (.failed failure)) :
    FailsHere (node (.print statement)) context [] failure
  | unwritable {statement : Print} {context : Context} {value : Json}
    (hvalue : (statement.final registry context).result = .ok value)
    (hcontainer : value.shape ≠ .scalar) (hencoded : ¬ value.Encoded) :
    FailsHere (node (.print statement)) context statement.before (.json .notUtf8)
  | bind {statement : Binding} {context : Context} {failure : Failure}
    (hfails : statement.evaluate registry context = .error failure) :
    FailsHere (node (.bind statement)) context [] failure
  | counter {statement : Counter} {context : Context} {failure : Failure}
    (hfails : statement.evaluate context = .error failure) :
    FailsHere (node (.counter statement)) context [] failure
  | cond {condition : Condition} {children : List Node} {context : Context} {failure : Failure}
    (hfails : condition.evaluate registry context = .error failure) :
    FailsHere (node (.cond condition children)) context [] failure
  | switch {subject : Operand} {children : List Node} {context : Context} {failure : Failure}
    (hfails : Node.chosen? subject context children = .error failure) :
    FailsHere (node (.switch subject children)) context [] failure
  | divider {context : Context} : FailsHere (node .divider) context [] .strayDivider
  | elements {head : RangeHead} {children : List Node} {context : Context} {root : Variable}
    {source : Json} {failure : Failure}
    (hsource : Variable.lookUp context.bindings head.source = (some root, some source))
    (hfails : root.inspector.elements source = .error failure) :
    FailsHere (node (.forRange head children)) context [] failure
  | init {head : CountHead} {children : List Node} {context : Context} {failure : Failure}
    (hfails : head.integer .init (context.resolve head.init) = .error failure) :
    FailsHere (node (.forCount head children)) context [] failure
  | limit {head : CountHead} {slot : Nat} {children : List Node} {left : Nat} {counter : Int64}
    {context : Context} {failure : Failure}
    (hfails : head.integer .limit (context.resolve head.limit) = .error failure) :
    FailsHere (counts head slot children left counter) context [] failure
  | next {head : CountHead} {slot : Nat} {children : List Node} {left : Nat}
    {counter limit : Int64} {context : Context} {iterated : Rendered Flow} {failure : Failure}
    (hlimit : head.integer .limit (context.resolve head.limit) = .ok limit)
    (hcontinues : head.continues counter limit = true)
    (hiterated : RenderM.iterate slot (Node.renderAll registry iterations children) context =
      iterated)
    (hflow : iterated.result = .ok .done) (hfails : head.next iterated.context counter =
      .error failure) :
    FailsHere (counts head slot children (left + 1) counter) context iterated.written failure

/-- The rendering of a site in a context fails: by itself, or because what it comes to does, after
what has been completed on the way there has been written. -/
inductive Fails [JsonLibrary] : Site → Context → Bytes → Failure → Prop
  | here {site : Site} {context : Context} {written : Bytes} {failure : Failure}
    (hfails : FailsHere registry iterations site context written failure) :
    Fails site context written failure
  | step {site next : Site} {before between : Context} {written more : Bytes} {failure : Failure}
    (hcalls : Calls registry iterations site before written next between)
    (hnext : Fails next between more failure) : Fails site before (written ++ more) failure

end Site

/-! ## A failure ends a rendering -/

namespace Site

variable [JsonLibrary] {registry : Registry} {iterations : Nat}

/-- A site that fails by itself fails so. -/
theorem FailsHere.failed
    {site : Site} {context : Context} {written : Bytes} {failure : Failure}
    (h : FailsHere registry iterations site context written failure) :
    (site.render registry iterations context).Failed written failure := by
  cases h with
  | print hfails =>
    rw [render, Node.render, Print.render_of_no_value hfails]
    exact ⟨rfl, rfl⟩
  | unwritable hvalue hcontainer hencoded =>
    rw [render, Node.render, Print.render_of_unwritable hvalue hcontainer hencoded]
    exact ⟨rfl, rfl⟩
  | bind hfails =>
    rw [render, Node.render, Binding.render, RenderM.context_bind, hfails]
    exact ⟨rfl, rfl⟩
  | counter hfails =>
    rw [render, Node.render, Counter.render, RenderM.context_bind, hfails]
    exact ⟨rfl, rfl⟩
  | cond hfails =>
    rw [render, Node.render, RenderM.context_bind, hfails]
    exact ⟨rfl, rfl⟩
  | switch hfails =>
    rw [render, Node.render_switch]
    simp only [hfails]
    exact ⟨rfl, rfl⟩
  | divider =>
    rw [render, Node.render]
    exact ⟨rfl, rfl⟩
  | elements hsource hfails =>
    rw [render, Node.render, RangeHead.render, RenderM.context_bind]
    simp only [hsource]
    refine Rendered.Failed.bind ?_ _
    rw [RenderM.withSlot_apply, hfails]
    exact ⟨rfl, rfl⟩
  | init hfails =>
    rw [render, Node.render, CountHead.render, RenderM.context_bind, hfails]
    exact ⟨rfl, rfl⟩
  | limit hfails =>
    rw [render, CountHead.run_of_limit_error hfails]
    exact ⟨rfl, rfl⟩
  | next hlimit hcontinues hiterated hflow hfails =>
    subst hiterated
    rw [render, CountHead.run_of_next_error hlimit hcontinues hflow hfails]
    exact ⟨rfl, rfl⟩

/-- A site that fails by itself has no other failure. -/
theorem FailsHere.of_result {site : Site} {context : Context} {written : Bytes}
    {cause failure : Failure} (hfails : FailsHere registry iterations site context written cause)
    (h : (site.render registry iterations context).result = .error (.failed failure)) :
    ∃ written, FailsHere registry iterations site context written failure := by
  cases hfails.failed.result.symm.trans h
  exact ⟨written, hfails⟩

/-- A failure comes from a site to the one before, and nothing more is written. -/
theorem Calls.failed {site next : Site} {before after : Context} {written more : Bytes}
    {failure : Failure} (h : Calls registry iterations site before written next after)
    (hnext : (next.render registry iterations after).Failed more failure) :
    (site.render registry iterations before).Failed (written ++ more) failure := by
  cases h with
  | first =>
    rw [render, Node.renderAll]
    exact hnext.bind _
  | next hdone =>
    rw [render, Node.renderAll_of_done hdone]
    exact hnext.after _
  | cond hholds hchild =>
    rw [render, Node.render, RenderM.context_bind, hholds, RenderM.ofExcept_ok_bind,
      Node.renderNth_of_getElem? hchild]
    exact hnext
  | onTrue | onFalse | case | default =>
    rw [render, Node.render]
    exact hnext
  | switch hchosen =>
    rw [render, Node.render_switch]
    simp only [hchosen]
    exact hnext
  | range hsource helements =>
    rw [render, Node.render, RangeHead.render_of_elements hsource helements]
    exact hnext.leaveLoop.map _
  | visit =>
    rw [render, visitElements]
    refine Rendered.Failed.bind ?_ _
    rw [RangeHead.visit_apply]
    exact (hnext.map _).after _
  | nextVisit hvisited hflow hgoes =>
    subst hvisited
    rw [render, visitElements_cons hflow, hgoes]
    exact hnext.after _
  | count hinit =>
    rw [render, Node.render, CountHead.render_of_init hinit]
    exact hnext.leaveLoop
  | @iteration _ slot children _ _ _ _ hlimit hcontinues =>
    have hiterated : (RenderM.iterate slot (Node.renderAll registry iterations children)
        before).Failed ((RenderM.beginIteration slot before).written ++ more) failure := by
      rw [RenderM.iterate_apply]
      exact (hnext.map _).after _
    rw [render, CountHead.run_of_iterate_error hlimit hcontinues hiterated.result]
    exact ⟨rfl, hiterated.written⟩
  | nextIteration hlimit hcontinues hiterated hflow hcounter =>
    subst hiterated
    rw [render, CountHead.run_of_done hlimit hcontinues hflow hcounter]
    exact hnext.after _

/-- A site that fails, by itself or below, fails with what was written on the way. -/
theorem Fails.failed
    {site : Site} {context : Context} {written : Bytes} {failure : Failure}
    (h : Fails registry iterations site context written failure) :
    (site.render registry iterations context).Failed written failure := by
  induction h with
  | here hfails => exact hfails.failed
  | step hcalls _ ih => exact hcalls.failed ih

end Site

/-! ## Where a failure comes from -/

namespace Site

variable [JsonLibrary]
variable {registry : Registry} {iterations : Nat} {context : Context} {failure : Failure}

/-- When nodes in order fail, one of them does. -/
theorem exists_calls_of_failed_all {nodes : List Node}
    (h : ((all nodes).render registry iterations context).result = .error (.failed failure)) :
    ∃ written next after, Calls registry iterations (all nodes) context written next after ∧
      (next.render registry iterations after).result = .error (.failed failure) := by
  rw [render] at h
  cases nodes with
  | nil =>
    rw [Node.renderAll] at h
    cases h
  | cons first rest =>
    cases hfirst : (first.render registry iterations context).result with
    | error stop =>
      rw [Node.renderAll, RenderM.bind_of_error hfirst] at h
      exact ⟨_, _, _, .first, hfirst.trans h⟩
    | ok flow =>
      by_cases hdone : flow = .done
      · subst hdone
        rw [Node.renderAll_of_done hfirst] at h
        exact ⟨_, _, _, .next hfirst, h⟩
      · rw [Node.renderAll_of_flow hfirst hdone, hfirst] at h
        cases h

/-- When a loop over elements fails, one of its iterations does. -/
theorem exists_calls_of_failed_visits {head : RangeHead} {inspector : Inspector} {slot : Nat}
    {children : List Node} {elements : List (Json × Json)}
    (h : ((visits head inspector slot children elements).render registry iterations
      context).result = .error (.failed failure)) :
    ∃ written next after,
      Calls registry iterations (visits head inspector slot children elements) context written next
        after ∧ (next.render registry iterations after).result = .error (.failed failure) := by
  rw [render] at h
  cases elements with
  | nil =>
    rw [visitElements] at h
    cases h
  | cons element rest =>
    cases hvisited : (head.visit inspector slot (Node.renderAll registry iterations children)
        element context).result with
    | error stop =>
      rw [visitElements, RenderM.bind_of_error hvisited] at h
      rw [RangeHead.visit_apply] at hvisited
      exact ⟨_, _, _, .visit, Rendered.result_of_map_error (hvisited.trans h)⟩
    | ok flow =>
      rw [visitElements_cons hvisited] at h
      cases hstops : flow.stopsLoop with
      | false =>
        rw [hstops] at h
        exact ⟨_, _, _, .nextVisit rfl hvisited hstops, h⟩
      | true =>
        rw [hstops, if_pos rfl, hvisited] at h
        cases h

/-- An iteration of a counting loop and what comes after it fail because the body does, or because
there is no next counter, or in what comes after. -/
theorem failsHere_or_exists_calls_of_iteration {head : CountHead} {slot : Nat}
    {children : List Node} {left : Nat} {counter limit : Int64}
    (hlimit : head.integer .limit (context.resolve head.limit) = .ok limit)
    (hcontinues : head.continues counter limit = true)
    (h : ((counts head slot children (left + 1) counter).render registry iterations
      context).result = .error (.failed failure)) :
    (∃ written, FailsHere registry iterations (counts head slot children (left + 1) counter)
      context written failure) ∨
    ∃ written next after,
      Calls registry iterations (counts head slot children (left + 1) counter) context written next
        after ∧ (next.render registry iterations after).result = .error (.failed failure) := by
  cases hiterated : (RenderM.iterate slot (Node.renderAll registry iterations children)
      context).result with
  | error stop =>
    rw [render, CountHead.run_of_iterate_error hlimit hcontinues hiterated] at h
    rw [RenderM.iterate_apply] at hiterated
    exact .inr ⟨_, _, _, .iteration hlimit hcontinues,
      Rendered.result_of_map_error (hiterated.trans h)⟩
  | ok flow =>
    cases flow with
    | breakLoop =>
      rw [render, CountHead.run_of_break hlimit hcontinues hiterated] at h
      cases h
    | interrupt =>
      rw [render, CountHead.run_of_interrupt hlimit hcontinues hiterated, hiterated] at h
      cases h
    | continueLoop => exact absurd hiterated RenderM.iterate_ne_continue
    | done =>
      cases hnext : head.next (RenderM.iterate slot
          (Node.renderAll registry iterations children) context).context counter with
      | error cause =>
        exact .inl ((FailsHere.next hlimit hcontinues rfl hiterated hnext).of_result h)
      | ok after =>
        rw [render, CountHead.run_of_done hlimit hcontinues hiterated hnext] at h
        exact .inr ⟨_, _, _, .nextIteration hlimit hcontinues rfl hiterated hnext, h⟩

/-- When a counting loop fails between iterations, it does so by itself or in an iteration. -/
theorem failsHere_or_exists_calls_of_counts
    {head : CountHead} {slot : Nat} {children : List Node}
    {left : Nat} {counter : Int64}
    (h : ((counts head slot children left counter).render registry iterations context).result =
      .error (.failed failure)) :
    (∃ written, FailsHere registry iterations (counts head slot children left counter) context
      written failure) ∨
    ∃ written next after,
      Calls registry iterations (counts head slot children left counter) context written next
        after ∧ (next.render registry iterations after).result = .error (.failed failure) := by
  cases hlimit : head.integer .limit (context.resolve head.limit) with
  | error cause => exact .inl ((FailsHere.limit hlimit).of_result h)
  | ok limit =>
    cases hcontinues : head.continues counter limit with
    | false =>
      rw [render, CountHead.run_of_not_continues hlimit hcontinues] at h
      cases h
    | true =>
      cases left with
      | zero =>
        rw [render, CountHead.run, RenderM.context_bind, hlimit, RenderM.ofExcept_ok_bind,
          if_pos hcontinues] at h
        cases h
      | succ left => exact failsHere_or_exists_calls_of_iteration hlimit hcontinues h

/-- When a print statement fails, it does so by itself. -/
theorem failsHere_of_print {statement : Print}
    (h : ((node (.print statement)).render registry iterations context).result =
      .error (.failed failure)) :
    ∃ written, FailsHere registry iterations (node (.print statement)) context written failure := by
  have houtcome := statement.outcome_render registry context
  rw [render, Node.render] at h
  generalize statement.render registry context = outcome at h houtcome
  cases houtcome with
  | all hvalue htext => cases h
  | nothing hfails =>
    cases h
    exact ⟨_, .print hfails⟩
  | unwritable hvalue hcontainer hencoded =>
    cases h
    exact ⟨_, .unwritable hvalue hcontainer hencoded⟩

/-- When a loop over elements fails, it does so by itself or in its visits. -/
theorem failsHere_or_exists_calls_of_forRange
    {head : RangeHead} {children : List Node}
    (h : ((node (.forRange head children)).render registry iterations context).result =
      .error (.failed failure)) :
    (∃ written, FailsHere registry iterations (node (.forRange head children)) context written
      failure) ∨
    ∃ written next after,
      Calls registry iterations (node (.forRange head children)) context written next after ∧
        (next.render registry iterations after).result = .error (.failed failure) := by
  cases hsource : Variable.lookUp context.bindings head.source with
  | mk root source =>
    match root, source with
    | some root, some source =>
      cases helements : root.inspector.elements source with
      | error cause => exact .inl ((FailsHere.elements hsource helements).of_result h)
      | ok elements =>
        rw [render, Node.render, RangeHead.render_of_elements hsource helements] at h
        exact .inr ⟨_, _, _, .range hsource helements, (Rendered.result_of_map_error h :)⟩
    | some _, none | none, _ =>
      rw [render, Node.render, RangeHead.render, RenderM.context_bind] at h
      simp only [hsource] at h
      cases h

/-- A node fails by itself, or because what it owns does. -/
theorem failsHere_or_exists_calls_of_node {single : Node}
    (h : ((node single).render registry iterations context).result = .error (.failed failure)) :
    (∃ written, FailsHere registry iterations (node single) context written failure) ∨
    ∃ written next after, Calls registry iterations (node single) context written next after ∧
      (next.render registry iterations after).result = .error (.failed failure) := by
  cases single with
  | raw text | breakLoop | continueLoop | exit =>
    rw [render, Node.render] at h
    cases h
  | print statement => exact .inl (failsHere_of_print h)
  | bind statement =>
    cases hfound : statement.evaluate registry context with
    | error cause => exact .inl ((FailsHere.bind hfound).of_result h)
    | ok found =>
      rw [render, Node.render, Binding.render, RenderM.context_bind, hfound] at h
      cases h
  | counter statement =>
    cases hn : statement.evaluate context with
    | error cause => exact .inl ((FailsHere.counter hn).of_result h)
    | ok n =>
      rw [render, Node.render, Counter.render, RenderM.context_bind, hn] at h
      cases h
  | cond condition children =>
    cases hholds : condition.evaluate registry context with
    | error cause => exact .inl ((FailsHere.cond hholds).of_result h)
    | ok holds =>
      rw [render, Node.render, RenderM.context_bind, hholds, RenderM.ofExcept_ok_bind] at h
      cases hchild : children[if holds then 0 else 1]? with
      | none =>
        rw [Node.renderNth_of_none hchild] at h
        cases h
      | some child =>
        rw [Node.renderNth_of_getElem? hchild] at h
        exact .inr ⟨_, _, _, .cond hholds hchild, h⟩
  | onTrue children =>
    rw [render, Node.render] at h
    exact .inr ⟨_, _, _, .onTrue, h⟩
  | onFalse children =>
    rw [render, Node.render] at h
    exact .inr ⟨_, _, _, .onFalse, h⟩
  | case test children =>
    rw [render, Node.render] at h
    exact .inr ⟨_, _, _, .case, h⟩
  | default children =>
    rw [render, Node.render] at h
    exact .inr ⟨_, _, _, .default, h⟩
  | forRange head children => exact failsHere_or_exists_calls_of_forRange h
  | forCount head children =>
    cases hinit : head.integer .init (context.resolve head.init) with
    | error cause => exact .inl ((FailsHere.init hinit).of_result h)
    | ok counter =>
      rw [render, Node.render, CountHead.render_of_init hinit] at h
      exact .inr ⟨_, _, _, .count hinit, h⟩
  | switch subject children =>
    cases hchosen : Node.chosen? subject context children with
    | error cause => exact .inl ((FailsHere.switch hchosen).of_result h)
    | ok chosen =>
      rw [render, Node.render_switch] at h
      simp only [hchosen] at h
      cases chosen with
      | none => cases h
      | some chosen => exact .inr ⟨_, _, _, .switch hchosen, h⟩
  | divider => exact .inl (FailsHere.divider.of_result h)

/-- A site that fails does so by itself, or because what it comes to does. -/
theorem failsHere_or_exists_calls {site : Site}
    (h : (site.render registry iterations context).result = .error (.failed failure)) :
    (∃ written, FailsHere registry iterations site context written failure) ∨
    ∃ written next after, Calls registry iterations site context written next after ∧
      (next.render registry iterations after).result = .error (.failed failure) := by
  cases site with
  | node single => exact failsHere_or_exists_calls_of_node h
  | all nodes => exact .inr (exists_calls_of_failed_all h)
  | visits head inspector slot children elements => exact .inr (exists_calls_of_failed_visits h)
  | counts head slot children left counter => exact failsHere_or_exists_calls_of_counts h

/-- Every failure is one of the relation. The induction is on what is left to render. -/
theorem exists_fails {site : Site}
    (h : (site.render registry iterations context).result = .error (.failed failure)) :
    ∃ written, Fails registry iterations site context written failure := by
  induction site using size_wf.induction generalizing context with
  | _ site ih =>
    obtain ⟨written, hfails⟩ | ⟨written, next, after, hcalls, hnext⟩ := failsHere_or_exists_calls h
    · exact ⟨written, .here hfails⟩
    · obtain ⟨more, hfails⟩ := ih next hcalls.size_lt hnext
      exact ⟨written ++ more, .step hcalls hfails⟩

/-- A rendering fails with what has been completed on the way to the failure. -/
theorem failed_iff {site : Site} {written : Bytes} :
    (site.render registry iterations context).Failed written failure ↔
      Fails registry iterations site context written failure := by
  constructor
  · intro h
    obtain ⟨other, hfails⟩ := exists_fails h.result
    rw [← h.written, hfails.failed.written]
    exact hfails
  · exact Fails.failed

end Site

/-! ## Partial output -/

/-- The rendering of a registered template fails when there is none of the name, with nothing
written, or as its nodes do. -/
theorem Registry.failed_render_iff [JsonLibrary] {registry : Registry} {name : Bytes}
    {context : Context} {written : Bytes} {failure : Failure} :
    (registry.render name context).Failed written failure ↔
      (registry.templates.find? name = none ∧ written = [] ∧ failure = .templateNotFound name) ∨
      ∃ tree, registry.templates.find? name = some tree ∧
        Site.Fails registry Node.defaultIterations (.all tree.nodes) context written failure := by
  rw [Registry.render]
  cases registry.templates.find? name with
  | none =>
    constructor
    · rintro ⟨hresult, hwritten⟩
      cases hresult
      exact .inl ⟨rfl, hwritten.symm, rfl⟩
    · rintro (⟨-, rfl, rfl⟩ | ⟨tree, htree, -⟩)
      · exact ⟨rfl, rfl⟩
      · cases htree
  | some tree =>
    have hrender : ((tree.render registry >>= fun _ => pure ()) context).Failed written failure ↔
        Site.Fails registry Node.defaultIterations (.all tree.nodes) context written failure := by
      rw [RenderM.bind_pure_apply, Rendered.failed_map_iff, Tree.render, ← Site.failed_iff,
        Site.render]
    constructor
    · exact fun h => .inr ⟨tree, rfl, hrender.mp h⟩
    · rintro (⟨htree, -⟩ | ⟨other, hother, hfails⟩)
      · cases htree
      · cases hother
        exact hrender.mpr hfails

/-- What has been written when a rendering fails. A print statement writes its text before, the text
of its final value and its text after, or nothing; only when the final value is a container with a
string that is not UTF-8, the text before is written and nothing else. A rendering of nodes, or of a
registered template, that fails has written what the nodes and separators completed before the one
that fails have written, and what that one has. -/
theorem Node.partial_output [JsonLibrary] (registry : Registry) (iterations : Nat) :
    (∀ (statement : Print) (context : Context), statement.Outcome registry context
      ((print statement).render registry iterations context)) ∧
    (∀ (nodes : List Node) (context : Context) (written : Bytes) (failure : Failure),
      (renderAll registry iterations nodes context).Failed written failure ↔
        Site.Fails registry iterations (.all nodes) context written failure) ∧
    ∀ (name : Bytes) (context : Context) (written : Bytes) (failure : Failure),
      (registry.render name context).Failed written failure ↔
        (registry.templates.find? name = none ∧ written = [] ∧
          failure = .templateNotFound name) ∨
        ∃ tree, registry.templates.find? name = some tree ∧
          Site.Fails registry defaultIterations (.all tree.nodes) context written failure := by
  refine ⟨fun statement context => ?_, fun nodes context written failure => ?_,
    fun name context written failure => Registry.failed_render_iff⟩
  · rw [render]
    exact statement.outcome_render registry context
  · rw [← Site.failed_iff, Site.render]

open scoped JsonLibrary.Strict

/-- A loop that fails at its second element has written what came before it, the first element and
the separator. -/
theorem Node.partial_output_loop :
    let context := ({} : Context).assign (ascii "xs") (.arr [.str (ascii "b"), .null]) .json
    let head : RangeHead :=
      { key := [], value := ascii "x", source := ascii "xs", separator := ascii ", " }
    let nodes := [raw (ascii "a"),
      forRange head [print { value := { text := ascii "x" }, before := ascii "p" }]]
    (renderAll .standard defaultIterations nodes context).Failed (ascii "apb, ")
        (.emptyArgument (ascii "x")) ∧
      Site.Fails .standard defaultIterations (.all nodes) context (ascii "apb, ")
        (.emptyArgument (ascii "x")) := by
  intro context head nodes
  have hfailed : (renderAll .standard defaultIterations nodes context).Failed (ascii "apb, ")
      (.emptyArgument (ascii "x")) := by
    subst nodes head context
    exact ⟨by decide +kernel, by decide +kernel⟩
  exact ⟨hfailed, ((partial_output .standard defaultIterations).2.1 nodes context _ _).mp hfailed⟩

/-! ## A value without a text -/

/-- A print statement with text before and after its value. -/
def Print.framed : Print where
  value := Operand.parse (ascii "v")
  before := ascii "p"
  after := ascii "s"

/-- The tree of that template. -/
def Tree.framed : Tree := ⟨[.raw (ascii "x"), .print .framed, .raw (ascii "y")]⟩

/-- The reader reads the template as that tree. -/
theorem Reader.reads_framed :
    Reads (start (ascii "x\x7b%= v pfx 'p' sfx 's' %\x7dy"))
      { nodes := Tree.framed.nodes, depth := {}, offset := 26, rest := [] } := by
  have hprint : Statement.parse (ascii "= v pfx 'p' sfx 's' ").strip = .ok (.print .framed) := by
    decide +kernel
  have hmeets : (start (ascii "x\x7b%= v pfx 'p' sfx 's' %\x7dy")).Meets (ascii "x")
      (ascii "= v pfx 'p' sfx 's' ") (ascii "y") := ⟨rfl, _, rfl, rfl⟩
  exact .node hmeets hprint rfl (.finish rfl rfl rfl)

/-- The template is parsed as that tree. -/
theorem Tree.parse_framed :
    parse true (ascii "x\x7b%= v pfx 'p' sfx 's' %\x7dy") = .ok framed :=
  parse_of_reads rfl Reader.reads_framed

/-- Neither all nor nothing: the text before a list with a string that is not UTF-8 stays. -/
theorem Print.written_framed :
    let context := ({} : Context).assign (ascii "v") (.arr [.str [0xff]]) .json
    let outcome := framed.render .standard context
    let rendering := Tree.framed.render .standard context
    Tree.parse true (ascii "x\x7b%= v pfx 'p' sfx 's' %\x7dy") = .ok .framed ∧
      outcome.result = .error (.failed (.json .notUtf8)) ∧ outcome.written = ascii "p" ∧
      rendering.result = .error (.failed (.json .notUtf8)) ∧
      rendering.written = ascii "xp" ∧ rendering.written ≠ ascii "x" :=
  ⟨Tree.parse_framed, rfl, rfl, rfl, rfl, by decide⟩

end Stencil
