import Stencil.Json.Strict
import Stencil.Proofs.Render.Running

/-!
# The output of a loop is a join

Which iterations the course of a loop has: they follow one another on the variables, and those of a
loop over elements are visits of the elements in order. With the effect of a loop being that of its
course, its output is the join of what its iterations write (`Node.render_loop_eq_course`).
-/

set_option autoImplicit false

namespace Stencil

/-- Iterations one after another. Each is the body on the variables that the one before has left, or
those at the start, once `binds` has bound its own; all but the last go on. -/
structure Consecutive (body : Table Variable → Effect Flow)
    (binds : Nat → Table Variable → Table Variable → Prop) (start : Table Variable)
    (iterations : List (Effect Flow)) : Prop where
  runs : ∀ index iteration, iterations[index]? = some iteration →
    ∃ before entered, (start :: iterations.map Effect.bindings)[index]? = some before ∧
      binds index before entered ∧ iteration = body entered
  goesOn : ∀ index iteration, iterations[index]? = some iteration →
    index + 1 < iterations.length → iteration.goesOn = true

namespace Consecutive

variable {body : Table Variable → Effect Flow}
  {binds : Nat → Table Variable → Table Variable → Prop} {start entered : Table Variable}

/-- Without iterations there is nothing to say. -/
theorem nil : Consecutive body binds start [] := ⟨by simp, by simp⟩

/-- One iteration needs its variables only. -/
theorem singleton (hbinds : binds 0 start entered) :
    Consecutive body binds start [body entered] := by
  refine ⟨?_, by simp⟩
  rintro (_ | index) iteration hiteration
  · obtain rfl : body entered = iteration := by simpa using hiteration
    exact ⟨start, entered, rfl, hbinds, rfl⟩
  · simp at hiteration

/-- An iteration that goes on stands before those that follow from its variables. -/
theorem cons {rest : List (Effect Flow)} (hbinds : binds 0 start entered)
    (hgoes : (body entered).goesOn = true)
    (hrest : Consecutive body (fun index => binds (index + 1)) (body entered).bindings rest) :
    Consecutive body binds start (body entered :: rest) := by
  constructor
  · rintro (_ | index) iteration hiteration
    · obtain rfl : body entered = iteration := by simpa using hiteration
      exact ⟨start, entered, rfl, hbinds, rfl⟩
    · exact hrest.runs index iteration (by simpa using hiteration)
  · rintro (_ | index) iteration hiteration hlater
    · obtain rfl : body entered = iteration := by simpa using hiteration
      exact hgoes
    · exact hrest.goesOn index iteration (by simpa using hiteration) (by simpa using hlater)

end Consecutive

/-- The visits of a loop: they follow the elements in order, and there are fewer of them than
elements only when the last one does not go on. -/
structure RangeHead.Visits (head : RangeHead) (inspector : Inspector)
    (body : Table Variable → Effect Flow) (elements : List (Json × Json))
    (start : Table Variable) (iterations : List (Effect Flow)) : Prop where
  consecutive : Consecutive body
    (fun index before entered => ∃ element, elements[index]? = some element ∧
      entered = head.bindElement inspector element before) start iterations
  stops : iterations.length < elements.length →
    ∃ last, iterations.getLast? = some last ∧ last.goesOn = false

/-- The course over given elements visits them. -/
theorem RangeHead.visits_courseOver (head : RangeHead) (inspector : Inspector)
    (body : Table Variable → Effect Flow) (elements : List (Json × Json))
    (start : Table Variable) :
    head.Visits inspector body elements start
      (head.courseOver inspector body elements start).iterations := by
  induction elements generalizing start with
  | nil => exact ⟨.nil, by simp [courseOver, Course.ended]⟩
  | cons element rest ih =>
    rw [courseOver]
    cases hgoes : (body (head.bindElement inspector element start)).goesOn with
    | false => exact ⟨.singleton ⟨element, rfl, rfl⟩, fun _ => ⟨_, rfl, hgoes⟩⟩
    | true =>
      obtain ⟨hconsecutive, hstops⟩ :=
        ih (body (head.bindElement inspector element start)).bindings
      refine ⟨.cons ⟨element, rfl, rfl⟩ hgoes hconsecutive, ?_⟩
      intro hfewer
      obtain ⟨last, hlast, hended⟩ := hstops (by simpa [Course.cons] using hfewer)
      refine ⟨last, ?_, hended⟩
      simp [Course.cons, List.getLast?_cons, hlast]

/-- The iterations of a run: each one begins with the counter bound. -/
theorem CountHead.Runs.consecutive [JsonLibrary] {head : CountHead} {inspector : Inspector}
    {body : Table Variable → Effect Flow} {left : Nat} {counter : Int64}
    {bindings start : Table Variable} {entries : List (Table Variable)} {course : Course}
    (h : head.Runs inspector body left counter bindings entries course)
    (hbindings : bindings =
      start.insert head.counter { value := Json.ofWord counter, inspector }) :
    Consecutive body
      (fun _ before entered => ∃ counter,
        entered = before.insert head.counter { value := Json.ofWord counter, inspector })
      start course.iterations := by
  induction h generalizing start with
  | limit | test | exhausted => exact .nil
  | body | counter => exact .singleton ⟨_, hbindings⟩
  | next _ _ hgoes _ _ ih => exact .cons ⟨_, hbindings⟩ hgoes (ih rfl)

/-- The iterations of a counting loop follow one another, each with the counter bound anew. -/
theorem CountHead.consecutive_courseFrom [JsonLibrary] (head : CountHead) (inspector : Inspector)
    (body : Table Variable → Effect Flow) (iterations : Nat) (counter : Int64)
    (start : Table Variable) :
    Consecutive body
      (fun _ before entered => ∃ counter,
        entered = before.insert head.counter { value := Json.ofWord counter, inspector })
      start
      (head.courseFrom inspector body iterations counter
        (start.insert head.counter { value := Json.ofWord counter, inspector })).iterations :=
  (head.runs_courseFrom inspector body iterations counter _).consecutive rfl

/-- What a loop over a value visits: the items of an array with their indices, the fields of an
object with their keys, and nothing of any other value. -/
def Json.entries : Json → List (Json × Json)
  | .arr items => items.zipIdx.map fun (item, index) => (.int index, item)
  | .obj fields => fields.map fun (key, value) => (.str key, value)
  | _ => []

/-- The general inspector lists the entries of a value. -/
theorem Inspector.elements_json [JsonLibrary] (source : Json) :
    json.elements source = .ok source.entries := by
  cases source <;> rfl

/-- The output of a loop is an exact join. In any context whose arena is in bounds, whatever its
slots hold, a loop has the effect of its course: the texts of the iterations with the separator
between them, and nothing else. The iterations are the body on variables alone, one after another,
until one does not go on; those of a loop over a value that was bound through the general inspector
visit the entries that the value has when the loop begins, in order and each once. -/
theorem Node.render_loop_eq_course [JsonLibrary] (registry : Registry) (iterations : Nat)
    (children : List Node) {context : Context} (hbounds : context.arena.InBounds) :
    (∀ head : RangeHead,
      ((forRange head children).render registry iterations context).effect =
        (head.course (renderAll registry iterations children).effectOn
          context.bindings).effect head.separator) ∧
    (∀ head : CountHead,
      ((forCount head children).render registry iterations context).effect =
        (head.course registry iterations (renderAll registry iterations children).effectOn
          context.bindings).effect head.separator) ∧
    (∀ (head : RangeHead) (root : Variable) (source : Json),
      Variable.lookUp context.bindings head.source = (some root, some source) →
        root.inspector = Inspector.json →
          head.Visits Inspector.json (renderAll registry iterations children).effectOn
            source.entries context.bindings
            (head.course (renderAll registry iterations children).effectOn
              context.bindings).iterations) ∧
    (∀ head : CountHead,
      Consecutive (renderAll registry iterations children).effectOn
        (fun _ before entered => ∃ counter, entered = before.insert head.counter
          { value := Json.ofWord counter, inspector := Inspector.general registry.inspectors })
        context.bindings
        (head.course registry iterations (renderAll registry iterations children).effectOn
          context.bindings).iterations) := by
  have hbody := steady_renderAll registry iterations children
  refine ⟨?_, ?_, ?_, ?_⟩
  · intro head
    rw [render]
    exact head.effect_render hbody hbounds
  · intro head
    rw [render]
    exact head.effect_render registry iterations hbody hbounds
  · intro head root source hsource hinspector
    have hcourse := head.visits_courseOver Inspector.json
      (renderAll registry iterations children).effectOn source.entries context.bindings
    rw [RangeHead.course, hsource]
    simpa only [hinspector, Inspector.elements_json] using hcourse
  · intro head
    rw [CountHead.course]
    cases head.integer .init (Context.resolve { bindings := context.bindings } head.init) with
    | error failure => exact .nil
    | ok counter => exact head.consecutive_courseFrom _ _ iterations counter context.bindings

/-- Words in groups, one of them empty, in a context that a loop has left. -/
def Context.grouped [JsonLibrary] : Context where
  bindings :=
    [(ascii "groups",
      { value := .arr [.arr [.str (ascii "a"), .str (ascii "b")], .arr [],
          .arr [.str (ascii "c")]]
        inspector := Inspector.json })]
  arena := { slots := [{ begun := 3, separator := ascii ";" }], depth := 0 }

/-- The head of a loop over a variable. -/
def RangeHead.over (value source separator : String) : RangeHead where
  key := []
  value := ascii value
  source := ascii source
  separator := ascii separator

open scoped JsonLibrary.Strict

/-- A loop over the groups with a loop over their words inside: the empty group counts, and the loop
inside does not change the count of the one around it. -/
theorem Node.render_grouped :
    Context.grouped.arena.InBounds ∧
      ((forRange (.over "group" "groups" ", ")
        [forRange (.over "word" "group" "-") [print { value := { text := ascii "word" } }]]).render
          {} 0 Context.grouped).written = ascii "a-b, , c" := by
  have hbounds : Context.grouped.arena.InBounds := Nat.zero_le 1
  have hcourse := (render_loop_eq_course {} 0
    [forRange (.over "word" "group" "-") [print { value := { text := ascii "word" } }]]
    hbounds).1 (.over "group" "groups" ", ")
  exact ⟨hbounds, (congrArg Effect.written hcourse).trans rfl⟩

end Stencil
