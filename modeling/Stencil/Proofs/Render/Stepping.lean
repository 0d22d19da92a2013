import Stencil.Json.Strict
import Stencil.Proofs.Render.Counting
import Stencil.Tree.Dump
import Stencil.Tree.Load

/-!
# The step of a counting loop

Whatever the body of a counting loop does, and whatever integer it leaves in the counter, that
integer plus the stride of the loop follows; when the sum is no word, the loop fails
(`Node.render_forCount_steps`). Nothing that is computed on the way leaves the words, unless the
loop takes the least word down: that word has no opposite, and the loop counts from zero down to a
negative word where it should fail (`Tree.counts_to_least`).
-/

set_option autoImplicit false

namespace Stencil

namespace CountHead

/-- The step of a loop is computed in words, and none of it leaves them: the increment denotes the
stride, and it is added behind the guard. -/
structure StepIsExact [JsonLibrary] (head : CountHead) : Prop where
  increment_eq : head.increment.toInt = head.stride
  next_eq : ∀ context counter, head.next context counter = do
    let current ← head.current context counter
    if Word.overflows current head.increment then .error (.loopCounterOverflow head.counter)
    else .ok (current + head.increment)
  sum_exact : ∀ current, Word.SumIsExact current head.increment

/-- An iteration after which its loop goes on leaves an integer in the counter. -/
structure Leaves [JsonLibrary] (head : CountHead) (inspector : Inspector) (entered : Table Variable)
    (iteration : Effect Flow) (current : Int64) : Prop where
  goesOn : iteration.goesOn = true
  current_eq : ∀ counter : Int64,
    entered.find? head.counter = some { value := Json.ofWord counter, inspector } →
      head.current { bindings := iteration.bindings } counter = .ok current

/-- A loop steps, when its iterations begin with given variables: each begins with a word in the
counter; after one that leaves an integer in the counter, the variables are those that it leaves,
with the integer one stride further in the counter; and when that integer is no word, the iteration
is the last one and the loop fails. -/
structure Steps [JsonLibrary] (head : CountHead) (inspector : Inspector)
    (body : Table Variable → Effect Flow) (entries : List (Table Variable)) (course : Course) :
    Prop where
  iterations_eq : course.iterations = entries.map body
  counter_eq : ∀ entered ∈ entries, ∃ counter : Int64,
    entered.find? head.counter = some { value := Json.ofWord counter, inspector }
  steps : ∀ (index : Nat) (entered : Table Variable) (current : Int64),
    entries[index]? = some entered → head.Leaves inspector entered (body entered) current →
    Word.fits (current.toInt + head.stride) = true →
      (entries ++ [course.bindings])[index + 1]? = some ((body entered).bindings.insert head.counter
        { value := .int (current.toInt + head.stride), inspector })
  overflows : ∀ (index : Nat) (entered : Table Variable) (current : Int64),
    entries[index]? = some entered → head.Leaves inspector entered (body entered) current →
    Word.fits (current.toInt + head.stride) = false →
      entries.length = index + 1 ∧
        course.result = .error (.failed (.loopCounterOverflow head.counter))

variable {head : CountHead} {inspector : Inspector} {body : Table Variable → Effect Flow}
  {bindings : Table Variable} {counter current : Int64} {context : Context}

/-! ## One step -/

/-- The steps of a loop are exact, unless it counts down by the least word. -/
theorem stepIsExact [JsonLibrary]
    (hleast : head.direction = .decrement → head.step ≠ Int64.minValue) :
    head.StepIsExact where
  increment_eq := toInt_increment hleast
  next_eq := by
    intro context counter
    rw [next_eq_bind]
    congr 1
    funext current
    rw [advance, Word.add?_eq_guarded]
    cases Word.overflows current head.increment <;> rfl
  sum_exact := fun current => Word.sumIsExact current head.increment

/-! ## A run of steps -/

namespace Steps

/-- A loop that begins no iteration. -/
theorem nil [JsonLibrary] (result : Except Stop Flow) :
    head.Steps inspector body [] (.ended bindings result) :=
  ⟨rfl, by simp, by simp, by simp⟩

/-- An iteration that is the last one: if the loop was to go on after it, it fails since the integer
that follows is no word. -/
theorem singleton [JsonLibrary] {result : Except Stop Flow}
    (hvalue : bindings.find? head.counter = some { value := Json.ofWord counter, inspector })
    (hends : ∀ current, head.Leaves inspector bindings (body bindings) current →
      Word.fits (current.toInt + head.stride) = false ∧
        result = .error (.failed (.loopCounterOverflow head.counter))) :
    head.Steps inspector body [bindings] (.last (body bindings) result) := by
  refine ⟨rfl, ?_, ?_, ?_⟩
  · intro entered hentered
    obtain rfl : entered = bindings := by simpa using hentered
    exact ⟨counter, hvalue⟩
  · rintro (_ | index) entered current hentered hleaves hfits
    · obtain rfl : bindings = entered := by simpa using hentered
      rw [(hends current hleaves).1] at hfits
      cases hfits
    · simp at hentered
  · rintro (_ | index) entered current hentered hleaves _
    · obtain rfl : bindings = entered := by simpa using hentered
      exact ⟨rfl, (hends current hleaves).2⟩
    · simp at hentered

/-- An iteration before those of a loop that steps from its successor on. -/
theorem cons [JsonLibrary] {rest : List (Table Variable)} {course : Course} {after : Table Variable}
    (hvalue : bindings.find? head.counter = some { value := Json.ofWord counter, inspector })
    (hafter : (rest ++ [course.bindings])[0]? = some after)
    (hstep : ∀ current, head.Leaves inspector bindings (body bindings) current →
      Word.fits (current.toInt + head.stride) = true ∧
        after = (body bindings).bindings.insert head.counter
          { value := .int (current.toInt + head.stride), inspector })
    (hrest : head.Steps inspector body rest course) :
    head.Steps inspector body (bindings :: rest) (.cons (body bindings) course) := by
  refine ⟨?_, ?_, ?_, ?_⟩
  · show body bindings :: course.iterations = _
    rw [hrest.iterations_eq, List.map_cons]
  · intro entered hentered
    obtain rfl | hmem := List.mem_cons.mp hentered
    · exact ⟨counter, hvalue⟩
    · exact hrest.counter_eq entered hmem
  · rintro (_ | index) entered current hentered hleaves hfits
    · obtain rfl : bindings = entered := by simpa using hentered
      rw [List.cons_append, List.getElem?_cons_succ, ← (hstep current hleaves).2]
      exact hafter
    · exact hrest.steps index entered current (by simpa using hentered) hleaves hfits
  · rintro (_ | index) entered current hentered hleaves hfits
    · obtain rfl : bindings = entered := by simpa using hentered
      rw [(hstep current hleaves).1] at hfits
      cases hfits
    · obtain ⟨hlength, hresult⟩ :=
        hrest.overflows index entered current (by simpa using hentered) hleaves hfits
      exact ⟨by rw [List.length_cons, hlength], hresult⟩

end Steps

/-- A run of a loop steps, from a word in the counter on. -/
theorem Runs.steps [JsonLibrary] (hleast : head.direction = .decrement → head.step ≠ Int64.minValue)
    {left : Nat} {entries : List (Table Variable)} {course : Course}
    (h : head.Runs inspector body left counter bindings entries course)
    (hvalue : bindings.find? head.counter = some { value := Json.ofWord counter, inspector }) :
    head.Steps inspector body entries course := by
  induction h with
  | limit | test | exhausted => exact .nil _
  | body _ _ hstops =>
    refine .singleton hvalue fun current hleaves => ?_
    rw [hleaves.goesOn] at hstops
    cases hstops
  | counter _ _ _ hnext =>
    refine .singleton hvalue fun current hleaves => ?_
    obtain ⟨after, hafter, -⟩ | ⟨hoverflow, hfits⟩ :=
      next_cases hleast (hleaves.current_eq _ hvalue)
    · cases hafter.symm.trans hnext
    · cases hoverflow.symm.trans hnext
      exact ⟨hfits, rfl⟩
  | @next _ _ after _ _ _ _ _ _ _ hnext hrest ih =>
    refine .cons hvalue hrest.begins (fun current hleaves => ?_)
      (ih (Table.find?_insert_self _ _ _))
    obtain ⟨sum, hsum, hexact⟩ | ⟨hoverflow, -⟩ := next_cases hleast (hleaves.current_eq _ hvalue)
    · obtain rfl : sum = after := Except.ok.inj (hsum.symm.trans hnext)
      rw [← hexact]
      exact ⟨Word.fits_toInt sum, rfl⟩
    · cases hoverflow.symm.trans hnext

/-- The iterations of a loop are the steps of its counter, unless it counts down by the least
word. -/
theorem steps_course [JsonLibrary]
    (hleast : head.direction = .decrement → head.step ≠ Int64.minValue) (registry : Registry)
    (iterations : Nat) (body : Table Variable → Effect Flow) (bindings : Table Variable) :
    head.Steps (Inspector.general registry.inspectors) body
      (head.entries registry iterations body bindings)
      (head.course registry iterations body bindings) := by
  rw [entries, course]
  cases head.integer .init (Context.resolve { bindings } head.init) with
  | error failure => exact .nil _
  | ok counter =>
    exact (runs_courseFrom head _ body iterations counter _).steps hleast
      (Table.find?_insert_self _ _ _)

end CountHead

/-- A counting loop never wraps, unless it takes the least word down. Whatever its body does: when
an iteration after which the loop goes on leaves an integer in the counter, the next integer is the
one a stride further, and when that is no word the loop fails with a conversion error. The opposite
of the step, the differences in the guard and the sum are all words. -/
theorem Node.render_forCount_steps [JsonLibrary] (registry : Registry) (iterations : Nat)
    {head : CountHead} {children : List Node} {context : Context} (hbounds : context.arena.InBounds)
    (hleast : head.direction = .decrement → head.step ≠ Int64.minValue) :
    let body := (renderAll registry iterations children).effectOn
    let course := head.course registry iterations body context.bindings
    ((forCount head children).render registry iterations context).effect =
        course.effect head.separator ∧
      head.Steps (Inspector.general registry.inspectors) body
        (head.entries registry iterations body context.bindings) course ∧
      (Failure.loopCounterOverflow head.counter).code? = some .conversion ∧
      head.StepIsExact := by
  intro body course
  refine ⟨?_, head.steps_course hleast registry iterations body context.bindings, rfl,
    head.stepIsExact hleast⟩
  rw [render]
  exact head.effect_render registry iterations (steady_renderAll registry iterations children)
    hbounds

/-- The head of a loop that takes the greatest word from its counter. -/
def CountHead.byGreatest : CountHead where
  counter := ascii "i"
  init := Operand.parse (ascii "0")
  test := .notEqual
  limit := Operand.parse (ascii "1")
  direction := .decrement
  step := Int64.maxValue
  separator := ascii ", "

open scoped JsonLibrary.Strict

/-- The greatest word can be taken from zero once; taking it once more is an overflow. -/
theorem Node.render_byGreatest :
    let nodes := [raw (ascii "x")]
    let rendered := (forCount .byGreatest nodes).render {} defaultIterations {}
    let body := (renderAll {} defaultIterations nodes).effectOn
    let entries := CountHead.byGreatest.entries {} defaultIterations body ({} : Context).bindings
    (CountHead.byGreatest.direction = .decrement →
      CountHead.byGreatest.step ≠ Int64.minValue) ∧
      entries.map (fun bindings => Context.find? { bindings } (ascii "i")) =
        [some (.int 0), some (.int (-9223372036854775807))] ∧
      rendered.written = ascii "x, x" ∧
      rendered.result = .error (.failed (.loopCounterOverflow (ascii "i"))) := by
  intro nodes rendered body entries
  have hleast : CountHead.byGreatest.direction = .decrement →
      CountHead.byGreatest.step ≠ Int64.minValue := fun _ => by decide
  obtain ⟨heffect, hsteps, -, -⟩ :=
    @render_forCount_steps _ {} defaultIterations .byGreatest nodes {} LoopArena.inBounds_empty
      hleast
  obtain ⟨hwritten, -, hresult⟩ := Rendered.effect_eq_iff.mp heffect
  let second : Table Variable :=
    [(ascii "i", { value := .int (-9223372036854775807), inspector := .json })]
  have hleaves : CountHead.byGreatest.Leaves .json second (body second) (-9223372036854775807) :=
    ⟨rfl, fun _ _ => rfl⟩
  obtain ⟨-, hended⟩ := hsteps.overflows 1 second _ rfl hleaves (by decide +kernel)
  refine ⟨hleast, rfl, ?_, hresult.trans hended⟩
  rw [hwritten, Course.effect, Course.texts, hsteps.iterations_eq]
  rfl

/-! ## The least word -/

/-- A loop that takes the least word from its counter while that is equal to a variable. -/
def Tree.countingToLeast : Tree :=
  ⟨[.forCount
    { counter := ascii "i", init := Operand.parse (ascii "0"), test := .equal,
      limit := Operand.parse (ascii "n"), direction := .decrement, step := Int64.minValue,
      separator := [] }
    [.raw (ascii "x")]]⟩

/-- The least word taken from zero is no word, and yet the loop goes on with a counter, which is the
least word. -/
theorem Tree.counts_to_least :
    let context := ({} : Context).assign (ascii "n") (.int 0) .json
    let rendered := countingToLeast.render Registry.standard context
    Tree.ofJson countingToLeast.toJson = .ok countingToLeast ∧
      Word.fits (0 - Int64.minValue.toInt) = false ∧
      rendered.written = ascii "x" ∧ rendered.result = .ok .done ∧
      rendered.context.find? (ascii "i") = some (.int Int64.minValue.toInt) :=
  ⟨rfl, by decide, rfl, rfl, rfl⟩

end Stencil
