import Stencil.Json.Strict
import Stencil.Proofs.Number.Rounding
import Stencil.Proofs.Render.IfChain
import Stencil.Proofs.Render.Running
import Stencil.Proofs.Render.Shape

/-!
# Counting loops count

The iterations of a counting loop whose body disturbs neither the counter nor the limit begin with
the integers from the first one on, one step after another, and the loop ends at the first of them
that fails its test, or at the first that is no word (`Node.render_forCount_counts`). The test is of
the floating point numbers nearest to the counter and the limit; it is that of the integers when the
limit is below `2 ^ 53` in absolute value, and it can fail where the integers pass when it is not
(`Source.renders_nothing`).
-/

set_option autoImplicit false

namespace Stencil

namespace CountHead

/-! ## Steps -/

/-- The integer that the counter comes to in so many steps. -/
def value (head : CountHead) (first : Int) (steps : Nat) : Int := first + steps * head.stride

variable {head : CountHead}

/-- Without a step the counter is where it began. -/
theorem value_zero (first : Int) : head.value first 0 = first := by simp [value]

/-- The first step moves where the counter begins. -/
theorem value_succ (first : Int) (steps : Nat) :
    head.value first (steps + 1) = head.value (first + head.stride) steps := by
  rw [value, value, Int.natCast_succ, Int.add_mul, Int.one_mul]
  omega

/-- So many steps as there are words lead out of the words. -/
theorem not_fits_value (hstep : 1 ≤ head.step.toInt) (first : Int64) {steps : Nat}
    (hsteps : 2 ^ 64 ≤ steps) : Word.fits (head.value first.toInt steps) = false := by
  have hlow := first.le_toInt
  have hhigh := first.toInt_lt
  have hfar : (steps : Int) ≤ steps * head.step.toInt := by
    calc (steps : Int) = steps * 1 := (Int.mul_one _).symm
      _ ≤ steps * head.step.toInt := Int.mul_le_mul_of_nonneg_left hstep (by omega)
  rw [value, stride]
  split
  · rw [Int.mul_neg]
    simp [Word.fits]
    omega
  · simp [Word.fits]
    omega

/-! ## Iterations -/

/-- An iteration spares its loop: it ends normally or by a continue, and leaves the counter and the
limit as they were. -/
structure Spares (head : CountHead) (entered : Table Variable) (iteration : Effect Flow) :
    Prop where
  goesOn : iteration.goesOn = true
  counter_eq : Context.find? { bindings := iteration.bindings } head.counter =
    Context.find? { bindings := entered } head.counter
  limit_eq : Context.resolve { bindings := iteration.bindings } head.limit =
    Context.resolve { bindings := entered } head.limit

/-- A loop counts, by a given test, from an integer on: its iterations begin with the integers that
pass the test, one step after another; it ends normally at the first one that does not pass, which
the counter holds afterwards, and it fails only when an integer is to follow that is no word. -/
structure Counts (head : CountHead) (body : Table Variable → Effect Flow) (passes : Int → Bool)
    (first : Int) (entries : List (Table Variable)) (course : Course) : Prop where
  iterations_eq : course.iterations = entries.map body
  counter_eq : ∀ index entered, entries[index]? = some entered →
    Context.find? { bindings := entered } head.counter = some (.int (head.value first index))
  passes_value : ∀ index < entries.length, passes (head.value first index) = true
  ends : Word.fits (head.value first entries.length) = true →
    passes (head.value first entries.length) = false ∧ course.result = .ok .done ∧
      Context.find? { bindings := course.bindings } head.counter =
        some (.int (head.value first entries.length))
  overflows : Word.fits (head.value first entries.length) = false →
    course.result = .error (.failed (.loopCounterOverflow head.counter))

namespace Counts

variable {body : Table Variable → Effect Flow} {passes : Int → Bool} {bindings : Table Variable}
  {counter : Int64}

/-- A loop whose counter fails the test at once. -/
theorem nil
    (hvalue : Context.find? { bindings } head.counter = some (Json.ofWord counter))
    (hfails : passes counter.toInt = false) :
    head.Counts body passes counter.toInt [] (.ended bindings (.ok .done)) := by
  refine ⟨rfl, by simp, by simp, ?_, ?_⟩
  · intro _
    rw [List.length_nil, value_zero]
    exact ⟨hfails, rfl, hvalue⟩
  · intro hfits
    rw [List.length_nil, value_zero, Word.fits_toInt] at hfits
    cases hfits

/-- A loop that overflows after one iteration. -/
theorem singleton
    (hvalue : Context.find? { bindings } head.counter = some (Json.ofWord counter))
    (hpasses : passes counter.toInt = true)
    (hfits : Word.fits (counter.toInt + head.stride) = false) :
    head.Counts body passes counter.toInt [bindings]
      (.last (body bindings) (.error (.failed (.loopCounterOverflow head.counter)))) := by
  have hsecond : head.value counter.toInt 1 = counter.toInt + head.stride := by simp [value]
  refine ⟨rfl, ?_, ?_, ?_, fun _ => rfl⟩
  · rintro (_ | index) entered hentered
    · obtain rfl : bindings = entered := by simpa using hentered
      rw [value_zero]
      exact hvalue
    · simp at hentered
  · intro index hindex
    obtain rfl : index = 0 := by simpa using hindex
    rw [value_zero]
    exact hpasses
  · intro hfits'
    rw [List.length_singleton, hsecond, hfits] at hfits'
    cases hfits'

/-- An iteration before those of a loop that counts from the next integer on. -/
theorem cons {after : Int64} {rest : List (Table Variable)} {course : Course}
    (hvalue : Context.find? { bindings } head.counter = some (Json.ofWord counter))
    (hpasses : passes counter.toInt = true) (hafter : after.toInt = counter.toInt + head.stride)
    (hrest : head.Counts body passes after.toInt rest course) :
    head.Counts body passes counter.toInt (bindings :: rest) (.cons (body bindings) course) := by
  have hsucc : ∀ steps, head.value counter.toInt (steps + 1) = head.value after.toInt steps := by
    intro steps
    rw [value_succ, hafter]
  refine ⟨?_, ?_, ?_, ?_, ?_⟩
  · show body bindings :: course.iterations = _
    rw [hrest.iterations_eq, List.map_cons]
  · rintro (_ | index) entered hentered
    · obtain rfl : bindings = entered := by simpa using hentered
      rw [value_zero]
      exact hvalue
    · rw [hsucc]
      exact hrest.counter_eq index entered (by simpa using hentered)
  · rintro (_ | index) hindex
    · rw [value_zero]
      exact hpasses
    · rw [hsucc]
      exact hrest.passes_value index (by simpa using hindex)
  · rw [List.length_cons, hsucc]
    exact hrest.ends
  · rw [List.length_cons, hsucc]
    exact hrest.overflows

end Counts

/-! ## Counting from a counter on -/

section Run

variable {inspector : Inspector} {body : Table Variable → Effect Flow}

/-- A value with a word is the integer that a part of a loop needs. -/
theorem integer_of_toWord? [JsonLibrary] {value : Json} {n : Int64} (h : value.toWord? = some n)
    (part : LoopPart) : head.integer part value = .ok n := by
  rw [integer, h]

/-- Binding the counter leaves the limit as it was, unless the limit looks into the counter. -/
theorem resolve_limit_insert
    (hapart : head.limit.isStatic = true ∨ Variable.rootName head.limit.text ≠ head.counter)
    (bindings : Table Variable) (found : Variable) :
    Context.resolve { bindings := bindings.insert head.counter found } head.limit =
      Context.resolve { bindings } head.limit := by
  rw [Context.resolve, Context.resolve]
  rcases hapart with hstatic | hroot
  · rw [if_pos hstatic, if_pos hstatic]
  · rw [Context.find?, Context.find?,
      Variable.lookUp_congr (Table.find?_insert_of_ne bindings found hroot)]

/-- A run counts from its counter on, when its iterations spare the loop and it may begin enough of
them: so many steps lead out of the words. -/
theorem Runs.counts [JsonLibrary] {limit : Int64} (hcounter : Byte.dot ∉ head.counter)
    (hstep : 1 ≤ head.step.toInt)
    (hapart : head.limit.isStatic = true ∨ Variable.rootName head.limit.text ≠ head.counter)
    {left : Nat} {counter : Int64} {bindings : Table Variable} {entries : List (Table Variable)}
    {course : Course} (h : head.Runs inspector body left counter bindings entries course)
    (hvalue : Context.find? { bindings } head.counter = some (Json.ofWord counter))
    (hlimit : (Context.resolve { bindings } head.limit).toWord? = some limit)
    (hleft : Word.fits (head.value counter.toInt left) = false)
    (hbody : ∀ entered ∈ entries, head.Spares entered (body entered)) :
    head.Counts body
      (fun n => head.test.holdsReal (Binary64.ofInt n) (Binary64.ofInt limit.toInt)) counter.toInt
      entries course := by
  have hread : ∀ {bindings : Table Variable} {found : Int64},
      (Context.resolve { bindings } head.limit).toWord? = some limit →
        head.integer .limit (Context.resolve { bindings } head.limit) = .ok found →
          found = limit := by
    intro bindings found hlimit hfound
    exact Except.ok.inj (hfound.symm.trans (integer_of_toWord? hlimit .limit))
  induction h with
  | limit hfails => cases hfails.symm.trans (integer_of_toWord? hlimit .limit)
  | test hfound htest =>
    obtain rfl := hread hlimit hfound
    exact .nil hvalue htest
  | exhausted =>
    rw [value_zero, Word.fits_toInt] at hleft
    cases hleft
  | body _ _ hstops =>
    rw [(hbody _ (.head _)).goesOn] at hstops
    cases hstops
  | @counter _ counter _ _ _ hfound htest _ hnext =>
    obtain rfl := hread hlimit hfound
    have hcurrent := current_of_find? ((hbody _ (.head _)).counter_eq.trans hvalue) counter
    obtain ⟨after, hafter, -⟩ | ⟨hoverflow, hfits⟩ :=
      next_cases (fun _ => step_ne_minValue hstep) hcurrent
    · cases hafter.symm.trans hnext
    · cases hoverflow.symm.trans hnext
      exact .singleton hvalue htest hfits
  | @next _ counter after _ _ _ _ hfound htest _ hnext _ ih =>
    obtain rfl := hread hlimit hfound
    have hspares := hbody _ (.head _)
    have hcurrent := current_of_find? (hspares.counter_eq.trans hvalue) counter
    obtain ⟨sum, hsum, hexact⟩ | ⟨hoverflow, -⟩ :=
      next_cases (fun _ => step_ne_minValue hstep) hcurrent
    · obtain rfl : sum = after := Except.ok.inj (hsum.symm.trans hnext)
      refine .cons hvalue htest hexact
        (ih ?_ ?_ ?_ fun entered hmem => hbody entered (.tail _ hmem))
      · rw [Context.find?_of_notMem _ hcounter, Table.find?_insert_self]
        rfl
      · rw [resolve_limit_insert hapart, hspares.limit_eq]
        exact hlimit
      · rw [hexact, ← value_succ]
        exact hleft
    · cases hoverflow.symm.trans hnext

/-- The iterations that a loop has left count from its counter on. -/
theorem counts_courseFrom [JsonLibrary] {limit : Int64} (hcounter : Byte.dot ∉ head.counter)
    (hstep : 1 ≤ head.step.toInt)
    (hapart : head.limit.isStatic = true ∨ Variable.rootName head.limit.text ≠ head.counter)
    (left : Nat) (counter : Int64) (bindings : Table Variable)
    (hvalue : Context.find? { bindings } head.counter = some (Json.ofWord counter))
    (hlimit : (Context.resolve { bindings } head.limit).toWord? = some limit)
    (hleft : Word.fits (head.value counter.toInt left) = false)
    (hbody : ∀ entered ∈ head.entriesFrom inspector body left counter bindings,
      head.Spares entered (body entered)) :
    head.Counts body
      (fun n => head.test.holdsReal (Binary64.ofInt n) (Binary64.ofInt limit.toInt)) counter.toInt
      (head.entriesFrom inspector body left counter bindings)
      (head.courseFrom inspector body left counter bindings) :=
  (runs_courseFrom head inspector body left counter bindings).counts hcounter hstep hapart hvalue
    hlimit hleft hbody

end Run

end CountHead

/-- A counting loop counts. In any context where the first value and the limit are words, and the
limit does not look into the counter, let every iteration that the loop begins end normally or by a
continue and leave the counter and the limit as they are. Then the loop writes the join of its
iterations; they begin with the integers that pass the test, one step after another; and the loop
ends normally at the first one that does not, which the counter then holds, unless an integer is to
follow that is no word: only then it fails, since its counter overflows. The test is of the floating
point numbers nearest to the integers, and of the integers themselves when the limit is below
`2 ^ 53` in absolute value. -/
theorem Node.render_forCount_counts [JsonLibrary] (registry : Registry) {iterations : Nat}
    {head : CountHead} {children : List Node} {context : Context} {first limit : Int64}
    (hbounds : context.arena.InBounds) (hiterations : 2 ^ 64 ≤ iterations)
    (hcounter : Byte.dot ∉ head.counter) (hstep : 1 ≤ head.step.toInt)
    (hfirst : (context.resolve head.init).toWord? = some first)
    (hlimit : (context.resolve head.limit).toWord? = some limit)
    (hapart : head.limit.isStatic = true ∨ Variable.rootName head.limit.text ≠ head.counter)
    (hspares : ∀ entered ∈ head.entries registry iterations
      (renderAll registry iterations children).effectOn context.bindings,
      head.Spares entered ((renderAll registry iterations children).effectOn entered)) :
    let body := (renderAll registry iterations children).effectOn
    let course := head.course registry iterations body context.bindings
    let entries := head.entries registry iterations body context.bindings
    ((forCount head children).render registry iterations context).effect =
        course.effect head.separator ∧
      head.Counts body
        (fun n => head.test.holdsReal (Binary64.ofInt n) (Binary64.ofInt limit.toInt))
        first.toInt entries course ∧
      (limit.toInt.natAbs < 2 ^ 53 →
        head.Counts body (fun n => head.test.holdsInt n limit.toInt)
          first.toInt entries course) := by
  intro body course entries
  have hbody : (renderAll registry iterations children).Steady :=
    steady_renderAll registry iterations children
  have hfirst' :
      (Context.resolve { bindings := context.bindings } head.init).toWord? = some first := hfirst
  have hcounts : head.Counts body
      (fun n => head.test.holdsReal (Binary64.ofInt n) (Binary64.ofInt limit.toInt))
      first.toInt entries course := by
    simp only [course, entries, CountHead.course, CountHead.entries,
      CountHead.integer_of_toWord? hfirst'] at hspares ⊢
    refine CountHead.counts_courseFrom hcounter hstep hapart iterations first _ ?_ ?_
      (CountHead.not_fits_value hstep first hiterations) hspares
    · rw [Context.find?_of_notMem _ hcounter, Table.find?_insert_self]
      rfl
    · rw [CountHead.resolve_limit_insert hapart]
      exact hlimit
  refine ⟨?_, hcounts, fun hsmall => ?_⟩
  · rw [render]
    exact head.effect_render registry iterations hbody hbounds
  · simpa only [head.test.holdsReal_ofInt (.inr hsmall)] using hcounts

/-- The head of a loop that counts down by threes. -/
def CountHead.byThrees : CountHead where
  counter := ascii "i"
  init := Operand.parse (ascii "5")
  test := .greater
  limit := Operand.parse (ascii "-2")
  direction := .decrement
  step := 3
  separator := ascii ", "

open scoped JsonLibrary.Strict

/-- A loop whose body continues, and so has no part in the counting: it begins with 5, 2 and -1. -/
theorem Node.render_byThrees :
    let nodes := [raw (ascii "x"), continueLoop, raw (ascii "y")]
    let rendered := (forCount .byThrees nodes).render {} defaultIterations {}
    let body := (renderAll {} defaultIterations nodes).effectOn
    let entries := CountHead.byThrees.entries {} defaultIterations body ({} : Context).bindings
    (∀ entered ∈ entries, CountHead.byThrees.Spares entered (body entered)) ∧
      entries.map (fun bindings => Context.find? { bindings } (ascii "i")) =
        [some (.int 5), some (.int 2), some (.int (-1))] ∧
      rendered.written = ascii "x, x, x" ∧ rendered.result = .ok .done ∧
      rendered.context.find? (ascii "i") = some (.int (-4)) := by
  intro nodes rendered body entries
  have hspares : ∀ entered ∈ entries, CountHead.byThrees.Spares entered (body entered) :=
    fun _ _ => ⟨rfl, rfl, rfl⟩
  have hfirst : (Context.resolve {} CountHead.byThrees.init).toWord? = some 5 := rfl
  have hlimit : (Context.resolve {} CountHead.byThrees.limit).toWord? = some (-2) := rfl
  obtain ⟨heffect, -, hcounts⟩ := render_forCount_counts {} LoopArena.inBounds_empty
    (show 2 ^ 64 ≤ defaultIterations by decide) (by decide) (by decide) hfirst hlimit (.inl rfl)
    hspares
  generalize CountHead.byThrees.course {} defaultIterations _ _ = course at heffect hcounts
  have hcounted := hcounts (by decide)
  obtain ⟨hwritten, hbindings, hresult⟩ := Rendered.effect_eq_iff.mp heffect
  obtain ⟨-, hended, hafter⟩ := hcounted.ends (by decide +kernel)
  have hlast : CountHead.byThrees.value (5 : Int64).toInt entries.length = -4 := by decide +kernel
  refine ⟨hspares, rfl, ?_, hresult.trans hended, ?_⟩
  · rw [hwritten, Course.effect, Course.texts, hcounted.iterations_eq]
    rfl
  · rw [Context.find?, hbindings]
    exact hafter.trans (congrArg (some ∘ Json.int) hlast)

/-! ## A limit that is not small -/

/-- A loop that should begin with `2 ^ 53`, the integer before its limit. -/
def Source.counting : Bytes :=
  markup (ascii " for i := 9007199254740992; i < 9007199254740993; i++ ") ++
    (markup (ascii "= i ") ++ markup (ascii " endfor "))

/-- The head of a loop from `2 ^ 53` to the integer after it. -/
def CountHead.large : CountHead where
  counter := ascii "i"
  init := Operand.parse (ascii "9007199254740992")
  test := .less
  limit := Operand.parse (ascii "9007199254740993")
  direction := .increment
  step := 1
  separator := []

/-- The tree of that template. -/
def Tree.counting : Tree :=
  ⟨[.forCount .large [.print { value := Operand.parse (ascii "i") }]]⟩

/-- The template is parsed as that tree. -/
theorem Tree.parse_counting (keepFormatting : Bool) :
    parse keepFormatting Source.counting = .ok counting := by
  let inside := ascii " for i := 9007199254740992; i < 9007199254740993; i++ "
  have hplainFor : Source.IsPlain inside := .of_notMem (by decide)
  have hplainPrint : Source.IsPlain (ascii "= i ") := .of_notMem (by decide)
  have hplainEnd : Source.IsPlain (ascii " endfor ") := .of_notMem (by decide)
  let loop : Construct := .loop (.count .large)
  have hparseFor : Statement.parse inside.strip = .ok loop.opening := rfl
  have hparsePrint : Statement.parse (ascii "= i ").strip =
      .ok (.print { value := Operand.parse (ascii "i") }) := rfl
  let body := Source.markup (ascii "= i ") ++ Source.markup (ascii " endfor ")
  have hinner : Reads ((Reader.start Source.counting).enter loop [] inside body) _ :=
    .markup_node rfl rfl hplainPrint hparsePrint rfl
      (.ends (.markup rfl (List.append_nil _).symm hplainEnd) rfl rfl)
  have hreads : Reads (Reader.start Source.counting) _ :=
    .construct (.markup rfl rfl hplainFor) hparseFor rfl hinner rfl (.end_of_template rfl rfl)
  exact parse_of_isSettled
    (.append (.markup hplainFor) (.append (.markup hplainPrint) (.markup hplainEnd))) hreads
    keepFormatting

/-- A loop whose first value fails its test binds its counter, and does nothing else. -/
theorem CountHead.effect_render_of_fails [JsonLibrary] (registry : Registry) (iterations : Nat)
    {head : CountHead} {body : RenderM Flow} {context : Context} {first limit : Int64}
    (hbody : body.Steady) (hbounds : context.arena.InBounds)
    (hfirst : (context.resolve head.init).toWord? = some first)
    (hlimit : (context.resolve head.limit).toWord? = some limit)
    (hapart : head.limit.isStatic = true ∨ Variable.rootName head.limit.text ≠ head.counter)
    (hfails : head.continues first limit = false) :
    (head.render registry iterations body context).effect =
      { written := []
        bindings := context.bindings.insert head.counter
          { value := Json.ofWord first, inspector := Inspector.general registry.inspectors }
        result := .ok .done } := by
  have hfirst' :
      (Context.resolve { bindings := context.bindings } head.init).toWord? = some first := hfirst
  have hlimit' :
      (Context.resolve { bindings := context.bindings } head.limit).toWord? = some limit := hlimit
  rw [head.effect_render registry iterations hbody hbounds, course, integer_of_toWord? hfirst']
  cases iterations with
  | zero | succ left =>
    simp [courseFrom, resolve_limit_insert hapart, integer_of_toWord? hlimit', hfails,
      Course.effect, Course.ended, Course.texts]

/-- The tree writes nothing, however many iterations are allowed. -/
theorem Tree.renders_counting [JsonLibrary] (iterations : Nat) :
    (Node.renderAll Registry.standard iterations counting.nodes {}).written = [] ∧
      (Node.renderAll Registry.standard iterations counting.nodes {}).result = .ok .done := by
  have hbody := Node.steady_renderAll Registry.standard iterations
    [.print { value := Operand.parse (ascii "i") }]
  have hfirst : (Context.resolve {} CountHead.large.init).toWord? = some 9007199254740992 := rfl
  have hlimit : (Context.resolve {} CountHead.large.limit).toWord? = some 9007199254740993 := rfl
  have heffect := CountHead.effect_render_of_fails Registry.standard iterations hbody
    LoopArena.inBounds_empty hfirst hlimit (.inl rfl) (by decide +kernel)
  obtain ⟨hwritten, -, hresult⟩ := Rendered.effect_eq_iff.mp heffect
  rw [counting, Node.renderAll_singleton, Node.render]
  exact ⟨hwritten, hresult⟩

/-- A loop whose first value passes its test over the integers begins no iteration, since the value
and the limit have one nearest floating point number. A condition compares the same integers
exactly. -/
theorem Source.renders_nothing :
    Operator.less.holdsInt 9007199254740992 9007199254740993 = true ∧
      Renders Registry.standard {} counting [] ∧
      Inspector.json.compare (.int 9007199254740992) .less (ascii "9007199254740993") = .ok true :=
  ⟨by decide, renders_of_parse Tree.parse_counting Tree.renders_counting, rfl⟩

end Stencil
