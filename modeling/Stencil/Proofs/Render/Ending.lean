import Stencil.Json.Strict
import Stencil.Proofs.Render.Stepping
import Stencil.Proofs.Template.Standing

/-!
# Counting loops end

The test of a counting loop may be any comparison, and its limit is read anew for every iteration,
so neither says that the loop ends. The counter does: when the body leaves it alone, it comes nearer
to the end of the words with every iteration, and it does not step over that end
(`CountHead.room_of_next`). So a counting loop of a parsed template ends after at most
`(2 ^ 64 - 1) / step + 1` iterations, in any context and whatever becomes of its limit
(`Node.render_forCount_ends`).
-/

set_option autoImplicit false

namespace Stencil

namespace CountHead

/-- The distance from a counter to the last word in the direction of the loop. -/
def room (head : CountHead) (counter : Int64) : Nat :=
  if head.direction = .decrement then (counter.toInt - Int64.minValue.toInt).toNat
  else (Int64.maxValue.toInt - counter.toInt).toNat

/-- The most iterations that a loop can begin with so much room. -/
def most (head : CountHead) (room : Nat) : Nat := room / head.step.toInt.toNat + 1

/-- An iteration ends, whichever way, and leaves the counter as it was. -/
structure Keeps (head : CountHead) (entered : Table Variable) (iteration : Effect Flow) : Prop where
  ends : iteration.result ≠ .error .exhausted
  counter_eq : Context.find? { bindings := iteration.bindings } head.counter =
    Context.find? { bindings := entered } head.counter

/-- How a counting loop ends whose iterations end: its test fails, or its limit is no integer; or
its last iteration breaks, interrupts or fails, or no word follows the counter that it leaves. -/
inductive Ends [JsonLibrary] (head : CountHead) (course : Course) : Prop
  | test {counter limit : Int64}
      (hcounter : Context.find? { bindings := course.bindings } head.counter =
        some (Json.ofWord counter))
      (hlimit : head.integer .limit (Context.resolve { bindings := course.bindings } head.limit) =
        .ok limit)
      (htest : head.continues counter limit = false)
      (hresult : course.result = .ok .done)
  | limit {failure : Failure}
      (hlimit : head.integer .limit (Context.resolve { bindings := course.bindings } head.limit) =
        .error failure)
      (hresult : course.result = .error (.failed failure))
  | breakLoop {iteration : Effect Flow}
      (hlast : course.iterations.getLast? = some iteration)
      (hflow : iteration.result = .ok .breakLoop)
      (hresult : course.result = .ok .done)
  | interrupt {iteration : Effect Flow}
      (hlast : course.iterations.getLast? = some iteration)
      (hflow : iteration.result = .ok .interrupt)
      (hresult : course.result = .ok .interrupt)
  | body {iteration : Effect Flow} {failure : Failure}
      (hlast : course.iterations.getLast? = some iteration)
      (hfails : iteration.result = .error (.failed failure))
      (hresult : course.result = .error (.failed failure))
  | overflow {iteration : Effect Flow} {counter : Int64}
      (hlast : course.iterations.getLast? = some iteration)
      (hcounter : Context.find? { bindings := iteration.bindings } head.counter =
        some (Json.ofWord counter))
      (hfits : Word.fits (counter.toInt + head.stride) = false)
      (hresult : course.result = .error (.failed (.loopCounterOverflow head.counter)))

variable {head : CountHead} {inspector : Inspector} {body : Table Variable → Effect Flow}

/-! ## Room for steps -/

/-- A counter has less room than there are words. -/
theorem room_le (head : CountHead) (counter : Int64) : head.room counter ≤ 2 ^ 64 - 1 := by
  have hlow := counter.le_toInt
  have hhigh := counter.toInt_lt
  rw [room, Int64.toInt_minValue, Int64.toInt_maxValue]
  split <;> omega

/-- A step takes its size from the room. -/
theorem room_of_next (hstep : 1 ≤ head.step.toInt) {counter after : Int64}
    (hafter : after.toInt = counter.toInt + head.stride) :
    head.room counter = head.room after + head.step.toInt.toNat := by
  have hlow := after.le_toInt
  have hhigh := after.toInt_lt
  rw [stride] at hafter
  rw [room, room, Int64.toInt_minValue, Int64.toInt_maxValue]
  by_cases hdown : head.direction = .decrement
  · rw [if_pos hdown] at hafter
    rw [if_pos hdown, if_pos hdown]
    omega
  · rw [if_neg hdown] at hafter
    rw [if_neg hdown, if_neg hdown]
    omega

/-- One step more of room is one iteration more. -/
theorem most_succ (hstep : 1 ≤ head.step.toInt) (room : Nat) :
    head.most (room + head.step.toInt.toNat) = head.most room + 1 := by
  rw [most, most, Nat.add_div_right room (by omega)]

/-- More room is no fewer iterations. -/
theorem most_mono (head : CountHead) {room more : Nat} (h : room ≤ more) :
    head.most room ≤ head.most more :=
  Nat.succ_le_succ (Nat.div_le_div_right h)

/-! ## Ends -/

/-- An iteration before those of a loop does not change how the loop ends. -/
theorem Ends.cons [JsonLibrary] {course : Course} (iteration : Effect Flow) (h : head.Ends course) :
    head.Ends (.cons iteration course) := by
  have hlater : ∀ {last : Effect Flow}, course.iterations.getLast? = some last →
      (Course.cons iteration course).iterations.getLast? = some last := by
    intro last hlast
    rw [Course.cons, List.getLast?_cons, hlast]
    rfl
  cases h with
  | test hcounter hlimit htest hresult => exact .test hcounter hlimit htest hresult
  | limit hlimit hresult => exact .limit hlimit hresult
  | breakLoop hlast hflow hresult => exact .breakLoop (hlater hlast) hflow hresult
  | interrupt hlast hflow hresult => exact .interrupt (hlater hlast) hflow hresult
  | body hlast hfails hresult => exact .body (hlater hlast) hfails hresult
  | overflow hlast hcounter hfits hresult => exact .overflow (hlater hlast) hcounter hfits hresult

/-- A loop whose body ends it. -/
theorem Ends.last [JsonLibrary] {iteration : Effect Flow} (hstops : iteration.goesOn = false)
    (hends : iteration.result ≠ .error .exhausted) :
    head.Ends (.last iteration (iteration.result.map Flow.ofLoop)) := by
  cases hresult : iteration.result with
  | error stop =>
    cases stop with
    | failed failure => exact .body rfl hresult rfl
    | exhausted => exact absurd hresult hends
  | ok flow =>
    cases flow with
    | breakLoop => exact .breakLoop rfl hresult rfl
    | interrupt => exact .interrupt rfl hresult rfl
    | done | continueLoop => simp [Effect.goesOn, hresult, Flow.stopsLoop] at hstops

/-- A counter without a dot in its name is found under it. -/
theorem find?_counter (hdot : Byte.dot ∉ head.counter) {counter : Int64}
    {bindings : Table Variable}
    (hvalue : bindings.find? head.counter = some { value := Json.ofWord counter, inspector }) :
    Context.find? { bindings } head.counter = some (Json.ofWord counter) := by
  rw [Context.find?_of_notMem _ hdot, hvalue]
  rfl

/-- A run ends before it has used up its iterations, and begins no more of them than there is room
for. The induction is on its rules; each iteration takes a step from the room. -/
theorem Runs.ends [JsonLibrary] (hdot : Byte.dot ∉ head.counter) (hstep : 1 ≤ head.step.toInt)
    {left : Nat} {counter : Int64} {bindings : Table Variable} {entries : List (Table Variable)}
    {course : Course} (h : head.Runs inspector body left counter bindings entries course)
    (hvalue : bindings.find? head.counter = some { value := Json.ofWord counter, inspector })
    (hbody : ∀ entered ∈ entries, head.Keeps entered (body entered))
    (hleft : head.most (head.room counter) ≤ left) :
    course.iterations.length ≤ head.most (head.room counter) ∧ head.Ends course := by
  induction h with
  | limit hlimit => exact ⟨Nat.zero_le _, .limit hlimit rfl⟩
  | test hlimit htest => exact ⟨Nat.zero_le _, .test (find?_counter hdot hvalue) hlimit htest rfl⟩
  | exhausted => exact absurd hleft (Nat.not_succ_le_zero _)
  | body _ _ hstops =>
    exact ⟨Nat.le_add_left 1 _, .last hstops (hbody _ (.head _)).ends⟩
  | counter _ _ _ hnext =>
    have hfound := (hbody _ (.head _)).counter_eq.trans (find?_counter hdot hvalue)
    obtain ⟨after, hafter, -⟩ | ⟨hoverflow, hfits⟩ :=
      next_cases (fun _ => step_ne_minValue hstep) (current_of_find? hfound _)
    · cases hafter.symm.trans hnext
    · cases hoverflow.symm.trans hnext
      exact ⟨Nat.le_add_left 1 _, .overflow rfl hfound hfits rfl⟩
  | @next left counter after _ bindings _ _ _ _ _ hnext _ ih =>
    have hfound := (hbody _ (.head _)).counter_eq.trans (find?_counter hdot hvalue)
    obtain ⟨sum, hsum, hexact⟩ | ⟨hoverflow, -⟩ :=
      next_cases (fun _ => step_ne_minValue hstep) (current_of_find? hfound counter)
    · obtain rfl : sum = after := Except.ok.inj (hsum.symm.trans hnext)
      rw [room_of_next hstep hexact, most_succ hstep] at hleft ⊢
      obtain ⟨hlength, hends⟩ := ih (Table.find?_insert_self _ _ _)
        (fun entered hmem => hbody entered (.tail _ hmem)) (Nat.le_of_succ_le_succ hleft)
      exact ⟨Nat.succ_le_succ hlength, hends.cons _⟩
    · cases hoverflow.symm.trans hnext

end CountHead

/-- A counting loop of a parsed template ends. In any context and whatever its limit is set to, let
every iteration that it begins end and leave the counter as it was. Then it begins at most
`(2 ^ 64 - 1) / step + 1` iterations, and ends in one of the ways of `CountHead.Ends`; when its
first value is no integer, it fails before the first iteration. -/
theorem Node.render_forCount_ends [JsonLibrary] {keepFormatting : Bool} {text : Bytes} {tree : Tree}
    (hparse : Tree.parse keepFormatting text = .ok tree) {head : CountHead} {children : List Node}
    (hstands : (forCount head children).StandsIn tree.nodes) (hstep : 1 ≤ head.step.toInt)
    (registry : Registry) {iterations : Nat}
    (hiterations : (2 ^ 64 - 1) / head.step.toInt.toNat + 1 ≤ iterations) {context : Context}
    (hbounds : context.arena.InBounds)
    (hbody : ∀ entered ∈ head.entries registry iterations
      (renderAll registry iterations children).effectOn context.bindings,
      head.Keeps entered ((renderAll registry iterations children).effectOn entered)) :
    let body := (renderAll registry iterations children).effectOn
    let course := head.course registry iterations body context.bindings
    ((forCount head children).render registry iterations context).effect =
        course.effect head.separator ∧
      course.iterations.length ≤ (2 ^ 64 - 1) / head.step.toInt.toNat + 1 ∧
      match head.integer .init (context.resolve head.init) with
      | .ok _ => head.Ends course
      | .error failure => course = .ended context.bindings (.error (.failed failure)) := by
  intro body course
  have hdot := Tree.dot_notMem_of_parse hparse hstands
  refine ⟨?_, ?_⟩
  · rw [render]
    exact head.effect_render registry iterations (steady_renderAll registry iterations children)
      hbounds
  · have hinit : Context.resolve { bindings := context.bindings } head.init =
        context.resolve head.init := rfl
    simp only [course, CountHead.course, CountHead.entries, hinit] at hbody ⊢
    cases hfirst : head.integer .init (context.resolve head.init) with
    | error failure => exact ⟨Nat.zero_le _, rfl⟩
    | ok counter =>
      rw [hfirst] at hbody
      have hmost := head.most_mono (head.room_le counter)
      obtain ⟨hlength, hends⟩ := (head.runs_courseFrom _ body iterations counter _).ends hdot hstep
        (Table.find?_insert_self _ _ _) hbody (hmost.trans hiterations)
      exact ⟨hlength.trans hmost, hends⟩

/-! ## A loop that leaves its limit behind -/

/-- A loop in large steps whose body moves the limit out of its way. -/
def Source.leaping : Bytes :=
  markup (ascii " for i := 0; i != n; i += 4611686018427387904 ") ++
    (markup (ascii " context n = 1 ") ++ markup (ascii " endfor "))

/-- A loop whose step is a quarter of all words, and whose limit is a variable. -/
def CountHead.leaping : CountHead where
  counter := ascii "i"
  init := Operand.parse (ascii "0")
  test := .notEqual
  limit := Operand.parse (ascii "n")
  direction := .increment
  step := 4611686018427387904
  separator := []

/-- The body moves the limit. -/
def Node.moveLimit : Node := .bind { target := ascii "n", source := Operand.parse (ascii "1") }

/-- The tree of that template. -/
def Tree.leaping : Tree := ⟨[.forCount .leaping [.moveLimit]]⟩

/-- The template is parsed as that tree. -/
theorem Tree.parse_leaping (keepFormatting : Bool) :
    parse keepFormatting Source.leaping = .ok leaping := by
  let inside := ascii " for i := 0; i != n; i += 4611686018427387904 "
  have hplainFor : Source.IsPlain inside := .of_notMem (by decide)
  have hplainBind : Source.IsPlain (ascii " context n = 1 ") := .of_notMem (by decide)
  have hplainEnd : Source.IsPlain (ascii " endfor ") := .of_notMem (by decide)
  let loop : Construct := .loop (.count .leaping)
  have hparseFor : Statement.parse inside.strip = .ok loop.opening := rfl
  have hparseBind : Statement.parse (ascii " context n = 1 ").strip =
      .ok (.bind { target := ascii "n", source := Operand.parse (ascii "1") }) := rfl
  let body := Source.markup (ascii " context n = 1 ") ++ Source.markup (ascii " endfor ")
  have hinner : Reads ((Reader.start Source.leaping).enter loop [] inside body) _ :=
    .markup_node rfl rfl hplainBind hparseBind rfl
      (.ends (.markup rfl (List.append_nil _).symm hplainEnd) rfl rfl)
  have hreads : Reads (Reader.start Source.leaping) _ :=
    .construct (.markup rfl rfl hplainFor) hparseFor rfl hinner rfl (.end_of_template rfl rfl)
  exact parse_of_isSettled
    (.append (.markup hplainFor) (.append (.markup hplainBind) (.markup hplainEnd))) hreads
    keepFormatting

open scoped JsonLibrary.Strict

/-- A loop that never reaches its limit: after two iterations there is no room for a third, and no
loop with its step has room for more than four. -/
theorem Node.render_leaping :
    let context := ({} : Context).assign (ascii "n") (.int 5) .json
    let body := (renderAll .standard defaultIterations [moveLimit]).effectOn
    let course := CountHead.leaping.course .standard defaultIterations body context.bindings
    Tree.parse true Source.leaping = .ok Tree.leaping ∧
      (forCount .leaping [moveLimit]).StandsIn Tree.leaping.nodes ∧
      (∀ entered ∈ CountHead.leaping.entries .standard defaultIterations body context.bindings,
        CountHead.leaping.Keeps entered (body entered)) ∧
      course.iterations.length = 2 ∧ course.iterations.length ≤ 4 ∧
      CountHead.leaping.Ends course ∧
      course.result = .error (.failed (.loopCounterOverflow (ascii "i"))) := by
  intro context body course
  have hstands : (forCount .leaping [moveLimit]).StandsIn Tree.leaping.nodes := .among (.head _)
  let first : Table Variable := [(ascii "n", { value := .int 5, inspector := .json }),
    (ascii "i", { value := .int 0, inspector := .json })]
  let second : Table Variable := [(ascii "n", { value := .int 1, inspector := .json }),
    (ascii "i", { value := .int 4611686018427387904, inspector := .json })]
  let entries := CountHead.leaping.entries .standard defaultIterations body context.bindings
  have hentries : entries = [first, second] := rfl
  have hkeeps : ∀ entered ∈ entries, CountHead.leaping.Keeps entered (body entered) := by
    intro entered hmem
    have hresult : (body first).result = .ok .done ∧ (body second).result = .ok .done := ⟨rfl, rfl⟩
    obtain rfl | rfl : entered = first ∨ entered = second := by simpa [hentries] using hmem
    · exact ⟨by simp [hresult.1], rfl⟩
    · exact ⟨by simp [hresult.2], rfl⟩
  obtain ⟨-, hlength, hends⟩ := render_forCount_ends (Tree.parse_leaping true) hstands (by decide)
    .standard
    (show (2 ^ 64 - 1) / CountHead.leaping.step.toInt.toNat + 1 ≤ defaultIterations by decide)
    (show context.arena.InBounds from LoopArena.inBounds_empty) hkeeps
  exact ⟨Tree.parse_leaping true, hstands, hkeeps, rfl, hlength, hends, rfl⟩

end Stencil
