import Stencil.Proofs.Number.Guard
import Stencil.Proofs.Render.Course

/-!
# How a counting loop runs

`CountHead.Runs` says in one place what a counting loop can do: each of its rules is one way to end,
or to begin an iteration and go on. The course of a loop, with the variables that its iterations
begin with, is such a run (`CountHead.runs_courseFrom`), so that what holds of every run is shown by
induction on its rules, with no look at how the course is computed.
-/

set_option autoImplicit false

namespace Stencil

namespace CountHead

/-! ## The next counter -/

/-- The integer by which the counter changes. -/
def stride (head : CountHead) : Int :=
  if head.direction = .decrement then -head.step.toInt else head.step.toInt

/-- The word that the counter holds after an iteration that began with a given one: what the body
left in the variable, or the given one when no variable is found by the name. -/
def current [JsonLibrary] (head : CountHead) (context : Context) (counter : Int64) :
    Except Failure Int64 :=
  match context.find? head.counter with
  | some value => head.integer .counter value
  | none => .ok counter

/-- The word one increment after a given one. -/
def advance (head : CountHead) (current : Int64) : Except Failure Int64 :=
  match Word.add? current head.increment with
  | some after => .ok after
  | none => .error (.loopCounterOverflow head.counter)

variable {head : CountHead} {inspector : Inspector} {body : Table Variable → Effect Flow}

/-- The increment denotes the stride, unless the least word is to be taken away: that is the only
one whose opposite is no word. -/
theorem toInt_increment (hleast : head.direction = .decrement → head.step ≠ Int64.minValue) :
    head.increment.toInt = head.stride := by
  rw [increment, stride]
  split
  · next hdown => exact Word.toInt_neg_iff.mpr (hleast hdown)
  · rfl

/-- A step of one or more is not the least word. -/
theorem step_ne_minValue (hstep : 1 ≤ head.step.toInt) : head.step ≠ Int64.minValue := by
  intro heq
  rw [heq] at hstep
  exact absurd hstep (by decide)

/-- A word is an integer for every part of a loop. -/
theorem integer_ofWord [JsonLibrary] (head : CountHead) (part : LoopPart) (n : Int64) :
    head.integer part (Json.ofWord n) = .ok n := by
  have hword : (Json.ofWord n).toWord? = some n := Word.ofInt?_eq_some_iff.mpr rfl
  rw [integer, hword]

/-- A word that is found in the variable of the counter is the current one. -/
theorem current_of_find? [JsonLibrary] {context : Context} {n : Int64}
    (h : context.find? head.counter = some (Json.ofWord n)) (counter : Int64) :
    head.current context counter = .ok n := by
  rw [current, h]
  exact integer_ofWord head .counter n

/-- The next counter is the current one advanced. -/
theorem next_eq_bind [JsonLibrary] (head : CountHead) (context : Context) (counter : Int64) :
    head.next context counter = head.current context counter >>= head.advance := by
  rw [next, current]
  cases context.find? head.counter <;> rfl

/-- The word after a given one is one stride further, and there is none when that is no word. -/
theorem advance_cases (hleast : head.direction = .decrement → head.step ≠ Int64.minValue)
    (current : Int64) :
    (∃ after : Int64, head.advance current = .ok after ∧
      after.toInt = current.toInt + head.stride) ∨
    (head.advance current = .error (.loopCounterOverflow head.counter) ∧
      Word.fits (current.toInt + head.stride) = false) := by
  rw [← toInt_increment hleast, advance]
  cases hsum : Word.add? current head.increment with
  | some after => exact .inl ⟨after, rfl, Word.add?_eq_some_iff.mp hsum⟩
  | none =>
    refine .inr ⟨rfl, ?_⟩
    rw [Word.add?, Word.ofInt?] at hsum
    simpa using hsum

/-- The next counter is the exact sum, or the loop overflows because that sum is no word. -/
theorem next_cases [JsonLibrary] (hleast : head.direction = .decrement → head.step ≠ Int64.minValue)
    {context : Context} {counter current : Int64}
    (hcurrent : head.current context counter = .ok current) :
    (∃ after : Int64, head.next context counter = .ok after ∧
      after.toInt = current.toInt + head.stride) ∨
    (head.next context counter = .error (.loopCounterOverflow head.counter) ∧
      Word.fits (current.toInt + head.stride) = false) := by
  rw [next_eq_bind, hcurrent]
  exact advance_cases hleast current

/-! ## Iterations -/

/-- The variables with which the iterations of a counting loop begin that has a given counter. -/
def entriesFrom [JsonLibrary] (head : CountHead) (inspector : Inspector)
    (body : Table Variable → Effect Flow) :
    Nat → Int64 → Table Variable → List (Table Variable)
  | 0, _, _ => []
  | left + 1, counter, bindings =>
    match head.integer .limit (Context.resolve { bindings } head.limit) with
    | .error _ => []
    | .ok limit =>
      if head.continues counter limit then
        let iteration := body bindings
        bindings ::
          if iteration.goesOn then
            match head.next { bindings := iteration.bindings } counter with
            | .error _ => []
            | .ok after =>
              entriesFrom head inspector body left after
                (iteration.bindings.insert head.counter { value := Json.ofWord after, inspector })
          else []
      else []

/-- The variables with which the iterations of a counting loop begin. -/
def entries [JsonLibrary] (head : CountHead) (registry : Registry) (iterations : Nat)
    (body : Table Variable → Effect Flow) (bindings : Table Variable) : List (Table Variable) :=
  let inspector := Inspector.general registry.inspectors
  match head.integer .init (Context.resolve { bindings } head.init) with
  | .error _ => []
  | .ok counter =>
    head.entriesFrom inspector body iterations counter
      (bindings.insert head.counter { value := Json.ofWord counter, inspector })

/-! ## Runs -/

/-- A loop that may begin so many iterations, and has a given counter and given variables, begins
iterations with the listed variables and has a given course. -/
inductive Runs [JsonLibrary] (head : CountHead) (inspector : Inspector)
    (body : Table Variable → Effect Flow) :
    Nat → Int64 → Table Variable → List (Table Variable) → Course → Prop
  /-- The limit is no integer. -/
  | limit {left : Nat} {counter : Int64} {bindings : Table Variable} {failure : Failure}
      (hlimit : head.integer .limit (Context.resolve { bindings } head.limit) = .error failure) :
      Runs head inspector body left counter bindings [] (.ended bindings (.error (.failed failure)))
  /-- The test fails. -/
  | test {left : Nat} {counter limit : Int64} {bindings : Table Variable}
      (hlimit : head.integer .limit (Context.resolve { bindings } head.limit) = .ok limit)
      (htest : head.continues counter limit = false) :
      Runs head inspector body left counter bindings [] (.ended bindings (.ok .done))
  /-- The test holds, but no iteration is left. -/
  | exhausted {counter limit : Int64} {bindings : Table Variable}
      (hlimit : head.integer .limit (Context.resolve { bindings } head.limit) = .ok limit)
      (htest : head.continues counter limit = true) :
      Runs head inspector body 0 counter bindings [] (.ended bindings (.error .exhausted))
  /-- The body ends the loop: by a break or an interrupt, or by failing. -/
  | body {left : Nat} {counter limit : Int64} {bindings : Table Variable}
      (hlimit : head.integer .limit (Context.resolve { bindings } head.limit) = .ok limit)
      (htest : head.continues counter limit = true)
      (hstops : (body bindings).goesOn = false) :
      Runs head inspector body (left + 1) counter bindings [bindings]
        (.last (body bindings) ((body bindings).result.map Flow.ofLoop))
  /-- No counter follows. -/
  | counter {left : Nat} {counter limit : Int64} {bindings : Table Variable} {failure : Failure}
      (hlimit : head.integer .limit (Context.resolve { bindings } head.limit) = .ok limit)
      (htest : head.continues counter limit = true)
      (hgoes : (body bindings).goesOn = true)
      (hnext : head.next { bindings := (body bindings).bindings } counter = .error failure) :
      Runs head inspector body (left + 1) counter bindings [bindings]
        (.last (body bindings) (.error (.failed failure)))
  /-- The loop goes on with the next counter. -/
  | next {left : Nat} {counter after limit : Int64} {bindings : Table Variable}
      {entries : List (Table Variable)} {course : Course}
      (hlimit : head.integer .limit (Context.resolve { bindings } head.limit) = .ok limit)
      (htest : head.continues counter limit = true)
      (hgoes : (body bindings).goesOn = true)
      (hnext : head.next { bindings := (body bindings).bindings } counter = .ok after)
      (hrest : Runs head inspector body left after
        ((body bindings).bindings.insert head.counter { value := Json.ofWord after, inspector })
        entries course) :
      Runs head inspector body (left + 1) counter bindings (bindings :: entries)
        (.cons (body bindings) course)

/-- What a loop does is one of its runs. -/
theorem runs_courseFrom [JsonLibrary] (head : CountHead) (inspector : Inspector)
    (body : Table Variable → Effect Flow) (left : Nat) (counter : Int64)
    (bindings : Table Variable) :
    head.Runs inspector body left counter bindings
      (head.entriesFrom inspector body left counter bindings)
      (head.courseFrom inspector body left counter bindings) := by
  induction left generalizing counter bindings with
  | zero =>
    rw [entriesFrom, courseFrom]
    cases hlimit : head.integer .limit (Context.resolve { bindings } head.limit) with
    | error failure => exact .limit hlimit
    | ok limit =>
      simp only
      cases htest : head.continues counter limit with
      | false => exact .test hlimit htest
      | true => exact .exhausted hlimit htest
  | succ left ih =>
    rw [entriesFrom, courseFrom]
    cases hlimit : head.integer .limit (Context.resolve { bindings } head.limit) with
    | error failure => exact .limit hlimit
    | ok limit =>
      simp only
      cases htest : head.continues counter limit with
      | false => exact .test hlimit htest
      | true =>
        simp only [if_true]
        cases hgoes : (body bindings).goesOn with
        | false => exact .body hlimit htest hgoes
        | true =>
          simp only [if_true]
          cases hnext : head.next { bindings := (body bindings).bindings } counter with
          | error failure => exact .counter hlimit htest hgoes hnext
          | ok after => exact .next hlimit htest hgoes hnext (ih after _)

namespace Runs

variable {left : Nat} {counter : Int64} {bindings : Table Variable}
  {entries : List (Table Variable)} {course : Course}

/-- The first iteration begins with the variables that the loop has; without one, the loop leaves
them. -/
theorem begins [JsonLibrary] (h : head.Runs inspector body left counter bindings entries course) :
    (entries ++ [course.bindings])[0]? = some bindings := by
  cases h <;> rfl

end Runs

end CountHead

end Stencil
