import Stencil.Json.Strict
import Stencil.Proofs.Context.Bound
import Stencil.Session

/-!
# Binding a variable or nothing

A host binds a value, a context statement binds what its source gives, and a counter statement binds
an integer. Each of them first works out the variable and then enters it, so that a failure leaves
the context as it was and a success changes the variable of one name (`Context.Binds`). An adding
counter statement enters the exact sum of what its name reads and the amount, or fails
(`Context.unchanged_or_binds`). A name with a dot is read as a path and entered as it is, so that a
counter of such a name does not count (`Counter.render_dotted`).
-/

set_option autoImplicit false

namespace Stencil

/-- A context in which a variable has been bound and nothing else is changed. -/
structure Context.Binds (before : Context) (name : Bytes) (found : Variable) (after : Context) :
    Prop where
  bound : after.bindings.find? name = some found
  others : ∀ other, other ≠ name → after.bindings.find? other = before.bindings.find? other
  arena : after.arena = before.arena

namespace Context

variable {before after : Context} {name : Bytes} {found : Variable}

/-- Inserting a variable binds it and nothing else. -/
theorem binds_insert (before : Context) (name : Bytes) (found : Variable) :
    before.Binds name found { before with bindings := before.bindings.insert name found } :=
  ⟨Table.find?_insert_self _ _ _, fun _ hother => Table.find?_insert_of_ne _ _ hother, rfl⟩

/-- No path reads what has been bound to a name with a dot. -/
theorem Binds.find?_of_mem (h : before.Binds name found after) (hname : Byte.dot ∈ name)
    (path : Bytes) :
    after.find? path = before.find? path := by
  have hroot : Variable.rootName path ≠ name :=
    fun heq => Variable.dot_notMem_rootName path (heq ▸ hname)
  rw [find?, Variable.lookUp_congr (h.others _ hroot)]
  rfl

end Context

/-! ## The three ways to bind -/

/-- A host's binding is that of the variable which the value becomes. -/
theorem Session.bindValue_eq [JsonLibrary] (registry : Registry) (context : Context) (name : Bytes)
    (value : Json) (kind : Bytes) :
    bindValue name value kind registry context =
      match Variable.bound registry.inspectors value kind with
      | .error failure => (context, .failed failure)
      | .ok found =>
        ({ context with bindings := context.bindings.insert name found }, .nothing) := by
  rw [bindValue, Context.bind]
  cases Variable.bound registry.inspectors value kind <;> rfl

/-- A binding either fails before it touches the context, or inserts its variable. -/
theorem Binding.render_eq [JsonLibrary] (registry : Registry) (statement : Binding)
    (context : Context) :
    statement.render registry context =
      match statement.evaluate registry context with
      | .error failure => ⟨[], context, .error (.failed failure)⟩
      | .ok found =>
        ⟨[], { context with bindings := context.bindings.insert statement.target found },
          .ok .done⟩ := by
  rw [render, RenderM.context_bind]
  cases statement.evaluate registry context <;> rfl

/-- A counter statement either fails before it touches the context, or assigns its counter. -/
theorem Counter.render_eq [JsonLibrary] (registry : Registry) (statement : Counter)
    (context : Context) :
    statement.render registry context =
      match statement.evaluate context with
      | .error failure => ⟨[], context, .error (.failed failure)⟩
      | .ok n =>
        ⟨[], context.assign statement.name (Json.ofWord n) (Inspector.general registry.inspectors),
          .ok .done⟩ := by
  rw [render, RenderM.context_bind]
  cases statement.evaluate context <;> rfl

/-- The integer that is read for a counter: zero for nothing and for null. -/
def Counter.held? : Option Json → Option Int64
  | none | some .null => some 0
  | some value => value.toWord?

/-- An adding counter statement has the integer that is read, or fails; and it has the sum, or
overflows. -/
theorem Counter.evaluate_add {statement : Counter} (hadd : statement.action = .add)
    (context : Context) :
    statement.evaluate context =
      match held? (context.find? statement.name) with
      | none => .error (.counterNotInteger statement.name)
      | some n =>
        match Word.add? n statement.amount with
        | none => .error (.counterOverflow statement.name)
        | some sum => .ok sum := by
  have hcurrent : current context statement.name =
      match held? (context.find? statement.name) with
      | none => .error (.counterNotInteger statement.name)
      | some n => .ok n := by
    rw [current]
    cases context.find? statement.name with
    | none => rfl
    | some value =>
      cases value with
      | null => rfl
      | _ => simp only [held?]; split <;> simp_all
  rw [evaluate, hadd]
  simp only [hcurrent]
  cases held? (context.find? statement.name) with
  | none => rfl
  | some n =>
    simp only
    cases hsum : Word.add? n statement.amount <;> simp [hsum, bind, Except.bind]

/-- What an adding counter statement does when a value is read for its counter: it fails and leaves
the context as it is when the value is no integer or the sum is no word, and it binds the exact sum
otherwise. -/
def Counter.Adds [JsonLibrary] (registry : Registry) (statement : Counter) (context : Context)
    (read : Option Json) : Prop :=
  match held? read with
  | none => statement.render registry context =
      ⟨[], context, .error (.failed (.counterNotInteger statement.name))⟩
  | some n =>
    if Word.fits (n.toInt + statement.amount.toInt) then
      ∃ after, statement.render registry context = ⟨[], after, .ok .done⟩ ∧
        context.Binds statement.name
          { value := .int (n.toInt + statement.amount.toInt)
            inspector := Inspector.general registry.inspectors } after
    else statement.render registry context =
      ⟨[], context, .error (.failed (.counterOverflow statement.name))⟩

/-- Adding to a counter goes by the value that the counter's name finds. -/
theorem Counter.adds_find? [JsonLibrary] (registry : Registry) {statement : Counter}
    (hadd : statement.action = .add) (context : Context) :
    statement.Adds registry context (context.find? statement.name) := by
  have hevaluate := evaluate_add hadd context
  rw [Adds]
  cases hheld : held? (context.find? statement.name) with
  | none =>
    simp only [hheld] at hevaluate
    simp only [render_eq, hevaluate]
  | some n =>
    simp only [hheld] at hevaluate
    simp only
    split
    · next hfits =>
      have hsum : Word.add? n statement.amount =
          some (Int64.ofInt (n.toInt + statement.amount.toInt)) := by
        rw [Word.add?, Word.ofInt?, if_pos hfits]
      have hvalue : Json.ofWord (Int64.ofInt (n.toInt + statement.amount.toInt)) =
          .int (n.toInt + statement.amount.toInt) :=
        congrArg Json.int (Word.toInt_ofInt_of_fits hfits)
      rw [hsum] at hevaluate
      simp only [render_eq, hevaluate, hvalue]
      exact ⟨_, rfl, context.binds_insert _ _⟩
    · next hfits =>
      have hsum : Word.add? n statement.amount = none := by
        rw [Word.add?, Word.ofInt?, if_neg hfits]
      rw [hsum] at hevaluate
      simp only [render_eq, hevaluate]

/-- Binding is atomic. A host's binding, a context statement and a counter statement either fail,
with the context as it was, or bind the variable of one name, with every other variable and the loop
arena as they were; the statements write nothing. An adding counter statement whose name has no dot
binds the exact sum of what its variable holds, which is zero when there is none or it is null, and
the amount, and fails only when that is no integer or the sum is no word. For a name with a dot what
the path of that text reads is added to, and what any path reads stays as it was. -/
theorem Context.unchanged_or_binds [JsonLibrary] (registry : Registry) (context : Context) :
    (∀ name value kind,
      (∃ failure, Variable.bound registry.inspectors value kind = .error failure ∧
        Session.bindValue name value kind registry context = (context, .failed failure)) ∨
      ∃ found after, Variable.bound registry.inspectors value kind = .ok found ∧
        Session.bindValue name value kind registry context = (after, .nothing) ∧
        context.Binds name found after) ∧
    (∀ statement : Binding,
      (∃ failure, statement.evaluate registry context = .error failure ∧
        statement.render registry context = ⟨[], context, .error (.failed failure)⟩) ∨
      ∃ found after, statement.evaluate registry context = .ok found ∧
        statement.render registry context = ⟨[], after, .ok .done⟩ ∧
        context.Binds statement.target found after) ∧
    (∀ statement : Counter,
      (∃ failure, statement.evaluate context = .error failure ∧
        statement.render registry context = ⟨[], context, .error (.failed failure)⟩) ∨
      ∃ n after, statement.evaluate context = .ok n ∧
        statement.render registry context = ⟨[], after, .ok .done⟩ ∧
        context.Binds statement.name
          { value := .ofWord n, inspector := Inspector.general registry.inspectors } after) ∧
    ∀ statement : Counter, statement.action = .add →
      (Byte.dot ∉ statement.name →
        statement.Adds registry context
          ((context.bindings.find? statement.name).map Variable.value)) ∧
      (Byte.dot ∈ statement.name →
        statement.Adds registry context (context.find? statement.name) ∧
          ∀ path, (statement.render registry context).context.find? path =
            context.find? path) := by
  have hcounter : ∀ statement : Counter,
      (∃ failure, statement.evaluate context = .error failure ∧
        statement.render registry context = ⟨[], context, .error (.failed failure)⟩) ∨
      ∃ n after, statement.evaluate context = .ok n ∧
        statement.render registry context = ⟨[], after, .ok .done⟩ ∧
        context.Binds statement.name
          { value := .ofWord n, inspector := Inspector.general registry.inspectors } after := by
    intro statement
    rw [Counter.render_eq]
    cases statement.evaluate context with
    | error failure => exact .inl ⟨failure, rfl, rfl⟩
    | ok n => exact .inr ⟨n, _, rfl, rfl, context.binds_insert _ _⟩
  refine ⟨?_, ?_, hcounter, ?_⟩
  · intro name value kind
    rw [Session.bindValue_eq]
    cases Variable.bound registry.inspectors value kind with
    | error failure => exact .inl ⟨failure, rfl, rfl⟩
    | ok found => exact .inr ⟨found, _, rfl, rfl, context.binds_insert name found⟩
  · intro statement
    rw [Binding.render_eq]
    cases statement.evaluate registry context with
    | error failure => exact .inl ⟨failure, rfl, rfl⟩
    | ok found => exact .inr ⟨found, _, rfl, rfl, context.binds_insert _ found⟩
  · intro statement hadd
    have hadds := Counter.adds_find? registry hadd context
    refine ⟨fun hname => ?_, fun hname => ⟨hadds, fun path => ?_⟩⟩
    · rwa [← context.find?_of_notMem hname]
    · obtain ⟨failure, -, hrender⟩ | ⟨n, after, -, hrender, hbinds⟩ := hcounter statement
      · rw [hrender]
      · rw [hrender]
        exact hbinds.find?_of_mem hname path

/-- A counter that holds the last word but one, as a text. -/
def Context.nearlyFull [JsonLibrary] : Context :=
  ({} : Context).assign (ascii "c") (.str (ascii "9223372036854775806")) (.converting .string)

open scoped JsonLibrary.Strict

/-- The greatest word is reached exactly, and a step beyond it leaves the counter as it was. -/
theorem Context.unchanged_or_binds_nearlyFull :
    (∃ after, Counter.render .standard { name := ascii "c", action := .add, amount := 1 }
          .nearlyFull = ⟨[], after, .ok .done⟩ ∧
        after.bindings.find? (ascii "c") =
          some { value := .int 9223372036854775807, inspector := .json }) ∧
      Counter.render .standard { name := ascii "c", action := .add, amount := 2 } .nearlyFull =
        ⟨[], .nearlyFull, .error (.failed (.counterOverflow (ascii "c")))⟩ := by
  obtain ⟨-, -, -, hadds⟩ := unchanged_or_binds .standard .nearlyFull
  have hheld : Counter.held?
      ((nearlyFull.bindings.find? (ascii "c")).map Variable.value) =
        some 9223372036854775806 := by decide
  constructor
  · have hsum := (hadds { name := ascii "c", action := .add, amount := 1 } rfl).1 (by decide)
    simp only [Counter.Adds, hheld] at hsum
    rw [if_pos (by decide)] at hsum
    obtain ⟨after, hrender, hbinds⟩ := hsum
    exact ⟨after, hrender, hbinds.bound⟩
  · have hsum := (hadds { name := ascii "c", action := .add, amount := 2 } rfl).1 (by decide)
    simp only [Counter.Adds, hheld] at hsum
    rwa [if_neg (by decide)] at hsum

/-- An object with a field, under the name `a`. -/
def Context.ofField [JsonLibrary] : Context :=
  ({} : Context).assign (ascii "a") (.obj [(ascii "b", .int 5)]) .json

/-- A counter whose name has a dot does not count. The path of that text reads a field; the sum is
bound to a variable of that name, which there was none of, and the path reads the field as
before. -/
theorem Counter.render_dotted :
    ∃ after, render .standard { name := ascii "a.b", action := .add, amount := 1 } .ofField =
        ⟨[], after, .ok .done⟩ ∧
      Context.ofField.find? (ascii "a.b") = some (.int 5) ∧
      after.find? (ascii "a.b") = some (.int 5) ∧
      Context.ofField.bindings.find? (ascii "a.b") = none ∧
      after.bindings.find? (ascii "a.b") = some { value := .int 6, inspector := .json } := by
  have hread : Context.ofField.find? (ascii "a.b") = some (.int 5) := by with_unfolding_all rfl
  have hevaluate : evaluate .ofField { name := ascii "a.b", action := .add, amount := 1 } =
      .ok 6 := by
    rw [evaluate_add rfl, hread]
    rfl
  have hafter : (Context.ofField.assign (ascii "a.b") (.int 6) .json).find? (ascii "a.b") =
      some (.int 5) := by with_unfolding_all rfl
  refine ⟨Context.ofField.assign (ascii "a.b") (.int 6) .json, ?_, hread, hafter, rfl, rfl⟩
  rw [render_eq, hevaluate]
  rfl

end Stencil
