import Stencil.Json.Strict
import Stencil.Proofs.Context.Alias
import Stencil.Proofs.Json.Compare

/-!
# The six comparisons of a value

What is compared, and as what, is chosen anew for each operator: a string is asked for equality as a
text and put in order as a number. Still the six comparisons of a value with a text go together
(`Inspector.compare_coheres`), since they all follow from three answers that go together
(`Json.orders_compareScalar`, `Json.orders_compareContainer`). Null is the exception: it may equal a
text, but it is in no order with any.
-/

set_option autoImplicit false

namespace Stencil

/-! ## Answers that go together -/

namespace Binary64

/-- No two numbers are each less than the other. -/
theorem lt_asymm (x y : Binary64) : ¬ (x.lt y = true ∧ y.lt x = true) := by
  simp only [lt, Bool.and_eq_true, decide_eq_true_eq]
  omega

/-- Of two equal numbers neither is less than the other. -/
theorem not_lt_of_eq {x y : Binary64} (h : x.eq y = true) : x.lt y = false ∧ y.lt x = false := by
  have hkey : x.key = y.key := by
    rw [eq, Bool.and_eq_true, beq_iff_eq] at h
    exact h.2
  simp [lt, hkey]

end Binary64

namespace Operator

/-- Whether it can be that two things are the same, that the left one stands before the right one,
and that it stands after it. -/
structure IsOrder (same before after : Bool) : Prop where
  asymm : ¬ (before = true ∧ after = true)
  irrefl : same = true → before = false ∧ after = false

/-- Whether the answers to the comparisons of two things go together. -/
structure Coheres (answer : Operator → Bool) : Prop where
  notEqual : answer .notEqual = !answer .equal
  greaterEqual : answer .greaterEqual = !answer .less
  lessEqual : answer .lessEqual = !answer .greater
  asymm : ¬ (answer .less = true ∧ answer .greater = true)
  irrefl : answer .equal = true → answer .less = false ∧ answer .greater = false
  other : ∀ op ∉ comparisons, answer op = false

/-- Whether two things are asked for equality only: they are in no order. -/
structure Unorders (answer : Operator → Bool) : Prop where
  notEqual : answer .notEqual = !answer .equal
  unordered : ∀ op, op ≠ .equal → op ≠ .notEqual → answer op = false

/-- An operator that is no comparison holds of nothing. -/
theorem holds_of_notMem {op : Operator} (hop : op ∉ comparisons) (same before after : Bool) :
    op.holds same before after = false := by
  cases op with
  | unknown | increment | decrement => rfl
  | _ => exact absurd (by decide) hop

/-- Comparisons go together when they follow from an order. -/
theorem IsOrder.coheres {same before after : Bool} (h : IsOrder same before after) :
    Coheres fun op => op.holds same before after where
  notEqual := rfl
  greaterEqual := rfl
  lessEqual := rfl
  asymm := h.asymm
  irrefl := h.irrefl
  other _ hop := holds_of_notMem hop _ _ _

/-- Integers are ordered. -/
theorem isOrder_int (l r : Int) : IsOrder (l == r) (l < r) (r < l) where
  asymm := by
    rw [decide_eq_true_eq, decide_eq_true_eq]
    omega
  irrefl hsame := by
    obtain rfl := beq_iff_eq.mp hsame
    simp

/-- Floating point numbers are ordered, but for those that are no numbers. -/
theorem isOrder_real (l r : Binary64) : IsOrder (l.eq r) (l.lt r) (r.lt l) where
  asymm := Binary64.lt_asymm l r
  irrefl := Binary64.not_lt_of_eq

/-- Texts are ordered, byte by byte. -/
theorem isOrder_text (l r : Bytes) : IsOrder (l == r) (l.precedes r) (r.precedes l) where
  asymm h := by
    rw [Bytes.precedes_asymm h.1] at h
    cases h.2
  irrefl hsame := by
    obtain rfl := beq_iff_eq.mp hsame
    have hself : l.precedes l = false := Bool.eq_false_iff.mpr fun h => by
      rw [Bytes.precedes_asymm h] at h
      cases h
    exact ⟨hself, hself⟩

/-- Texts that hold numbers are the same as texts and in the order of the numbers. -/
theorem isOrder_numeric {l r : Bytes} {x y : Binary64} (hl : Numeral.real? l = some x)
    (hr : Numeral.real? r = some y) : IsOrder (l == r) (x.lt y) (y.lt x) where
  asymm := Binary64.lt_asymm x y
  irrefl hsame := by
    obtain rfl := beq_iff_eq.mp hsame
    obtain rfl : x = y := Option.some.inj (hl.symm.trans hr)
    have hself : x.lt x = false := Bool.eq_false_iff.mpr fun h => Binary64.lt_asymm x x ⟨h, h⟩
    exact ⟨hself, hself⟩

end Operator

/-! ## Comparisons of values -/

namespace Json

variable [JsonLibrary]

/-- Whether the comparisons of a value fail for want of its compact form, or follow from an
order. -/
def Orders (value : Json) (compare : Operator → Except JsonFault Bool) : Prop :=
  (∃ fault, value.print = .error fault ∧ ∀ op, compare op = .error fault) ∨
    ∃ same before after, Operator.IsOrder same before after ∧
      ∀ op : Operator, compare op = .ok (op.holds same before after)

variable {value : Json} {rhs : Bytes}

/-- A value that is compared by its compact form is ordered, or has no such form. -/
theorem orders_print (value : Json) (rhs : Bytes) :
    value.Orders fun op => do return op.holdsText (← value.print) rhs := by
  cases hprint : value.print with
  | error fault => exact .inl ⟨fault, hprint, fun op => rfl⟩
  | ok text => exact .inr ⟨_, _, _, Operator.isOrder_text text rhs, fun op => rfl⟩

/-- A number is ordered with a text, as a number or by its own text. -/
theorem orders_compareNumber (value : Json) (number : Binary64) (text rhs : Bytes) :
    value.Orders fun op => .ok (compareNumber number text op rhs) := by
  simp only [compareNumber]
  cases Numeral.real? rhs with
  | none => exact .inr ⟨_, _, _, Operator.isOrder_text text rhs, fun op => rfl⟩
  | some r => exact .inr ⟨_, _, _, Operator.isOrder_real number r, fun op => rfl⟩

/-- A container is ordered with a text, by its size or by its compact form. -/
theorem orders_compareContainer (value : Json) (rhs : Bytes) :
    value.Orders fun op => value.compareContainer op rhs := by
  simp only [compareContainer]
  cases Numeral.word? rhs with
  | none => exact orders_print value rhs
  | some r => exact .inr ⟨_, _, _, Operator.isOrder_int value.size r.toInt, fun op => rfl⟩

/-- A string is asked for equality as a text and put in order as a number, when both sides hold
one. -/
theorem orders_str (text rhs : Bytes) :
    (str text).Orders fun op => (str text).compareScalar op rhs := by
  simp only [compareScalar]
  cases hl : Numeral.real? text with
  | none => exact .inr ⟨_, _, _, Operator.isOrder_text text rhs, fun op => rfl⟩
  | some l =>
    cases hr : Numeral.real? rhs with
    | none => exact .inr ⟨_, _, _, Operator.isOrder_text text rhs, fun op => rfl⟩
    | some r =>
      refine .inr ⟨_, _, _, Operator.isOrder_numeric hl hr, fun op => ?_⟩
      cases op <;> rfl

/-- The comparisons of a scalar that is not null follow from an order, whatever it is compared
as. -/
theorem orders_compareScalar (hnull : value ≠ .null) (rhs : Bytes) :
    value.Orders fun op => value.compareScalar op rhs := by
  cases value with
  | null => exact absurd rfl hnull
  | bool truth =>
    simp only [compareScalar]
    split
    · exact .inr ⟨_, _, _, Operator.isOrder_int _ _, fun op => rfl⟩
    · exact .inr ⟨_, _, _, Operator.isOrder_text _ rhs, fun op => rfl⟩
  | int n =>
    simp only [compareScalar]
    split
    · exact .inr ⟨_, _, _, Operator.isOrder_int _ _, fun op => rfl⟩
    · exact orders_compareNumber _ _ _ rhs
  | float x => exact orders_compareNumber _ x (floatText x) rhs
  | str text => exact orders_str text rhs
  | arr items => exact orders_print (.arr items) rhs
  | obj fields => exact orders_print (.obj fields) rhs

/-- Null is asked for equality only. -/
theorem unorders_compareScalar_null (rhs : Bytes) :
    ∃ answer : Operator → Bool, (∀ op, compareScalar .null op rhs = .ok (answer op)) ∧
      Operator.Unorders answer := by
  refine ⟨_, fun op => rfl, rfl, fun op hequal hnotEqual => ?_⟩
  cases op with
  | equal => exact absurd rfl hequal
  | notEqual => exact absurd rfl hnotEqual
  | _ => rfl

end Json

namespace Inspector

/-- The names of the inspectors that take every value for a container. -/
def containerNames : List Bytes := [Shape.sequence.name, Shape.mapping.name]

variable {kind : Bytes} {inspector : Inspector}

/-- A built-in inspector compares containers as containers and scalars as scalars, unless it is one
for scalars or for containers alone. -/
theorem compare_eq_ite [JsonLibrary] (hbuiltin : (kind, inspector) ∈ builtins) (value : Json)
    (op : Operator) (rhs : Bytes) :
    inspector.compare value op rhs = Failure.ofJson
      (if inspector.name ∈ containerNames ∨
          inspector.name ≠ Shape.scalar.name ∧ value.shape ≠ .scalar then
        value.compareContainer op rhs
      else value.compareScalar op rhs) := by
  obtain rfl | ⟨shape, rfl⟩ | ⟨conversion, rfl⟩ := cases_of_mem_builtins hbuiltin
  · cases value <;> rfl
  · cases shape <;> cases value <;> rfl
  · cases conversion <;> cases value <;> rfl

/-- A built-in inspector of no container compares a scalar as a scalar. -/
theorem compare_eq_compareScalar [JsonLibrary] (hbuiltin : (kind, inspector) ∈ builtins)
    (hname : inspector.name ∉ containerNames) {value : Json} (hshape : value.shape = .scalar)
    (op : Operator) (rhs : Bytes) :
    inspector.compare value op rhs = Failure.ofJson (value.compareScalar op rhs) := by
  have hscalar : ¬ (inspector.name ∈ containerNames ∨
      inspector.name ≠ Shape.scalar.name ∧ value.shape ≠ .scalar) := by
    rintro (hcontainer | ⟨-, hother⟩)
    · exact hname hcontainer
    · exact hother hshape
  rw [compare_eq_ite hbuiltin, if_neg hscalar]

/-- Away from null the comparisons come from an order, whatever a value is taken for. -/
theorem exists_orders [JsonLibrary] (hbuiltin : (kind, inspector) ∈ builtins) {value : Json}
    (hvalue : ¬ (value = .null ∧ inspector.name ∉ containerNames)) (rhs : Bytes) :
    ∃ compare, value.Orders compare ∧
      ∀ op, inspector.compare value op rhs = Failure.ofJson (compare op) := by
  by_cases hcontainer : inspector.name ∈ containerNames ∨
      inspector.name ≠ Shape.scalar.name ∧ value.shape ≠ .scalar
  · refine ⟨_, Json.orders_compareContainer value rhs, fun op => ?_⟩
    rw [compare_eq_ite hbuiltin, if_pos hcontainer]
  · have hnull : value ≠ .null := fun hnull => hvalue ⟨hnull, fun h => hcontainer (.inl h)⟩
    refine ⟨_, Json.orders_compareScalar hnull rhs, fun op => ?_⟩
    rw [compare_eq_ite hbuiltin, if_neg hcontainer]

/-- The comparisons of a value with a text by a built-in inspector all fail, for want of the compact
form of the value, or all give an answer. Null that is no container to the inspector is in no order
with the text; of any other value the six answers go together. What is no comparison never holds. -/
theorem compare_coheres [JsonLibrary] (hbuiltin : (kind, inspector) ∈ builtins) (value : Json)
    (rhs : Bytes) :
    (∃ fault, value.print = .error fault ∧
      ∀ op, inspector.compare value op rhs = .error (.json fault)) ∨
    ∃ answer : Operator → Bool, (∀ op, inspector.compare value op rhs = .ok (answer op)) ∧
      (value = .null ∧ inspector.name ∉ containerNames → Operator.Unorders answer) ∧
      (¬ (value = .null ∧ inspector.name ∉ containerNames) → Operator.Coheres answer) := by
  by_cases hvalue : value = .null ∧ inspector.name ∉ containerNames
  · obtain ⟨rfl, hname⟩ := hvalue
    obtain ⟨answer, hanswer, hunorders⟩ := Json.unorders_compareScalar_null rhs
    refine .inr ⟨answer, fun op => ?_, fun _ => hunorders, fun h => absurd ⟨rfl, hname⟩ h⟩
    rw [compare_eq_compareScalar hbuiltin hname rfl, hanswer]
    rfl
  · obtain ⟨compare, horders, hcompare⟩ := exists_orders hbuiltin hvalue rhs
    obtain ⟨fault, hprint, hfault⟩ | ⟨same, before, after, horder, hholds⟩ := horders
    · refine .inl ⟨fault, hprint, fun op => ?_⟩
      rw [hcompare, hfault]
      rfl
    · refine .inr ⟨_, fun op => ?_, fun h => absurd h hvalue, fun _ => horder.coheres⟩
      rw [hcompare, hholds]
      rfl

open scoped JsonLibrary.Strict

/-- The same number in two writings: as texts the two are not equal, and as numbers neither stands
before the other. -/
theorem compare_coheres_writings :
    (Shape.scalar.name, scalar) ∈ builtins ∧
      ∃ answer, (∀ op, scalar.compare (.str (ascii "5")) op (ascii "5.0") = .ok (answer op)) ∧
        Operator.Coheres answer ∧ answer .equal = false ∧ answer .less = false ∧
          answer .lessEqual = true ∧ answer .increment = false := by
  have hbuiltin : (Shape.scalar.name, scalar) ∈ builtins := .tail _ (.head _)
  obtain ⟨fault, hprint, -⟩ | ⟨answer, hanswer, -, hcoheres⟩ :=
    compare_coheres hbuiltin (.str (ascii "5")) (ascii "5.0")
  · cases hprint
  · have hless : scalar.compare (.str (ascii "5")) .less (ascii "5.0") = .ok false := by
      decide +kernel
    have hgreater : scalar.compare (.str (ascii "5")) .greater (ascii "5.0") = .ok false := by
      decide +kernel
    replace hcoheres := hcoheres (fun h => nomatch h.1)
    refine ⟨hbuiltin, answer, hanswer, hcoheres, ?_, ?_, ?_, hcoheres.other _ (by decide)⟩
    · exact (Except.ok.inj (hanswer .equal)).symm
    · exact Except.ok.inj ((hanswer .less).symm.trans hless)
    · rw [hcoheres.lessEqual, Except.ok.inj ((hanswer .greater).symm.trans hgreater)]
      rfl

end Inspector

end Stencil
