import Stencil.Number.Binary64
import Stencil.Bytes.Basic

/-!
# Operators

The six comparisons and the two counter steps of the markup, with an unknown operator for every
other text. A comparison of two things of a kind follows from whether they are equal and which of
them stands first, so each kind needs these three answers only. The main statement: swapping an
operator twice gives it back.
-/

set_option autoImplicit false

namespace Stencil

/-- The operators of conditions and loops; an operator that is spelled in no known way is
`unknown`. -/
inductive Operator where
  | unknown
  | equal
  | notEqual
  | greater
  | greaterEqual
  | less
  | lessEqual
  | increment
  | decrement
  deriving DecidableEq, Repr

namespace Operator

/-- The operators in the order of their codes. -/
def all : List Operator :=
  [unknown, equal, notEqual, greater, greaterEqual, less, lessEqual, increment, decrement]

/-- The comparisons in the order in which they are looked for: a longer one before its start. -/
def comparisons : List Operator := [equal, notEqual, greaterEqual, lessEqual, greater, less]

/-- The number that stands for an operator. -/
def code : Operator → Nat
  | unknown => 0
  | equal => 1
  | notEqual => 2
  | greater => 3
  | greaterEqual => 4
  | less => 5
  | lessEqual => 6
  | increment => 7
  | decrement => 8

/-- How an operator is spelled. -/
def text : Operator → Bytes
  | unknown => ascii "unk"
  | equal => ascii "=="
  | notEqual => ascii "!="
  | greater => ascii ">"
  | greaterEqual => ascii ">="
  | less => ascii "<"
  | lessEqual => ascii "<="
  | increment => ascii "++"
  | decrement => ascii "--"

/-- The operator of a spelling. -/
def ofText (s : Bytes) : Operator :=
  ((comparisons ++ [increment, decrement]).find? (·.text == s)).getD unknown

/-- The operator that holds of two things exactly when the given one holds of them in the other
order. -/
def swap : Operator → Operator
  | greater => less
  | greaterEqual => lessEqual
  | less => greater
  | lessEqual => greaterEqual
  | op => op

/-- Whether a comparison holds, given whether the sides are equal, whether the left one stands
before the right one, and whether it stands after it. What is no comparison never holds. -/
def holds (op : Operator) (same before after : Bool) : Bool :=
  match op with
  | equal => same
  | notEqual => !same
  | greater => after
  | greaterEqual => !before
  | less => before
  | lessEqual => !after
  | _ => false

/-- Whether a comparison of two integers holds. -/
def holdsInt (op : Operator) (l r : Int) : Bool := op.holds (l == r) (l < r) (r < l)

/-- Whether a comparison of floating point numbers holds. -/
def holdsReal (op : Operator) (l r : Binary64) : Bool := op.holds (l.eq r) (l.lt r) (r.lt l)

/-- Whether a comparison of texts holds, byte by byte. -/
def holdsText (op : Operator) (l r : Bytes) : Bool :=
  op.holds (l == r) (l.precedes r) (r.precedes l)

/-- Swapping the sides twice gives the operator back. -/
@[simp] theorem swap_swap (op : Operator) : op.swap.swap = op := by
  cases op <;> rfl

/-- Writing an operator and reading it gives it back. -/
@[simp] theorem ofText_text (op : Operator) : ofText op.text = op := by
  cases op <;> rfl

end Operator

end Stencil
