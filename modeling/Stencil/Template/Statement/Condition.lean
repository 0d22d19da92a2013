import Stencil.Template.Statement.Basic

/-!
# Conditions

A condition is a call of a helper, a comparison of two operands, or an operand alone. It holds no
logical connective, and parentheses only around the arguments of a helper.
-/

set_option autoImplicit false

namespace Stencil

namespace Comparison

/-- The parts around the first comparison operator that stands outside literals and after at least
one byte; `before` holds the bytes read, last one first. -/
def findOperator? : Scan → Bytes → Bytes → Option (Bytes × Operator × Bytes)
  | _, _, [] => none
  | scan, before, b :: rest =>
    let found :=
      if scan.isOutside && !before.isEmpty then
        Operator.comparisons.find? (·.text.isPrefixOf (b :: rest))
      else none
    match found with
    | some op => some (before.reverse, op, (b :: rest).drop op.text.length)
    | none => findOperator? (scan.step b) (b :: before) rest

/-- The two sides of a comparison and its operator, when something stands on either side. -/
def split? (expression : Bytes) : Option (Bytes × Operator × Bytes) :=
  match findOperator? Scan.start [] expression with
  | some (left, op, right) =>
    if left.strip.isEmpty || right.strip.isEmpty then none
    else some (left.strip, op, right.strip)
  | none => none

/-- The comparison that an expression is: of its two sides, or its emptiness. -/
def parse (expression : Bytes) : Comparison :=
  match split? expression with
  | some (left, op, right) => { left := Operand.parse left, op, right := Operand.parse right }
  | none => { left := Operand.parse expression }

end Comparison

namespace Condition

/-- Whether a connective stands anywhere in an expression, literals included. -/
def hasConnective (expression : Bytes) : Bool :=
  (ascii "&&").occursIn expression || (ascii "||").occursIn expression

/-- Whether a parenthesis stands anywhere in an expression, literals included. -/
def hasParens (expression : Bytes) : Bool :=
  expression.any fun b => b == Byte.openParen || b == Byte.closeParen

/-- The call of a helper that an expression is, if it is one. -/
def helperCall? (expression : Bytes) : Option Condition :=
  let (helper, rest) := Statement.readWord expression
  match Statement.insideParens? rest.skipBlanks with
  | some inside =>
    if helper.isEmpty || hasParens inside then none
    else some { helper, args := Statement.parseArgs inside }
  | none => none

/-- Reads a condition. A connective is refused first, and a parenthesis unless the whole is one call
of a helper. -/
def parse (expression : Bytes) : Except TemplateFault Condition :=
  if hasConnective expression then .error (.complexCondition expression)
  else
    match helperCall? expression with
    | some condition => .ok condition
    | none =>
      if hasParens expression then .error (.complexCondition expression)
      else .ok { comparison := Comparison.parse expression }

end Condition

end Stencil
