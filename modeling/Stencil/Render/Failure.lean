import Stencil.ErrorCode
import Stencil.Json.Library
import Stencil.Number.Decimal
import Stencil.Operator

/-!
# Failures

Why binding a value or rendering a template fails. Every cause has a message, and all but two a
code: that a JSON value cannot be read, written or taken for another kind, and that a message would
be too long.
-/

set_option autoImplicit false

namespace Stencil

/-- The parts of a counting loop that must be integers. -/
inductive LoopPart where
  | init
  | limit
  | counter
  deriving DecidableEq, Repr

/-- The causes of a failure, with what their messages name. -/
inductive Failure where
  | templateNotFound (name : Bytes)
  /-- A print statement has nothing to write. -/
  | emptyArgument (text : Bytes)
  /-- A condition asks whether a literal is empty. -/
  | senselessTest (left : Bytes)
  /-- A condition compares two literals. -/
  | senselessComparison (left : Bytes) (op : Operator) (right : Bytes)
  /-- A divider outside the body of a condition. -/
  | strayDivider
  | inspectorNotFound (kind : Bytes)
  | modifierNotFound (name : Bytes)
  | modifierNoArguments (name : Bytes)
  | modifierFewArguments (name : Bytes) (needed : Nat)
  | helperNotFound (name : Bytes)
  | helperNoArguments (name : Bytes)
  | placesNotInteger (modifier : Bytes)
  /-- A value, given by its compact form, has no integer. -/
  | notInteger (form : Bytes)
  /-- A value, given by its compact form, has no number. -/
  | notNumber (form : Bytes)
  /-- A string bound as a document is none. -/
  | notDocument
  | loopNotInteger (part : LoopPart) (counter form : Bytes)
  | counterNotInteger (name : Bytes)
  | counterOverflow (name : Bytes)
  | loopCounterOverflow (counter : Bytes)
  /-- A failure that a host's own modifier or helper gives. -/
  | host (code : ErrorCode) (message : Bytes)
  | json (fault : JsonFault)
  /-- A message made up from a pattern would be too long. -/
  | messageTooLong
  deriving DecidableEq, Repr

namespace LoopPart

/-- What a message calls a part of a loop. -/
def name : LoopPart → Bytes
  | init => ascii "init"
  | limit => ascii "limit"
  | counter => ascii "counter"

end LoopPart

namespace Failure

/-- The code of a failure; a JSON fault has none, nor has a message that would be too long. -/
def code? : Failure → Option ErrorCode
  | templateNotFound _ => some .templateNotFound
  | emptyArgument _ => some .emptyArgument
  | senselessTest _ | senselessComparison _ _ _ => some .senselessCondition
  | strayDivider => some .unknownControl
  | inspectorNotFound _ => some .inspectorNotFound
  | modifierNotFound _ => some .modifierNotFound
  | modifierNoArguments _ | helperNoArguments _ => some .modifierNoArguments
  | modifierFewArguments _ _ => some .modifierFewArguments
  | helperNotFound _ => some .helperNotFound
  | placesNotInteger _ | notInteger _ | notNumber _ | notDocument | loopNotInteger _ _ _
  | counterNotInteger _ | counterOverflow _ | loopCounterOverflow _ => some .conversion
  | host code _ => some code
  | json _ | messageTooLong => none

/-- The length of the shortest message that is too long to be made up from a pattern. -/
def patternLimit : Nat := 0x7fffffff

section Message

variable [JsonLibrary]

/-- The message of a failure. In some messages a quoted name ends at its first NUL byte. -/
def message : Failure → Bytes
  | templateNotFound name => ascii "template not found: " ++ name
  | emptyArgument text => ascii "empty argument: " ++ text
  | senselessTest left => ascii "condition has no variable: " ++ left
  | senselessComparison left op right =>
    ascii "condition has no variable: " ++ left ++ ascii " " ++ op.text ++ ascii " " ++ right
  | strayDivider => ascii "unknown control structure: div"
  | inspectorNotFound kind => ascii "inspector not found: " ++ kind
  | modifierNotFound name => ascii "modifier not found: " ++ name
  | modifierNoArguments name => ascii "modifier " ++ name ++ ascii " requires arguments"
  | modifierFewArguments name needed =>
    ascii "modifier " ++ name ++ ascii " requires " ++ Decimal.ofNat needed ++ ascii " arguments"
  | helperNotFound name => ascii "condition helper not found: " ++ name
  | helperNoArguments name => ascii "condition helper " ++ name ++ ascii " requires arguments"
  | placesNotInteger modifier =>
    ascii "modifier " ++ modifier ++ ascii ": precision must be an integer"
  | notInteger form => ascii "cannot convert to int: " ++ form
  | notNumber form => ascii "cannot convert to float: " ++ form
  | notDocument => ascii "cannot parse json: " ++ JsonLibrary.describe .malformed
  | loopNotInteger part counter form =>
    ascii "loop " ++ part.name ++ ascii " of '" ++ counter.untilNul ++
      ascii "' is not an integer: " ++ form.untilNul
  | counterNotInteger name => ascii "counter is not an integer: " ++ name
  | counterOverflow name => ascii "counter overflows: " ++ name
  | loopCounterOverflow counter => ascii "loop counter overflows: " ++ counter
  | host _ message => message
  | json fault => JsonLibrary.describe fault
  | messageTooLong => ascii "vsnprintf failed"

/-- What is shown of a failure: its message up to the first NUL byte. -/
def report (failure : Failure) : Bytes := failure.message.untilNul

/-- A failure whose message is made up from a pattern that quotes a value, unless that is too
long. -/
def patterned (failure : Failure) : Failure :=
  if failure.message.length < patternLimit then failure else .messageTooLong

end Message

/-- The result of reading or writing JSON, with its fault as a failure. -/
def ofJson {α : Type} : Except JsonFault α → Except Failure α
  | .ok value => .ok value
  | .error fault => .error (.json fault)

end Failure

end Stencil
