import Stencil.ErrorCode

/-!
# Faults of templates

Why a template is refused, without the place. Each cause has a code and a message; the message
quotes the offending text.
-/

set_option autoImplicit false

namespace Stencil

/-- The marks that belong to an open construct. -/
inductive Mark where
  | elseMark
  | endIf
  | endFor
  | breakLoop
  | continueLoop
  | case
  | default
  | endSwitch
  deriving DecidableEq, Repr

/-- Why a template is refused, with what the message names. -/
inductive TemplateFault where
  /-- A region or the body of a construct never ends. -/
  | unterminated
  /-- A mark stands outside the construct that it belongs to. -/
  | misplaced (mark : Mark)
  /-- A condition has a second divider. -/
  | secondDivider
  /-- No statement is written like this. -/
  | unknownStatement (content : Bytes)
  | emptyPrint
  | malformedModifier (part : Bytes)
  | malformedBinding (content : Bytes)
  | malformedCounter (content : Bytes)
  /-- The amount of a counter statement is no signed 64-bit integer. -/
  | amountOutOfRange (digits : Bytes)
  | complexCondition (expression : Bytes)
  | malformedLoop (content : Bytes)
  /-- The three parts of a counting loop name different counters. -/
  | mixedCounters (counter : Bytes)
  /-- The step of a counting loop is no signed 64-bit integer. -/
  | stepOutOfRange (digits : Bytes)
  deriving DecidableEq, Repr

namespace Mark

/-- The code of a mark that is out of place: those of a switch have one of their own. -/
def code : Mark → ErrorCode
  | case | default | endSwitch => .badSwitch
  | elseMark | endIf | endFor | breakLoop | continueLoop => .badControl

/-- What is said of a mark that is out of place. -/
def message : Mark → Bytes
  | elseMark => ascii "unexpected else"
  | endIf => ascii "unexpected endif"
  | endFor => ascii "unexpected endfor"
  | breakLoop => ascii "break outside of loop"
  | continueLoop => ascii "continue outside of loop"
  | case => ascii "case outside of switch"
  | default => ascii "default outside of switch"
  | endSwitch => ascii "unexpected endswitch"

end Mark

namespace TemplateFault

/-- The code of a fault. -/
def code : TemplateFault → ErrorCode
  | unterminated => .unexpectedEnd
  | misplaced mark => mark.code
  | complexCondition _ => .complexCondition
  | malformedLoop _ | mixedCounters _ | stepOutOfRange _ => .badLoop
  | secondDivider | unknownStatement _ | emptyPrint | malformedModifier _ | malformedBinding _
  | malformedCounter _ | amountOutOfRange _ => .badControl

/-- What a fault is reported as, before its place. -/
def message : TemplateFault → Bytes
  | unterminated => ascii "unterminated control structure"
  | misplaced mark => mark.message
  | secondDivider => ascii "condition has more than one else divider"
  | unknownStatement content => ascii "bad control structure caught: " ++ content
  | emptyPrint => ascii "empty print expression"
  | malformedModifier part => ascii "malformed modifier: " ++ part
  | malformedBinding content => ascii "malformed context statement: " ++ content
  | malformedCounter content => ascii "malformed counter statement: " ++ content
  | amountOutOfRange digits | stepOutOfRange digits => ascii "integer out of range: " ++ digits
  | complexCondition expression => ascii "condition is too complex: " ++ expression
  | malformedLoop content => ascii "couldn't parse loop: " ++ content
  | mixedCounters counter => ascii "loop condition and step must use counter " ++ counter

end TemplateFault

end Stencil
