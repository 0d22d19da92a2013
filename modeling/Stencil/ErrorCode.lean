import Stencil.Bytes.Basic

/-!
# Error codes

Every failure of the template engine itself carries one of these codes. Codes below twenty come from
reading a template, the others from rendering one.
-/

set_option autoImplicit false

namespace Stencil

/-- The causes of failure that the program tells apart. -/
inductive ErrorCode where
  | unexpectedEnd
  | badControl
  | complexCondition
  | badLoop
  | badSwitch
  | unreadableFile
  | templateNotFound
  | emptyArgument
  | senselessCondition
  | unknownControl
  | inspectorNotFound
  | modifierNotFound
  | modifierNoArguments
  | modifierFewArguments
  | helperNotFound
  | conversion
  deriving DecidableEq, Repr

namespace ErrorCode

/-- All codes, in the order of their numbers. -/
def all : List ErrorCode :=
  [unexpectedEnd, badControl, complexCondition, badLoop, badSwitch, unreadableFile,
    templateNotFound, emptyArgument, senselessCondition, unknownControl, inspectorNotFound,
    modifierNotFound, modifierNoArguments, modifierFewArguments, helperNotFound, conversion]

/-- The number that stands for a code: the first six concern parsing, the others rendering. -/
def number : ErrorCode → Nat
  | unexpectedEnd => 1
  | badControl => 2
  | complexCondition => 3
  | badLoop => 4
  | badSwitch => 5
  | unreadableFile => 6
  | templateNotFound => 20
  | emptyArgument => 21
  | senselessCondition => 22
  | unknownControl => 23
  | inspectorNotFound => 24
  | modifierNotFound => 25
  | modifierNoArguments => 26
  | modifierFewArguments => 27
  | helperNotFound => 28
  | conversion => 29

/-- The code of a number, when it is the number of one. -/
def ofNumber? (n : Int) : Option ErrorCode := all.find? fun code => (code.number : Int) == n

/-- What a code means, in words. -/
def text : ErrorCode → Bytes
  | unexpectedEnd => ascii "unexpected end of template"
  | badControl => ascii "bad control structure"
  | complexCondition => ascii "condition is too complex"
  | badLoop => ascii "couldn't parse loop"
  | badSwitch => ascii "bad switch structure"
  | unreadableFile => ascii "couldn't read template file"
  | templateNotFound => ascii "template not found"
  | emptyArgument => ascii "empty argument"
  | senselessCondition => ascii "senseless condition"
  | unknownControl => ascii "unknown control structure"
  | inspectorNotFound => ascii "inspector not found"
  | modifierNotFound => ascii "modifier not found"
  | modifierNoArguments => ascii "modifier requires arguments"
  | modifierFewArguments => ascii "modifier requires more arguments"
  | helperNotFound => ascii "condition helper not found"
  | conversion => ascii "conversion failed"

/-- The meaning of a number that need not be a code. -/
def textOfNumber (n : Int) : Bytes := ((ofNumber? n).map text).getD (ascii "unknown error")

end ErrorCode

end Stencil
