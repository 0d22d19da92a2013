import Stencil.Bytes.TopLevel
import Stencil.Template.Fault
import Stencil.Tree.Basic

/-!
# Statements

What the inside of a region says, on its own: a print, context or counter statement, the opening of
a construct, a mark inside one, or its end. Which marks may stand where is decided later. This file
holds the type and the pieces shared by the grammars of the statements: keywords and argument lists.
-/

set_option autoImplicit false

namespace Stencil

/-- The head of a loop of either kind. -/
inductive LoopHead where
  | range (head : RangeHead)
  | count (head : CountHead)
  deriving DecidableEq, Repr

/-- What the content of a region can be. -/
inductive Statement where
  | print (statement : Print)
  | bind (statement : Binding)
  | counter (statement : Counter)
  | ifOpen (condition : Condition)
  | elseMark
  | endIf
  | forOpen (head : LoopHead)
  | endFor
  | breakLoop
  | continueLoop
  | switchOpen (subject : Operand)
  | caseMark (test : Comparison)
  | defaultMark
  | endSwitch
  | exit
  deriving DecidableEq, Repr

namespace Statement

/-- What follows a keyword, stripped, when the keyword stands alone or a blank follows it. -/
def afterKeyword? (keyword content : Bytes) : Option Bytes :=
  if content.startsWith keyword then
    match content.drop keyword.length with
    | [] => some []
    | b :: rest => if Byte.isBlank b then some (Bytes.strip (b :: rest)) else none
  else none

/-- The word at the start of a text and what follows it. -/
def readWord (s : Bytes) : Bytes × Bytes := Bytes.readWhile Byte.isWord s

/-- The word at the start of a text and what follows it, when there is one. -/
def readWord? (s : Bytes) : Option (Bytes × Bytes) :=
  let (word, rest) := readWord s
  if word.isEmpty then none else some (word, rest)

/-- What follows a given byte at the start of a text. -/
def dropByte? (expected : UInt8) : Bytes → Option Bytes
  | [] => none
  | b :: rest => if b == expected then some rest else none

/-- The arguments between two parentheses: none when only blanks stand there. -/
def parseArgs (inside : Bytes) : List Operand :=
  if inside.strip.isEmpty then [] else (Bytes.topLevelParts Byte.comma inside).map Operand.parse

/-- What stands between an opening parenthesis at the start and a closing one at the end. -/
def insideParens? (s : Bytes) : Option Bytes :=
  match dropByte? Byte.openParen s with
  | some inside =>
    if inside.getLast? == some Byte.closeParen then some inside.dropLast else none
  | none => none

end Statement

end Stencil
