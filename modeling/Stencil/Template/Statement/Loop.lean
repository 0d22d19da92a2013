import Stencil.Template.Statement.Basic

/-!
# Loop statements

`for KEY, VALUE := range SOURCE` visits the elements of a value, and
`for C := INIT; C < LIMIT; C++` counts. Either may end in a separator clause. The word that opens
the clause may also be a name or stand in a literal, so every place where it could open one is tried
from left to right, and the whole statement without a clause last.
-/

set_option autoImplicit false

namespace Stencil

namespace LoopHead

/-! ## The separator clause -/

/-- The length of the clause word that stands at an offset: `separator` or `sep` before a blank. -/
def clauseWordLength? (content : Bytes) (offset : Nat) : Option Nat :=
  let here := content.drop offset
  let blankAfter (length : Nat) : Bool := (here[length]?.map Byte.isBlank).getD false
  let length := if Bytes.startsWith here (ascii "separator") && blankAfter 9 then 9 else 3
  if blankAfter length then some length else none

/-- Whether a blank stands right before an offset. -/
def blankBefore (content : Bytes) (offset : Nat) : Bool :=
  offset != 0 && (content[offset - 1]?.map Byte.isBlank).getD false

/-- The head and the separator when the clause opens at an offset. -/
def splitClause? (content : Bytes) (offset : Nat) : Option (Bytes × Bytes) :=
  if blankBefore content offset then
    (clauseWordLength? content offset).map fun length =>
      (Bytes.strip (content.take offset), Quoted.literalOrText (content.drop (offset + length)))
  else none

/-- All ways to take a statement for a head and a separator, in the order in which they are
tried. -/
def readings (content : Bytes) : List (Bytes × Bytes) :=
  (Bytes.findTopLevel (ascii "sep") content).filterMap (splitClause? content) ++ [(content, [])]

/-! ## Pieces of the two heads -/

/-- What follows the keyword and at least one blank. -/
def dropFor? (head : Bytes) : Option Bytes :=
  if head.startsWith (ascii "for") then
    match head.drop 3 with
    | b :: rest => if Byte.isBlank b then some (Bytes.skipBlanks rest) else none
    | [] => none
  else none

/-- What follows blanks and an equals sign with an optional colon before it. -/
def dropAssign? (s : Bytes) : Option Bytes :=
  match s.skipBlanks with
  | Byte.colon :: Byte.equals :: rest => some rest
  | Byte.equals :: rest => some rest
  | _ => none

/-- A text without the blanks around it; of a text of blanks the last one is kept. -/
def trimKeepingOne? (s : Bytes) : Option Bytes :=
  let trimmed := Bytes.stripWhile Byte.isBlank s
  if trimmed.isEmpty then s.getLast?.map fun b => [b] else some trimmed

/-- The parts of a text before and after the first semicolon. -/
def splitSemicolon? (s : Bytes) : Option (Bytes × Bytes) := Bytes.breakOn [Byte.semicolon] s

/-! ## Loops over elements -/

/-- The names before the assignment of a loop over elements: the key, empty when there is none, and
the value. -/
def readNames? (s : Bytes) : Option (Bytes × Bytes × Bytes) :=
  match Statement.readWord? s with
  | none => none
  | some (first, rest) =>
    match Statement.dropByte? Byte.comma rest.skipBlanks with
    | none => some ([], first, rest)
    | some rest =>
      (Statement.readWord? rest.skipBlanks).map fun (second, rest) => (first, second, rest)

/-- The source after the word `range` and at least one blank: everything up to the end, without
blanks. -/
def readSource? (s : Bytes) : Option Bytes :=
  let s := s.skipBlanks
  if s.startsWith (ascii "range") then
    match s.drop 5 with
    | b :: rest =>
      let source := Bytes.skipBlanks rest
      if Byte.isBlank b && !source.isEmpty && source.all (!Byte.isBlank ·) then some source
      else none
    | [] => none
  else none

/-- The head of a loop over elements with a given separator. The key `_` binds nothing. -/
def readRange? (separator head : Bytes) : Option RangeHead := do
  let (key, value, rest) ← readNames? (← dropFor? head)
  let source ← readSource? (← dropAssign? rest)
  return { key := if key == [Byte.underscore] then [] else key, value, source, separator }

/-! ## Counting loops -/

/-- The step at the end of a counting loop: its direction and the digits of its size, none when it
is one. -/
def readStep? (s : Bytes) : Option (Operator × Option Bytes) :=
  let sized (direction : Operator) (s : Bytes) : Option (Operator × Option Bytes) :=
    match Numeral.readDigits? s.skipBlanks with
    | some (_, []) => some (direction, some s.strip)
    | _ => none
  match s with
  | [Byte.plus, Byte.plus] => some (.increment, none)
  | [Byte.minus, Byte.minus] => some (.decrement, none)
  | Byte.plus :: Byte.equals :: rest => sized .increment rest
  | Byte.minus :: Byte.equals :: rest => sized .decrement rest
  | _ => none

/-- The test of a counting loop: its counter, its operator and its limit. The operators are tried in
order until something is left for the limit. -/
def readTest? (s : Bytes) : Option (Bytes × Operator × Bytes) := do
  let (counter, rest) ← Statement.readWord? s.skipBlanks
  let rest := rest.skipBlanks
  Operator.comparisons.findSome? fun op =>
    if op.text.isPrefixOf rest then
      (trimKeepingOne? (rest.drop op.text.length)).map fun limit => (counter, op, limit)
    else none

/-- The parts of the head of a counting loop, as they are written. -/
structure CountParts where
  counter : Bytes
  init : Bytes
  testCounter : Bytes
  test : Operator
  limit : Bytes
  stepCounter : Bytes
  direction : Operator
  /-- The digits of the step, none when it is one. -/
  step : Option Bytes

/-- Takes the head of a counting loop apart, when it is written as one. -/
def readCount? (head : Bytes) : Option CountParts := do
  let (counter, rest) ← Statement.readWord? (← dropFor? head)
  let (init, rest) ← splitSemicolon? (← dropAssign? rest)
  let init ← trimKeepingOne? init
  let (test, rest) ← splitSemicolon? rest
  let (testCounter, test, limit) ← readTest? test
  let (stepCounter, rest) ← Statement.readWord? rest.skipBlanks
  let (direction, step) ← readStep? rest.skipBlanks
  return { counter, init, testCounter, test, limit, stepCounter, direction, step }

/-- The head of a counting loop with given parts and separator. The three counters are one, and the
step is a word. -/
def ofParts (separator : Bytes) (parts : CountParts) : Except TemplateFault CountHead :=
  if parts.testCounter != parts.counter || parts.stepCounter != parts.counter then
    .error (.mixedCounters parts.counter)
  else
    let size := match parts.step with
      | none => some 1
      | some digits => Numeral.integer? digits >>= Word.ofInt?
    match size with
    | some step =>
      .ok { counter := parts.counter, init := Operand.parse parts.init, test := parts.test,
            limit := Operand.parse parts.limit, direction := parts.direction, step, separator }
    | none => .error (.stepOutOfRange (parts.step.getD []))

/-! ## Both -/

/-- The loop that a reading of a statement is, if it is one. -/
def ofReading? (head separator : Bytes) : Option (Except TemplateFault LoopHead) :=
  match readRange? separator head with
  | some found => some (.ok (.range found))
  | none => (readCount? head).map fun parts => (ofParts separator parts).map .count

/-- The loop that a content is: the first of its readings that is one. -/
def parse (content : Bytes) : Except TemplateFault LoopHead :=
  ((readings content).findSome? fun (head, separator) => ofReading? head separator).getD
    (.error (.malformedLoop content))

end LoopHead

end Stencil
