import Stencil.Number.Decimal
import Stencil.Template.Fault

/-!
# Positions

Where in a source a fault lies, counted in bytes: its row and column from one, and an excerpt that
shows the row with a caret under the column and the rows before and after it. A row is found by a
walk over the line ends before it, and a walk may leave the source.
-/

set_option autoImplicit false

namespace Stencil

/-- A row and a column. -/
structure Position where
  row : Nat
  column : Nat
  deriving DecidableEq, Repr

namespace Position

/-- The place of an offset in a source. -/
def ofOffset (source : Bytes) (offset : Nat) : Position :=
  let before := source.take offset
  { row := before.count Byte.newline + 1
    column := (before.reverse.takeWhile (· != Byte.newline)).length + 1 }

/-- How many rows a source has. -/
def rowCount (source : Bytes) : Nat := source.count Byte.newline + 1

/-- What follows the first line ends of a text, as many as are asked for; nothing when it has
fewer. -/
def skipRows? : Nat → Bytes → Option Bytes
  | 0, s => some s
  | n + 1, s =>
    match s.dropWhile (· != Byte.newline) with
    | [] => none
    | _ :: rest => skipRows? n rest

/-- The text of a row; nothing when the walk to it leaves the source. -/
def findRow? (source : Bytes) (row : Nat) : Option Bytes :=
  (skipRows? (row - 1) source).map (·.takeWhile (· != Byte.newline))

/-- A row with its line end. -/
def showRow? (source : Bytes) (row : Nat) : Option Bytes :=
  (findRow? source row).map (· ++ [Byte.newline])

/-- A row next to the one of a place, if there is any. -/
def showNeighbour? (isRow : Bool) (source : Bytes) (row : Nat) : Option Bytes :=
  if isRow then showRow? source row else some []

/-- The row of a place between its neighbours, with a caret under the place; nothing when the walk
to a row leaves the source. -/
def excerpt? (source : Bytes) (position : Position) : Option Bytes := do
  let before ← showNeighbour? (1 < position.row) source (position.row - 1)
  let here ← showRow? source position.row
  let after ← showNeighbour? (position.row < rowCount source) source (position.row + 1)
  return before ++ here ++ List.replicate (position.column - 1) Byte.space ++ ascii "^\n" ++ after

/-- The end of a message about a place in a source. -/
def suffix (source : Bytes) (position : Position) : Bytes :=
  ascii " at row " ++ Decimal.ofNat position.row ++ ascii ", column " ++
    Decimal.ofNat position.column ++ ascii ":\n" ++ (excerpt? source position).getD []

end Position

/-- A fault at an offset of a source. -/
structure ParseError where
  fault : TemplateFault
  source : Bytes
  offset : Nat
  deriving DecidableEq, Repr

namespace ParseError

/-- The row and column at which an error stands. -/
def position (error : ParseError) : Position := Position.ofOffset error.source error.offset

/-- The code of an error. -/
def code (error : ParseError) : ErrorCode := error.fault.code

/-- The message of an error: its fault and its place. -/
def message (error : ParseError) : Bytes :=
  error.fault.message ++ error.position.suffix error.source

/-- What is shown of an error: its message up to the first NUL byte. -/
def report (error : ParseError) : Bytes := error.message.untilNul

end ParseError

end Stencil
