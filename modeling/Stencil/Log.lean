import Stencil.Bytes.Basic

/-!
# Log records

What the engine reports besides its results: a level and a text that ends at its first NUL byte.
Unless somebody listens, every record above the lowest level goes to the error output.
-/

set_option autoImplicit false

namespace Stencil

/-- How much a record of the log matters. -/
inductive LogLevel where
  | debug
  | info
  | warning
  | error
  deriving DecidableEq, Repr

namespace LogLevel

/-- The number of a level, from the least to the most important one. -/
def number : LogLevel → Nat
  | debug => 0
  | info => 1
  | warning => 2
  | error => 3

/-- The level with a given number; a larger number is the highest level. -/
def ofNumber : Nat → LogLevel
  | 0 => debug
  | 1 => info
  | 2 => warning
  | _ => error

end LogLevel

/-- One entry of the log. -/
structure LogRecord where
  level : LogLevel
  text : Bytes
  deriving DecidableEq, Repr

namespace LogRecord

/-- What a record leaves on the error output when nobody listens. -/
def errorOutput (record : LogRecord) : Bytes :=
  if record.level = .debug then [] else record.text

end LogRecord

end Stencil
