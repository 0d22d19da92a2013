import Stencil.Number.PowerOfTen
import Stencil.Registry
import Stencil.Text.Html
import Stencil.Text.Url

/-!
# Built-in modifiers

The modifiers that every registry begins with: defaults and choices by emptiness, escapes of the
value's text, and rounding of numbers to an integer or to a number of decimal places.
-/

set_option autoImplicit false

namespace Stencil

namespace Modifier

/-- Refuses a call that gives no arguments or fewer than are needed. -/
def requireArguments (name : Bytes) (needed : Nat) (args : List Json) : Except Failure Unit :=
  if args.isEmpty then .error (.modifierNoArguments name)
  else if args.length < needed then .error (.modifierFewArguments name needed)
  else .ok ()

/-- The argument at an index, null when there is none. -/
def argument (args : List Json) (index : Nat) : Json := args[index]?.getD .null

/-! ## Choices -/

/-- The first argument in place of a value that is empty. -/
def applyDefault (value : Json) (args : List Json) : Except Failure Json := do
  requireArguments (ascii "default") 1 args
  return if value.isEmpty then argument args 0 else value

/-- A value that is not empty becomes the argument. -/
def applyIfThen (value : Json) (args : List Json) : Except Failure Json := do
  requireArguments (ascii "ifThen") 1 args
  return if value.isEmpty then value else argument args 0

/-- A value becomes the first argument, or the second one when it is empty. -/
def applyIfThenElse (value : Json) (args : List Json) : Except Failure Json := do
  requireArguments (ascii "ifThenElse") 2 args
  return if value.isEmpty then argument args 1 else argument args 0

/-! ## Escapes -/

/-- A text inside a JSON string, its malformed parts replaced. -/
def jsonEscape (text : Bytes) : Bytes := Json.escape (Utf8.repair text)

/-- A text as a JSON string, its malformed parts replaced. -/
def jsonQuote (text : Bytes) : Bytes :=
  Byte.doubleQuote :: jsonEscape text ++ [Byte.doubleQuote]

variable [JsonLibrary]

/-- A value becomes what a function makes of its text. -/
def applyToText (f : Bytes → Bytes) (value : Json) (_ : List Json) : Except Failure Json := do
  return .str (f (← Failure.ofJson value.toText))

/-! ## Rounding -/

/-- A number rounded to a number of decimal places; negative places round before the point. -/
def roundTo (mode : Binary64.Rounding) (places : Int) (x : Binary64) : Binary64 :=
  let scale := Binary64.powerOfTen places
  ((x.mul scale).round mode).div scale

/-- A number is rounded to an integer; what is no number is left alone. -/
def applyRounding (mode : Binary64.Rounding) (value : Json) (_ : List Json) :
    Except Failure Json :=
  match value.toReal? with
  | some x => .ok (.float (x.round mode))
  | none => .ok value

/-- A number is rounded to the places that the argument gives; what is no number is left alone. -/
def applyPlaceRounding (name : Bytes) (mode : Binary64.Rounding) (value : Json)
    (args : List Json) : Except Failure Json :=
  match value.toReal? with
  | none => .ok value
  | some x => do
    requireArguments name 1 args
    match (argument args 0).toWord? with
    | some places => return .float (roundTo mode places.toInt x)
    | none => .error (.placesNotInteger name)

/-! ## The table -/

/-- The built-in modifiers that have a second name: name, second name, function. -/
def named : List (Bytes × Bytes × (Json → List Json → Except Failure Json)) :=
  [(ascii "default", ascii "def", applyDefault),
    (ascii "ifThen", ascii "if", applyIfThen),
    (ascii "ifThenElse", ascii "ifel", applyIfThenElse),
    (ascii "jsonEscape", ascii "je", applyToText jsonEscape),
    (ascii "jsonQuote", ascii "jq", applyToText jsonQuote),
    (ascii "htmlEscape", ascii "he", applyToText Html.escape),
    (ascii "urlEncode", ascii "ue", applyToText Url.encode)]

/-- The rounding modes with the names of their modifiers: to an integer, and to places. -/
def roundings : List (Bytes × Bytes × Binary64.Rounding) :=
  [(ascii "round", ascii "roundPrec", .nearest),
    (ascii "ceil", ascii "ceilPrec", .ceiling),
    (ascii "floor", ascii "floorPrec", .floor)]

/-- The modifiers that every registry begins with, each under both of its names. -/
def builtins : Table Modifier :=
  (named.flatMap fun (name, second, f) => [(name, ofFunction f), (second, ofFunction f)]) ++
    roundings.flatMap fun (whole, places, mode) =>
      [(whole, ofFunction (applyRounding mode)),
        (places, ofFunction (applyPlaceRounding places mode))]

end Modifier

namespace Helper

variable [JsonLibrary]

/-- A helper that compares the length of its first argument with zero. -/
def compareLength (name : Bytes) (op : Operator) : Helper := fun args =>
  match args with
  | [] => .error (.helperNoArguments name)
  | value :: _ => .ok (op.holdsInt value.length 0)

/-- The condition helpers that every registry begins with. -/
def builtins : Table Helper :=
  [(ascii "lenEq0", Operator.equal), (ascii "lenGt0", .greater),
    (ascii "lenGtq0", .greaterEqual)].map fun (name, op) => (name, compareLength name op)

end Helper

variable [JsonLibrary]

/-- A registry that holds the built-in modifiers, helpers and inspectors. -/
def Registry.standard : Registry where
  modifiers := Modifier.builtins
  helpers := Helper.builtins
  inspectors := Inspector.builtins

end Stencil
