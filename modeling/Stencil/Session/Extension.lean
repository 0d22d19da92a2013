import Stencil.Registry

/-!
# Sample extensions

Modifiers, condition helpers and an inspector that a session can register by the name of what they
do. They show what a host can add: a modifier that fails, one that binds a variable, and an
inspector that takes a string for the sequence of its bytes.
-/

set_option autoImplicit false

namespace Stencil

namespace Extension

variable [JsonLibrary]

/-! ## Modifiers -/

/-- Gives the same value whatever it is given. -/
def constant (result : Json) : Modifier := Modifier.ofFunction fun _ _ => .ok result

/-- Puts the letters of a value's text in upper case. -/
def upper : Modifier := Modifier.ofFunction fun value _ => do
  return .str ((← Failure.ofJson value.toText).map Byte.toUpper)

/-- Repeats the value's text as often as the argument says, never when it is no integer. The text is
asked for only when it is needed. -/
def «repeat» : Modifier := Modifier.ofFunction fun value args =>
  match args with
  | [] => .error (.host .modifierNoArguments (ascii "repeat requires a count"))
  | count :: _ => do
    let times := (count.toWord?.getD 0).toInt.toNat
    let text ← if times = 0 then pure [] else Failure.ofJson value.toText
    return .str (List.replicate times text).flatten

/-- Gives the arguments as an array. -/
def arguments : Modifier := Modifier.ofFunction fun _ args => .ok (.arr args)

/-- Binds the variable `side` to the value. -/
def bindSide : Modifier := fun scope value _ => do
  let found ← Variable.bound scope.inspectors value []
  return (value, scope.bindings.insert (ascii "side") found)

/-- Fails with a code and a message of its own. -/
def failing : Modifier := Modifier.ofFunction fun _ _ =>
  .error (.host .conversion (ascii "custom failure"))

/-- The modifier of a given name; `const` gives `result`. An unknown name leaves the value alone. -/
def modifier (name : Bytes) (result : Json) : Modifier :=
  if name == ascii "const" then constant result
  else if name == ascii "upper" then upper
  else if name == ascii "repeat" then «repeat»
  else if name == ascii "args" then arguments
  else if name == ascii "bind" then bindSide
  else if name == ascii "fail" then failing
  else Modifier.ofFunction fun value _ => .ok value

/-! ## Helpers -/

/-- Whether the first argument is an object that has the key in the second one. -/
def hasKey : Helper
  | [value, .str key] => .ok (value.field? key).isSome
  | _ => .ok false

/-- The helper of a given name; an unknown name never holds. -/
def helper (name : Bytes) : Helper :=
  if name == ascii "has" then hasKey
  else if name == ascii "true" then fun _ => .ok true
  else fun _ => .ok false

/-! ## Inspectors -/

/-- Takes a string for the sequence of its bytes and compares its length, as a text. -/
def chars : Inspector where
  name := ascii "chars"
  find? value path := if path.isEmpty then some value else none
  compare value op rhs :=
    match value with
    | .str text =>
      let same := Decimal.ofNat text.length == rhs
      .ok (if op = .equal then same else !same)
    | _ => .error (.json .wrongKind)
  elements value :=
    match value with
    | .str text => .ok (text.zipIdx.map fun (b, i) => (.int i, .str [b]))
    | _ => .error (.json .wrongKind)
  bind := .ok

end Extension

end Stencil
