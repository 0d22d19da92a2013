import Stencil.Template.Statement.Basic

/-!
# Counter statements

`counter NAME` sets a counter to zero, `counter NAME = N` to a number; `counter NAME++` and
`counter NAME--` step it, `counter NAME + N` and `counter NAME - N` add to it or take from it.
-/

set_option autoImplicit false

namespace Stencil

namespace Counter

/-- What follows the name in a counter statement. -/
inductive Change where
  | set (negative : Bool) (digits : Bytes)
  | step (down : Bool)
  | add (negative : Bool) (digits : Bytes)
  | reset
  deriving DecidableEq, Repr

/-- A text that is digits and nothing else. -/
def digits? (s : Bytes) : Option Bytes :=
  match Numeral.readDigits? s with
  | some (digits, []) => some digits
  | _ => none

/-- The change that a text after the name asks for; the blanks before it are gone. -/
def readChange? (s : Bytes) : Option Change :=
  match s with
  | [] => some .reset
  | Byte.equals :: rest =>
    match Bytes.skipBlanks rest with
    | Byte.minus :: rest => (digits? rest).map (.set true)
    | rest => (digits? rest).map (.set false)
  | [Byte.plus, Byte.plus] => some (.step false)
  | [Byte.minus, Byte.minus] => some (.step true)
  | Byte.plus :: rest => (digits? (Bytes.skipBlanks rest)).map (.add false)
  | Byte.minus :: rest => (digits? (Bytes.skipBlanks rest)).map (.add true)
  | _ => none

/-- The action and the amount of a change. The amount to be added is read before its sign is
applied, so that the least word can only be set. -/
def applyChange : Change → Except TemplateFault (CounterAction × Int64)
  | .reset => .ok (.init, 0)
  | .step down => .ok (.add, if down then -1 else 1)
  | .set negative digits =>
    let n : Int := Decimal.toNat digits
    match Word.ofInt? (if negative then -n else n) with
    | some amount => .ok (.init, amount)
    | none => .error (.amountOutOfRange (if negative then Byte.minus :: digits else digits))
  | .add negative digits =>
    match Word.ofInt? (Decimal.toNat digits) with
    | some amount => .ok (.add, if negative then -amount else amount)
    | none => .error (.amountOutOfRange digits)

/-- The word that a counter statement begins with. -/
def keyword : Bytes := ascii "counter"

/-- Reads a counter statement: a name and what happens to it. -/
def parse (content : Bytes) : Except TemplateFault Counter :=
  let (name, rest) := Statement.readWord (Bytes.skipBlanks (content.drop keyword.length))
  match readChange? rest.skipBlanks with
  | some change =>
    if name.isEmpty then .error (.malformedCounter content)
    else do
      let (action, amount) ← applyChange change
      return { name, action, amount }
  | none => .error (.malformedCounter content)

end Counter

end Stencil
