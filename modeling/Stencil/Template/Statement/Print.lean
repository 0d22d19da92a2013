import Stencil.Template.Statement.Basic

/-!
# Print statements

An optional mode letter, an equals sign, a value with its modifiers, and the clauses that give the
texts around it. A mode letter stands for a modifier that runs before the written ones. Of several
clauses the last ones count, and a prefix clause is looked for before the suffix clause first.
-/

set_option autoImplicit false

namespace Stencil

namespace Print

/-! ## Output modes -/

/-- The modifier that a mode letter other than the rounding ones stands for. -/
def escapeMode? (letter : UInt8) : Option Bytes :=
  if letter == 0x6a then some (ascii "jsonEscape")
  else if letter == 0x71 then some (ascii "jsonQuote")
  else if letter == 0x68 then some (ascii "htmlEscape")
  else if letter == 0x75 then some (ascii "urlEncode")
  else none

/-- Whether a rounding letter rounds up, when the letter is one. -/
def roundingMode? (letter : UInt8) : Option Bool :=
  if letter == 0x66 then some false
  else if letter == 0x46 then some true
  else none

/-- The modifier of a rounding letter without a number of places. -/
def wholeRounding (up : Bool) : ModifierCall :=
  { name := ascii (if up then "ceil" else "round") }

/-- The modifier of a rounding letter with a number of places. -/
def placeRounding (up : Bool) (places : Bytes) : ModifierCall :=
  { name := ascii (if up then "ceilPrec" else "roundPrec"), args := [Operand.parse places] }

/-- The modifiers of the output mode before the equals sign, and what follows the sign; nothing when
the text begins with no output mode. -/
def readMode? (content : Bytes) : Option (List ModifierCall × Bytes) :=
  let finish (modifiers : List ModifierCall) (s : Bytes) :=
    (Statement.dropByte? Byte.equals s).map fun rest => (modifiers, rest)
  match content with
  | [] => none
  | letter :: rest =>
    match roundingMode? letter, escapeMode? letter with
    | some up, _ =>
      match rest with
      | Byte.dot :: rest =>
        match Numeral.readDigits? rest with
        | some (places, rest) => finish [placeRounding up places] rest
        | none => none
      | _ => finish [wholeRounding up] rest
    | none, some name => finish [{ name }] rest
    | none, none => finish [] content

/-! ## Clauses -/

/-- A keyword as it stands before a clause: between two spaces. -/
def clauseMark (keyword : Bytes) : Bytes := Byte.space :: keyword ++ [Byte.space]

/-- The offset and the length of the last of two clause marks that stands at top level and ends at
or before `limit`. -/
def lastClause? (long short : Bytes) (limit : Nat) (expression : Bytes) : Option (Nat × Nat) :=
  let places (keyword : Bytes) :=
    let mark := clauseMark keyword
    ((Bytes.findTopLevel mark expression).filter (· + mark.length ≤ limit)).map
      fun offset => (offset, mark.length)
  (places long ++ places short).foldl (fun best place =>
    match best with
    | some found => if found.1 < place.1 then some place else some found
    | none => some place) none

/-- The last prefix clause that ends at or before `limit`. -/
def lastPrefix? (limit : Nat) (expression : Bytes) : Option (Nat × Nat) :=
  lastClause? (ascii "prefix") (ascii "pfx") limit expression

/-- The last suffix clause of an expression: the offset and the length of its mark. -/
def lastSuffix? (expression : Bytes) : Option (Nat × Nat) :=
  lastClause? (ascii "suffix") (ascii "sfx") expression.length expression

/-- The text of the clause whose mark has a given offset and length. -/
def clauseText (place : Nat × Nat) (expression : Bytes) : Bytes :=
  Quoted.literalOrText (expression.drop (place.1 + place.2))

/-- An expression without its clauses, and the texts of the prefix and the suffix clause. -/
def splitClauses (expression : Bytes) : Bytes × Bytes × Bytes :=
  match lastSuffix? expression with
  | some suffix =>
    match lastPrefix? suffix.1 expression with
    | some lead =>
      (expression.take lead.1, clauseText lead (expression.take suffix.1),
        clauseText suffix expression)
    | none =>
      match lastPrefix? expression.length expression with
      | some lead => (expression.take lead.1, clauseText lead expression, [])
      | none => (expression.take suffix.1, [], clauseText suffix expression)
  | none =>
    match lastPrefix? expression.length expression with
    | some lead => (expression.take lead.1, clauseText lead expression, [])
    | none => (expression, [], [])

/-! ## Modifiers -/

/-- A modifier call: a name, and arguments in parentheses or nothing after it. -/
def parseModifier (text : Bytes) : Except TemplateFault ModifierCall :=
  let part := text.strip
  let (name, rest) := Statement.readWord part
  let rest := rest.skipBlanks
  if name.isEmpty then .error (.malformedModifier part)
  else if rest.isEmpty then .ok { name }
  else
    match Statement.insideParens? rest with
    | some inside => .ok { name, args := Statement.parseArgs inside }
    | none => .error (.malformedModifier part)

/-- Reads what a print statement writes: an operand and modifiers behind bars. -/
def parseValue (expression : Bytes) : Except TemplateFault (Operand × List ModifierCall) := do
  let (first, parts) := Bytes.splitTopLevel Byte.bar expression.strip
  let value := Operand.parse first
  if value.isEmpty then .error .emptyPrint
  else return (value, ← parts.mapM parseModifier)

/-- The print statement that a content is, if it is one. -/
def parse? (content : Bytes) : Option (Except TemplateFault Print) :=
  (readMode? content).map fun (mode, expression) => do
    let (expression, before, after) := splitClauses expression
    let (value, modifiers) ← parseValue expression
    return { value, before, after, modifiers := mode ++ modifiers }

end Print

end Stencil
