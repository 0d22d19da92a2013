import Stencil.Bytes.Quoted
import Stencil.Json.Basic
import Stencil.Number.Numeral

/-!
# Operands

An operand of a statement is a quoted literal, a number, one of the words `true`, `false`, `nil` and
`null`, or else the dotted path of a variable. The first three kinds are static: their value is in
the template.
-/

set_option autoImplicit false

namespace Stencil

/-- An operand: the text of a literal, or a path. -/
structure Operand where
  text : Bytes := []
  /-- Whether the operand is a literal. -/
  isStatic : Bool := false
  /-- Whether the literal was written in quotes. -/
  isQuoted : Bool := false
  deriving DecidableEq, Repr

namespace Operand

/-- Whether there is no operand: a path without text. -/
def isEmpty (operand : Operand) : Bool := operand.text.isEmpty && !operand.isStatic

/-- Whether a text is one of the words for truth values and null. -/
def isConstantWord (s : Bytes) : Bool :=
  s == ascii "true" || s == ascii "false" || s == ascii "nil" || s == ascii "null"

/-- Reads an operand. A quoted literal stands for its content; numerals and constant words are
static, and anything else names a variable. -/
def parse (s : Bytes) : Operand :=
  let token := s.strip
  match Quoted.decode? token with
  | some text => { text, isStatic := true, isQuoted := true }
  | none =>
    { text := token, isStatic := Numeral.isPlain token || isConstantWord token }

/-- The value of a literal: the text of a quoted one, the value of a word, and a number otherwise:
an integer when it has neither fraction nor exponent and is in range. -/
def literal (operand : Operand) : Json :=
  let text := operand.text
  if operand.isQuoted then .str text
  else if text == ascii "true" then .bool true
  else if text == ascii "false" then .bool false
  else if text == ascii "nil" || text == ascii "null" then .null
  else if Numeral.isPlain text then
    match Numeral.integer? text >>= Word.ofInt? with
    | some n => .int n.toInt
    | none => .float (Numeral.rounded text)
  else .str text

/-- The operand as it stands in an outline: quotes around a quoted literal, whatever it holds. -/
def outline (operand : Operand) : Bytes :=
  if operand.isQuoted then Byte.doubleQuote :: operand.text ++ [Byte.doubleQuote]
  else operand.text

/-! ## What is read -/

variable {s : Bytes}

/-- The constant words are the truth values and the two names of nothing. -/
theorem isConstantWord_iff :
    isConstantWord s = true ↔ s ∈ [ascii "true", ascii "false", ascii "nil", ascii "null"] := by
  simp [isConstantWord, or_assoc]

/-- A quoted literal is read as its content. -/
theorem parse_of_decode?_eq_some {text : Bytes} (h : Quoted.decode? s.strip = some text) :
    parse s = { text, isStatic := true, isQuoted := true } := by
  rw [parse]
  simp only [h]

/-- What is no quoted literal is read as it stands, and is static exactly when it is a numeral or a
constant word. -/
theorem parse_of_decode?_eq_none (h : Quoted.decode? s.strip = none) :
    parse s =
      { text := s.strip, isStatic := Numeral.isPlain s.strip || isConstantWord s.strip } := by
  rw [parse]
  simp only [h]

/-- What is no literal is the path that its text is. -/
theorem parse_of_isStatic_eq_false (h : (parse s).isStatic = false) :
    parse s = { text := s.strip } := by
  cases hdecode : Quoted.decode? s.strip with
  | some text =>
    rw [parse_of_decode?_eq_some hdecode] at h
    cases h
  | none =>
    have hparse := parse_of_decode?_eq_none hdecode
    rw [hparse] at h
    rw [hparse, show (Numeral.isPlain s.strip || isConstantWord s.strip) = false from h]

end Operand

end Stencil
