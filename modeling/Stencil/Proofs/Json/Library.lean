import Stencil.Json.Library
import Stencil.Proofs.Number.Plain
import Stencil.Text.Utf8

/-!
# What is expected of a JSON library

The laws that a JSON library keeps. Floating point numbers are written so that they are read back
(`LawfulFloatText`), and documents are read in UTF-8 (`LawfulDocuments`). A statement names the laws
that it needs among its hypotheses; most statements need none and hold with any library.
-/

set_option autoImplicit false

namespace Stencil

namespace Json

/-- Every string in a value and every key is UTF-8. -/
inductive Encoded : Json → Prop where
  | null : Encoded .null
  | bool (value : Bool) : Encoded (.bool value)
  | int (value : Int) : Encoded (.int value)
  | float (value : Binary64) : Encoded (.float value)
  | str {text : Bytes} (h : Utf8.isValid text = true) : Encoded (.str text)
  | arr {items : List Json} (h : ∀ item ∈ items, Encoded item) : Encoded (.arr items)
  | obj {fields : List (Bytes × Json)} (hkeys : ∀ field ∈ fields, Utf8.isValid field.1 = true)
    (h : ∀ field ∈ fields, Encoded field.2) : Encoded (.obj fields)

namespace Encoded

/-- An encoded string is UTF-8. -/
theorem text {text : Bytes} (h : Encoded (.str text)) : Utf8.isValid text = true := by
  cases h with
  | str h => exact h

/-- The items of an encoded array are encoded. -/
theorem items {items : List Json} (h : Encoded (.arr items)) : ∀ item ∈ items, Encoded item := by
  cases h with
  | arr h => exact h

/-- The keys and entries of an encoded object are encoded. -/
theorem fields {fields : List (Bytes × Json)} (h : Encoded (.obj fields)) :
    ∀ field ∈ fields, Utf8.isValid field.1 = true ∧ Encoded field.2 := by
  cases h with
  | obj hkeys h => exact fun field hmem => ⟨hkeys field hmem, h field hmem⟩

end Encoded

end Json

/-- Floating point numbers are written as numerals that are read back. -/
class LawfulFloatText [JsonLibrary] : Prop where
  /-- Infinities and what is not a number are written as null. -/
  printFloat_of_not_isFinite {x : Binary64} (h : x.isFinite = false) :
    JsonLibrary.printFloat x = ascii "null"
  /-- A finite number is written as a numeral with a fraction or an exponent. -/
  exists_printFloat {x : Binary64} (h : x.isFinite = true) :
    ∃ written : WrittenDecimal, written.text = JsonLibrary.printFloat x ∧ written.IsPointed
  /-- A number that is not below the normal ones is read back from its text. -/
  real?_printFloat {x : Binary64} (h : x.isFinite = true)
    (hnormal : Binary64.hiddenBit ≤ x.magnitude) :
    Numeral.real? (JsonLibrary.printFloat x) = some x

/-- Documents are read in UTF-8, and refused for one of two reasons. -/
class LawfulDocuments [JsonLibrary] : Prop where
  /-- Every string in what a document holds is UTF-8. -/
  encoded_parse {text : Bytes} {value : Json} (h : JsonLibrary.parse text = .ok value) :
    value.Encoded
  /-- A text that is not read is no document, or has a number that is too large. -/
  eq_or_eq_of_parse {text : Bytes} {fault : JsonFault} (h : JsonLibrary.parse text = .error fault) :
    fault = .malformed ∨ fault = .outOfRange

end Stencil
