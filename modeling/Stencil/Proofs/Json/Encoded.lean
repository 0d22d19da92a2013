import Stencil.Json.View
import Stencil.Proofs.Json.Library
import Stencil.Proofs.Text.Utf8

/-!
# Values in UTF-8

A value is encoded when every string in it and every key is UTF-8. Such a value can be written
(`Json.Encoded.exists_print`), and what is written is UTF-8 (`Json.isValid_print`) as long as the
library writes numbers so. Writing fails for no other reason than a string that is not UTF-8
(`Json.Unwritable.print`), and it does for every value that is not encoded
(`Json.encoded_of_print`).
-/

set_option autoImplicit false

namespace Stencil

/-! ## Numbers are written in ASCII -/

namespace Decimal

/-- The digits of a natural number are ASCII. -/
theorem isAscii_ofNat (n : Nat) : (ofNat n).isAscii = true := by
  have hdigit : ∀ n < 10, Byte.ofDigit n < 0x80 := by decide
  induction n using Nat.strongRecOn with
  | ind n ih =>
    rw [ofNat]
    split
    · rename_i hsmall
      simp [hdigit n hsmall]
    · simp [ih (n / 10) (by omega), hdigit (n % 10) (Nat.mod_lt _ (by decide))]

/-- The text of an integer is ASCII. -/
theorem isAscii_ofInt (n : Int) : (ofInt n).isAscii = true := by
  cases n with
  | ofNat n => exact isAscii_ofNat n
  | negSucc n =>
    have hminus : Byte.minus < 0x80 := by decide
    simpa [ofInt, hminus] using isAscii_ofNat (n + 1)

end Decimal

namespace Json

/-- The text of a floating point number is ASCII. -/
theorem isAscii_printFloat [JsonLibrary] [LawfulFloatText] (x : Binary64) :
    (JsonLibrary.printFloat x).isAscii = true := by
  have hbyte : ∀ b, WrittenDecimal.isByte b = true → b < 0x80 := fun b =>
    WrittenDecimal.forall_isByte (fun b => b < 0x80) (by decide) (by decide +kernel)
  cases hfinite : x.isFinite with
  | false =>
    rw [LawfulFloatText.printFloat_of_not_isFinite hfinite]
    decide
  | true =>
    obtain ⟨written, htext, -⟩ := LawfulFloatText.exists_printFloat hfinite
    rw [← htext, Bytes.isAscii, List.all_eq_true]
    exact fun b hb => decide_eq_true (hbyte b (written.isByte_of_mem_text hb))

/-- The text of a floating point number is ASCII. -/
theorem isAscii_floatText [JsonLibrary] [LawfulFloatText] (x : Binary64) :
    (floatText x).isAscii = true := by
  unfold floatText
  split
  · exact Decimal.isAscii_ofInt _
  · exact isAscii_printFloat x

/-! ## Writing -/

/-- A string in UTF-8 can be written. -/
theorem printString_of_isValid {text : Bytes} (h : Utf8.isValid text = true) :
    printString text = .ok (quote text) := by
  rw [printString, if_pos h]

/-- Only a string in UTF-8 can be written. -/
theorem isValid_of_printString {text written : Bytes} (h : printString text = .ok written) :
    Utf8.isValid text = true := by
  rw [printString] at h
  split at h
  · assumption
  · cases h

section Writing

variable [JsonLibrary]

mutual

/-- An encoded value can be written. -/
theorem Encoded.exists_print :
    (value : Json) → value.Encoded → ∃ written, value.print = .ok written
  | .null, _ | .bool _, _ | .int _, _ | .float _, _ => ⟨_, by rw [Json.print]⟩
  | .str text, h => ⟨_, by rw [Json.print, printString_of_isValid h.text]⟩
  | .arr items, h => by
    obtain ⟨inside, hinside⟩ := Encoded.exists_printItems items h.items
    exact ⟨_, by rw [Json.print, hinside]; rfl⟩
  | .obj fields, h => by
    obtain ⟨inside, hinside⟩ := Encoded.exists_printFields fields h.fields
    exact ⟨_, by rw [Json.print, hinside]; rfl⟩

/-- Encoded items can be written. -/
theorem Encoded.exists_printItems : (items : List Json) → (∀ item ∈ items, item.Encoded) →
    ∃ written, Json.printItems items = .ok written
  | [], _ => ⟨[], by rw [Json.printItems]⟩
  | [item], h => by
    rw [Json.printItems]
    exact Encoded.exists_print item (h item (.head _))
  | item :: next :: rest, h => by
    obtain ⟨first, hfirst⟩ := Encoded.exists_print item (h item (.head _))
    obtain ⟨more, hmore⟩ :=
      Encoded.exists_printItems (next :: rest) fun item hmem => h item (.tail _ hmem)
    refine ⟨first ++ Byte.comma :: more, ?_⟩
    rw [Json.printItems, hfirst, hmore]
    · rfl
    · simp

/-- Fields with encoded values and keys in UTF-8 can be written. -/
theorem Encoded.exists_printFields : (fields : List (Bytes × Json)) →
    (∀ field ∈ fields, Utf8.isValid field.1 = true ∧ field.2.Encoded) →
      ∃ written, Json.printFields fields = .ok written
  | [], _ => ⟨[], by rw [Json.printFields]⟩
  | [(key, value)], h => by
    obtain ⟨hkey, hvalue⟩ := h (key, value) (.head _)
    obtain ⟨text, htext⟩ := Encoded.exists_print value hvalue
    exact ⟨_, by rw [Json.printFields, printString_of_isValid hkey, htext]; rfl⟩
  | (key, value) :: next :: rest, h => by
    obtain ⟨hkey, hvalue⟩ := h (key, value) (.head _)
    obtain ⟨text, htext⟩ := Encoded.exists_print value hvalue
    obtain ⟨more, hmore⟩ :=
      Encoded.exists_printFields (next :: rest) fun field hmem => h field (.tail _ hmem)
    refine ⟨quote key ++ Byte.colon :: text ++ Byte.comma :: more, ?_⟩
    rw [Json.printFields, printString_of_isValid hkey, htext, hmore]
    · rfl
    · simp

end

/-- An encoded value has a text. -/
theorem Encoded.exists_toText {value : Json} (h : value.Encoded) :
    ∃ text, value.toText = .ok text := by
  cases value with
  | arr items => exact Encoded.exists_print _ h
  | obj fields => exact Encoded.exists_print _ h
  | _ => exact ⟨_, rfl⟩

end Writing

/-! ## What is written is UTF-8 -/

/-- When two steps succeed together, each of them does. -/
theorem exists_ok_of_bind {α β : Type} {result : Except JsonFault α}
    {next : α → Except JsonFault β} {value : β} (h : (result >>= next) = .ok value) :
    ∃ first, result = .ok first ∧ next first = .ok value := by
  cases result with
  | error fault => cases h
  | ok first => exact ⟨first, rfl, h⟩

/-- A string is written in UTF-8, if it is written at all. -/
theorem isValid_printString {text written : Bytes} (h : printString text = .ok written) :
    Utf8.isValid written = true := by
  have htext := isValid_of_printString h
  rw [printString_of_isValid htext] at h
  cases h
  rw [quote, List.cons_append, Utf8.isValid_cons (by decide)]
  exact Utf8.isValid_append (isValid_escape htext) (by decide)

mutual

/-- A value is written in UTF-8, if it is written at all. -/
theorem isValid_print [JsonLibrary] [LawfulFloatText] :
    (value : Json) → {written : Bytes} → value.print = .ok written → Utf8.isValid written = true
  | .null, _, h => by
    rw [Json.print] at h
    cases h
    decide
  | .bool value, _, h => by
    rw [Json.print] at h
    cases h
    cases value <;> decide
  | .int value, _, h => by
    rw [Json.print] at h
    cases h
    exact Utf8.isValid_of_isAscii (Decimal.isAscii_ofInt value)
  | .float value, _, h => by
    rw [Json.print] at h
    cases h
    exact Utf8.isValid_of_isAscii (isAscii_printFloat value)
  | .str text, _, h => by
    rw [Json.print] at h
    exact isValid_printString h
  | .arr items, _, h => by
    rw [Json.print] at h
    obtain ⟨inside, hinside, h⟩ := exists_ok_of_bind h
    cases h
    rw [List.cons_append, Utf8.isValid_cons (by decide)]
    exact Utf8.isValid_append (isValid_printItems items hinside) (by decide)
  | .obj fields, _, h => by
    rw [Json.print] at h
    obtain ⟨inside, hinside, h⟩ := exists_ok_of_bind h
    cases h
    rw [List.cons_append, Utf8.isValid_cons (by decide)]
    exact Utf8.isValid_append (isValid_printFields fields hinside) (by decide)

/-- The items of an array are written in UTF-8. -/
theorem isValid_printItems [JsonLibrary] [LawfulFloatText] :
    (items : List Json) → {written : Bytes} →
    printItems items = .ok written → Utf8.isValid written = true
  | [], _, h => by
    rw [printItems] at h
    cases h
    decide
  | [item], _, h => by
    rw [printItems] at h
    exact isValid_print item h
  | item :: next :: rest, _, h => by
    rw [printItems] at h
    · obtain ⟨first, hfirst, h⟩ := exists_ok_of_bind h
      obtain ⟨more, hmore, h⟩ := exists_ok_of_bind h
      cases h
      rw [Utf8.isValid_append_cons _ _ (by decide), isValid_print item hfirst,
        isValid_printItems (next :: rest) hmore]
      rfl
    · simp

/-- The fields of an object are written in UTF-8. -/
theorem isValid_printFields [JsonLibrary] [LawfulFloatText] :
    (fields : List (Bytes × Json)) → {written : Bytes} →
    printFields fields = .ok written → Utf8.isValid written = true
  | [], _, h => by
    rw [printFields] at h
    cases h
    decide
  | [(key, value)], _, h => by
    rw [printFields] at h
    obtain ⟨name, hname, h⟩ := exists_ok_of_bind h
    obtain ⟨first, hfirst, h⟩ := exists_ok_of_bind h
    cases h
    rw [Utf8.isValid_append_cons _ _ (by decide), isValid_printString hname,
      isValid_print value hfirst]
    rfl
  | (key, value) :: next :: rest, _, h => by
    rw [printFields] at h
    · obtain ⟨name, hname, h⟩ := exists_ok_of_bind h
      obtain ⟨first, hfirst, h⟩ := exists_ok_of_bind h
      obtain ⟨more, hmore, h⟩ := exists_ok_of_bind h
      cases h
      rw [Utf8.isValid_append_cons _ _ (by decide), Utf8.isValid_append_cons _ _ (by decide),
        isValid_printString hname, isValid_print value hfirst,
        isValid_printFields (next :: rest) hmore]
      rfl
    · simp

end

/-- The text of an encoded value is UTF-8. -/
theorem Encoded.isValid_toText [JsonLibrary] [LawfulFloatText] {value : Json} {text : Bytes}
    (h : value.Encoded)
    (htext : value.toText = .ok text) : Utf8.isValid text = true := by
  cases value with
  | null =>
    cases htext
    decide
  | bool value =>
    cases htext
    cases value <;> decide
  | int value =>
    cases htext
    exact Utf8.isValid_of_isAscii (Decimal.isAscii_ofInt value)
  | float value =>
    cases htext
    exact Utf8.isValid_of_isAscii (isAscii_floatText value)
  | str text =>
    cases htext
    exact h.text
  | arr items => exact isValid_print (.arr items) htext
  | obj fields => exact isValid_print (.obj fields) htext

/-! ## Why writing fails -/

/-- A writing that fails for no other reason than a string that is not UTF-8. -/
def Unwritable {α : Type} (result : Except JsonFault α) : Prop :=
  ∀ fault, result = .error fault → fault = .notUtf8

namespace Unwritable

variable {α β : Type}

/-- What is written fails for no reason. -/
theorem ok (value : α) : Unwritable (.ok value) := by
  intro fault h
  cases h

/-- A step behind another fails for no other reason than the two of them. -/
theorem bind {result : Except JsonFault α} {next : α → Except JsonFault β}
    (hresult : Unwritable result) (hnext : ∀ value, Unwritable (next value)) :
    Unwritable (result >>= next) := by
  cases result with
  | ok value => exact hnext value
  | error fault =>
    intro other h
    cases h
    exact hresult fault rfl

/-- A string fails to be written only when it is not UTF-8. -/
theorem printString (text : Bytes) : Unwritable (Json.printString text) := by
  intro fault h
  rw [Json.printString] at h
  split at h
  · cases h
  · cases h
    rfl

mutual

/-- A value fails to be written only for want of UTF-8. -/
theorem print [JsonLibrary] : (value : Json) → Unwritable value.print
  | .null | .bool _ | .int _ | .float _ => by
    rw [Json.print]
    exact .ok _
  | .str text => by
    rw [Json.print]
    exact .printString text
  | .arr items => by
    rw [Json.print]
    exact .bind (printItems items) fun _ => .ok _
  | .obj fields => by
    rw [Json.print]
    exact .bind (printFields fields) fun _ => .ok _

/-- The items of an array fail to be written only for want of UTF-8. -/
theorem printItems [JsonLibrary] : (items : List Json) → Unwritable (Json.printItems items)
  | [] => by
    rw [Json.printItems]
    exact .ok _
  | [item] => by
    rw [Json.printItems]
    exact print item
  | item :: next :: rest => by
    rw [Json.printItems]
    · exact .bind (print item) fun _ => .bind (printItems (next :: rest)) fun _ => .ok _
    · simp

/-- The fields of an object fail to be written only for want of UTF-8. -/
theorem printFields [JsonLibrary] :
    (fields : List (Bytes × Json)) → Unwritable (Json.printFields fields)
  | [] => by
    rw [Json.printFields]
    exact .ok _
  | [(key, value)] => by
    rw [Json.printFields]
    exact .bind (.printString key) fun _ => .bind (print value) fun _ => .ok _
  | (key, value) :: next :: rest => by
    rw [Json.printFields]
    · exact .bind (.printString key) fun _ => .bind (print value) fun _ =>
        .bind (printFields (next :: rest)) fun _ => .ok _
    · simp

end

/-- A value fails to have a text only for want of UTF-8. -/
theorem toText [JsonLibrary] (value : Json) : Unwritable value.toText := by
  cases value with
  | arr items => exact print (.arr items)
  | obj fields => exact print (.obj fields)
  | _ => exact .ok _

end Unwritable

/-! ## What can be written -/

mutual

/-- Only an encoded value can be written. -/
theorem encoded_of_print [JsonLibrary] :
    (value : Json) → {written : Bytes} → value.print = .ok written → value.Encoded
  | .null, _, _ => .null
  | .bool value, _, _ => .bool value
  | .int value, _, _ => .int value
  | .float value, _, _ => .float value
  | .str text, _, h => by
    rw [Json.print] at h
    exact .str (isValid_of_printString h)
  | .arr items, _, h => by
    rw [Json.print] at h
    obtain ⟨inside, hinside, -⟩ := exists_ok_of_bind h
    exact .arr (encoded_of_printItems items hinside)
  | .obj fields, _, h => by
    rw [Json.print] at h
    obtain ⟨inside, hinside, -⟩ := exists_ok_of_bind h
    have hfields := encoded_of_printFields fields hinside
    exact .obj (fun field hmem => (hfields field hmem).1) fun field hmem => (hfields field hmem).2

/-- The items of an array that is written are encoded. -/
theorem encoded_of_printItems [JsonLibrary] : (items : List Json) → {written : Bytes} →
    printItems items = .ok written → ∀ item ∈ items, item.Encoded
  | [], _, _ => by simp
  | [item], _, h => by
    rw [printItems] at h
    simpa using encoded_of_print item h
  | item :: next :: rest, _, h => by
    rw [printItems] at h
    · obtain ⟨first, hfirst, h⟩ := exists_ok_of_bind h
      obtain ⟨more, hmore, -⟩ := exists_ok_of_bind h
      exact List.forall_mem_cons.mpr
        ⟨encoded_of_print item hfirst, encoded_of_printItems (next :: rest) hmore⟩
    · simp

/-- The keys and entries of an object that is written are encoded. -/
theorem encoded_of_printFields [JsonLibrary] : (fields : List (Bytes × Json)) → {written : Bytes} →
    printFields fields = .ok written →
      ∀ field ∈ fields, Utf8.isValid field.1 = true ∧ field.2.Encoded
  | [], _, _ => by simp
  | [(key, value)], _, h => by
    rw [printFields] at h
    obtain ⟨name, hname, h⟩ := exists_ok_of_bind h
    obtain ⟨first, hfirst, -⟩ := exists_ok_of_bind h
    exact List.forall_mem_singleton.mpr
      ⟨isValid_of_printString hname, encoded_of_print value hfirst⟩
  | (key, value) :: next :: rest, _, h => by
    rw [printFields] at h
    · obtain ⟨name, hname, h⟩ := exists_ok_of_bind h
      obtain ⟨first, hfirst, h⟩ := exists_ok_of_bind h
      obtain ⟨more, hmore, -⟩ := exists_ok_of_bind h
      exact List.forall_mem_cons.mpr
        ⟨⟨isValid_of_printString hname, encoded_of_print value hfirst⟩,
          encoded_of_printFields (next :: rest) hmore⟩
    · simp

end

end Json

end Stencil
