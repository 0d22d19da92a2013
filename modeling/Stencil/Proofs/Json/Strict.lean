import Stencil.Proofs.Json.Library
import Stencil.Proofs.Json.ShortestText

/-!
# The strict library keeps the laws

What the strict library reads from a document is encoded (`Json.gives_parse`), and the texts that it
writes for floating point numbers are read back. So it keeps the laws of JSON libraries.
-/

set_option autoImplicit false

namespace Stencil

namespace Json

/-! ## What is read -/

/-- A reading gives what has a property, or finds that the text is no document or that a number in
it is out of range. -/
def Gives {α : Type} (property : α → Prop) : Except JsonFault α → Prop
  | .ok value => property value
  | .error fault => fault = .malformed ∨ fault = .outOfRange

namespace Gives

variable {α β : Type} {property : α → Prop}

/-- What is read has the property. -/
theorem ok {value : α} (h : property value) : Gives property (.ok value) := h

/-- A reading may find that the text is no document. -/
theorem malformed : Gives property (.error .malformed) := .inl rfl

/-- A reading may find that a number is out of range. -/
theorem outOfRange : Gives property (.error .outOfRange) := .inr rfl

/-- A reading behind another gives what the second one does, when it starts from what the first
gives. -/
theorem bind {result : Except JsonFault α} {next : α → Except JsonFault β} {further : β → Prop}
    (hresult : Gives property result)
    (hnext : ∀ value, property value → Gives further (next value)) :
    Gives further (result >>= next) := by
  cases result with
  | ok value => exact hnext value hresult
  | error fault => exact hresult

end Gives

/-- The text of a literal is UTF-8. -/
theorem gives_readText (s : Bytes) :
    Gives (fun found => Utf8.isValid found.1 = true) (readText s) := by
  unfold readText
  split
  · split
    · rename_i hvalid
      exact .ok hvalid
    · exact .malformed
  · exact .malformed

/-- A numeral is read as a number. -/
theorem gives_ofNumeral (s : Bytes) : Gives Encoded (ofNumeral s) := by
  unfold ofNumeral
  simp only
  split
  · split
    · exact .ok (.int _)
    · split
      · exact .ok (.float _)
      · exact .outOfRange
  · split
    · exact .ok (.float _)
    · exact .outOfRange

/-- A word that is read is a truth value or null. -/
theorem encoded_of_readWord? {s rest : Bytes} {value : Json}
    (h : readWord? s = some (value, rest)) : value.Encoded := by
  unfold readWord? at h
  split at h
  · cases h
    exact .null
  · split at h
    · cases h
      exact .bool true
    · split at h
      · cases h
        exact .bool false
      · cases h

/-- A value without parts is encoded. -/
theorem gives_readAtom (s : Bytes) : Gives (fun found => Encoded found.1) (readAtom s) := by
  unfold readAtom
  split
  · rename_i found hword
    exact .ok (encoded_of_readWord? hword)
  · unfold readNumber
    simp only
    split
    · exact .bind (gives_ofNumeral _) fun _ hvalue => .ok hvalue
    · exact .malformed

/-- Fields whose keys are UTF-8 and whose values are encoded. -/
def EncodedFields (fields : Table Json) : Prop :=
  ∀ field ∈ fields, Utf8.isValid field.1 = true ∧ Encoded field.2

/-- Encoded fields take another one. -/
theorem EncodedFields.insert {fields : Table Json} {key : Bytes} {value : Json}
    (h : EncodedFields fields) (hkey : Utf8.isValid key = true) (hvalue : value.Encoded) :
    EncodedFields (fields.insert key value) :=
  Table.forall_mem_insert (fun field => Utf8.isValid field.1 = true ∧ Encoded field.2) h
    ⟨hkey, hvalue⟩

mutual

/-- What is read from a text is encoded: strings are checked where they are read. -/
theorem gives_readValue :
    (fuel : Nat) → (s : Bytes) → Gives (fun found => Encoded found.1) (readValue fuel s)
  | 0, _ => by
    rw [readValue]
    exact .malformed
  | fuel + 1, s => by
    rw [readValue]
    split
    · exact .bind (gives_readText _) fun _ htext => .ok (.str htext)
    · split
      · exact .ok (.arr (by simp))
      · exact .bind (gives_readItems fuel _) fun _ hitems => .ok (.arr hitems)
    · split
      · exact .ok (.obj (by simp) (by simp))
      · exact .bind (gives_readFields fuel [] _ (by simp [EncodedFields])) fun _ hfields =>
          .ok (.obj (fun field hmem => (hfields field hmem).1) fun field hmem =>
            (hfields field hmem).2)
    · exact gives_readAtom _

/-- The items of an array are encoded. -/
theorem gives_readItems : (fuel : Nat) → (s : Bytes) →
    Gives (fun found => ∀ item ∈ found.1, Encoded item) (readItems fuel s)
  | 0, _ => by
    rw [readItems]
    exact .malformed
  | fuel + 1, s => by
    rw [readItems]
    refine .bind (gives_readValue fuel s) ?_
    rintro ⟨item, rest⟩ hitem
    simp only
    split
    · refine .bind (gives_readItems fuel _) ?_
      rintro ⟨items, rest⟩ hitems
      exact .ok (List.forall_mem_cons.mpr ⟨hitem, hitems⟩)
    · exact .ok (List.forall_mem_cons.mpr ⟨hitem, by simp⟩)
    · exact .malformed

/-- The fields of an object are encoded, with those that were read before. -/
theorem gives_readFields : (fuel : Nat) → (fields : Table Json) → (s : Bytes) →
    EncodedFields fields → Gives (fun found => EncodedFields found.1) (readFields fuel fields s)
  | 0, _, _, _ => by
    rw [readFields]
    exact .malformed
  | fuel + 1, fields, s, hfields => by
    rw [readFields]
    split
    · refine .bind (gives_readText _) ?_
      rintro ⟨key, rest⟩ hkey
      simp only
      split
      · refine .bind (gives_readValue fuel _) ?_
        rintro ⟨value, rest⟩ hvalue
        have hmore : EncodedFields (fields.insert key value) := hfields.insert hkey hvalue
        simp only
        split
        · exact gives_readFields fuel _ _ hmore
        · exact .ok hmore
        · exact .malformed
      · exact .malformed
    · exact .malformed

end

/-- What a document holds is encoded. -/
theorem gives_parse (document : Bytes) : Gives Encoded (parse document) := by
  unfold parse
  refine .bind (gives_readValue _ _) ?_
  rintro ⟨value, rest⟩ hvalue
  simp only
  split
  · exact .ok hvalue
  · exact .malformed

end Json

/-! ## The laws -/

namespace JsonLibrary.Strict

open Json

/-- The shortest texts of floating point numbers are lawful. -/
scoped instance lawfulFloatText : LawfulFloatText where
  printFloat_of_not_isFinite {x} hfinite := by
    show printShortest x = _
    rw [printShortest, hfinite]
    rfl
  exists_printFloat {x} hfinite := by
    cases hzero : x.isZero with
    | false =>
      obtain ⟨written, htext, -, -, -, hpointed⟩ := exists_printShortest hfinite hzero
      exact ⟨written, htext, hpointed⟩
    | true =>
      refine ⟨⟨x.isNegative, [0x30], [0x30], none, List.cons_ne_nil _ _,
        List.all_eq_true.mp rfl⟩, ?_, .inl (List.cons_ne_nil _ _)⟩
      show _ = printShortest x
      rw [printShortest, hfinite, hzero]
      rfl
  real?_printFloat hfinite hnormal := real?_printShortest hfinite hnormal

/-- The strict reader is lawful. -/
scoped instance lawfulDocuments : LawfulDocuments where
  encoded_parse {text value} h := by
    have hread : Json.parse text = .ok value := h
    have hgives := gives_parse text
    rwa [hread] at hgives
  eq_or_eq_of_parse {text fault} h := by
    have hread : Json.parse text = .error fault := h
    have hgives := gives_parse text
    rwa [hread] at hgives

end JsonLibrary.Strict

end Stencil
