import Stencil.Builtins
import Stencil.Json.Strict
import Stencil.Proofs.Json.Coherence
import Stencil.Proofs.Number.Spelling

/-!
# Strings that hold numbers

A string holds a number when it spells one in range, in decimal or in one of the foreign spellings.
Any other string is a text and nothing else (`Json.toReal?_str_iff`): the modifiers that round
numbers leave it alone, and its comparisons are those of texts. The foreign spellings count although
the markup's own numerals are decimal, so that a string may hold what is not a number, and rounding
makes that of it (`Json.rounds_nan`).
-/

set_option autoImplicit false

namespace Stencil

namespace Modifier

/-- A built-in that rounds is found under its name, to an integer and to places. -/
theorem find?_builtins_of_rounding [JsonLibrary] {whole places : Bytes} {mode : Binary64.Rounding}
    (h : (whole, places, mode) ∈ roundings) :
    builtins.find? whole = some (ofFunction (applyRounding mode)) ∧
      builtins.find? places = some (ofFunction (applyPlaceRounding places mode)) := by
  simp only [roundings, List.mem_cons, List.not_mem_nil, or_false, Prod.mk.injEq] at h
  obtain ⟨rfl, rfl, rfl⟩ | ⟨rfl, rfl, rfl⟩ | ⟨rfl, rfl, rfl⟩ := h <;> exact ⟨rfl, rfl⟩

/-- The names of the built-ins that round numbers. -/
def roundingNames : List Bytes :=
  ["round", "roundPrec", "ceil", "ceilPrec", "floor", "floorPrec"].map ascii

/-- The name of a rounding is one of the two that its table lists. -/
theorem exists_rounding {name : Bytes} (h : name ∈ roundingNames) :
    ∃ whole places mode, (whole, places, mode) ∈ roundings ∧ (name = whole ∨ name = places) := by
  have hnames : ∀ name ∈ roundingNames,
      ∃ entry ∈ roundings, name = entry.1 ∨ name = entry.2.1 := by decide
  obtain ⟨⟨whole, places, mode⟩, hmem, hname⟩ := hnames name h
  exact ⟨whole, places, mode, hmem, hname⟩

/-- What is no number is not rounded, whatever the arguments. -/
theorem exists_modifier_of_toReal?_eq_none [JsonLibrary] {name : Bytes}
    (hname : name ∈ roundingNames) {value : Json} (hvalue : value.toReal? = none) :
    ∃ modifier, builtins.find? name = some modifier ∧
      ∀ (scope : Scope) (args : List Json),
        modifier scope value args = .ok (value, scope.bindings) := by
  obtain ⟨whole, places, mode, hmem, hname⟩ := exists_rounding hname
  obtain ⟨hwhole, hplaces⟩ := find?_builtins_of_rounding hmem
  obtain rfl | rfl := hname
  · refine ⟨_, hwhole, fun scope args => ?_⟩
    rw [ofFunction, applyRounding, hvalue]
    rfl
  · refine ⟨_, hplaces, fun scope args => ?_⟩
    rw [ofFunction, applyPlaceRounding, hvalue]
    rfl

end Modifier

namespace Json

variable {s : Bytes} {kind : Bytes} {inspector : Inspector}

/-- A string without a number is compared as a text by every inspector that takes it for a
scalar. -/
theorem compare_str_of_real?_eq_none [JsonLibrary] (hread : Numeral.real? s = none)
    (hbuiltin : (kind, inspector) ∈ Inspector.builtins)
    (hname : inspector.name ∉ Inspector.containerNames) (op : Operator) (rhs : Bytes) :
    inspector.compare (str s) op rhs = .ok (op.holdsText s rhs) := by
  rw [Inspector.compare_eq_compareScalar hbuiltin hname rfl, compareScalar, hread]
  rfl

/-- A string holds the numbers in range that it spells, in decimal or in one of the foreign
spellings, without the blanks around it. A string that spells no number in range is left alone by
the modifiers that round and is compared as a text. -/
theorem toReal?_str_iff [JsonLibrary] (s : Bytes) :
    (∀ x, (str s).toReal? = some x ↔
      ∃ reading, (Numeral.IsDecimal (Bytes.skipBlanks s.strip) reading ∨
        Numeral.IsForeign (Bytes.skipBlanks s.strip) reading) ∧
        reading.isOutOfRange = false ∧ reading.toBinary64 = x) ∧
    ((∀ reading, Numeral.IsDecimal (Bytes.skipBlanks s.strip) reading ∨
        Numeral.IsForeign (Bytes.skipBlanks s.strip) reading → reading.isOutOfRange = true) →
      (∀ name ∈ Modifier.roundingNames, ∃ modifier, Modifier.builtins.find? name = some modifier ∧
        ∀ (scope : Scope) (args : List Json),
          modifier scope (str s) args = .ok (str s, scope.bindings)) ∧
      ∀ kind inspector, (kind, inspector) ∈ Inspector.builtins →
        inspector.name ∉ Inspector.containerNames →
        ∀ (op : Operator) (rhs : Bytes),
          inspector.compare (str s) op rhs = .ok (op.holdsText s rhs)) := by
  refine ⟨fun x => Numeral.real?_eq_some_iff, fun hnone => ?_⟩
  have hread : Numeral.real? s = none := by
    refine Option.eq_none_iff_forall_ne_some.mpr fun x hx => ?_
    obtain ⟨reading, hspells, hrange, -⟩ := Numeral.real?_eq_some_iff.mp hx
    rw [hnone reading hspells] at hrange
    cases hrange
  exact ⟨fun name hname => Modifier.exists_modifier_of_toReal?_eq_none hname hread,
    fun kind inspector hbuiltin hname => compare_str_of_real?_eq_none hread hbuiltin hname⟩

open scoped JsonLibrary.Strict

/-- A word that only begins with a foreign spelling holds no number: rounding leaves it alone, and
its blank puts it before a digit. -/
theorem toReal?_str_info :
    (∀ reading, Numeral.IsDecimal (Bytes.skipBlanks (ascii " info").strip) reading ∨
      Numeral.IsForeign (Bytes.skipBlanks (ascii " info").strip) reading →
        reading.isOutOfRange = true) ∧
    (∃ modifier, Modifier.builtins.find? (ascii "ceilPrec") = some modifier ∧
      ∀ (scope : Scope) (args : List Json),
        modifier scope (str (ascii " info")) args = .ok (str (ascii " info"), scope.bindings)) ∧
    Inspector.json.compare (str (ascii " info")) .less (ascii "5") = .ok true := by
  have hnone : ∀ reading, Numeral.Spells (Bytes.skipBlanks (ascii " info").strip) reading →
      reading.isOutOfRange = true := by
    intro reading hspells
    have hread : Numeral.readReal? (ascii " info").strip = some (.infinite false, ascii "o") := by
      decide +kernel
    rw [← Numeral.readReal?_eq_some_iff, hread] at hspells
    cases hspells
  obtain ⟨hrounding, hcompare⟩ := (toReal?_str_iff (ascii " info")).2 hnone
  refine ⟨hnone, hrounding _ (by decide), ?_⟩
  rw [hcompare _ Inspector.json (.head _) (by decide)]
  rfl

/-- The word for what is not a number counts as a number although it spells no decimal one: rounding
it gives a number, whose text is another. -/
theorem rounds_nan :
    (str (ascii "nan")).toReal? = some Binary64.nan ∧
    (∀ reading, ¬ Numeral.IsDecimal (Bytes.skipBlanks (ascii "nan").strip) reading) ∧
    (∃ modifier, Modifier.builtins.find? (ascii "round") = some modifier ∧
      ∀ (scope : Scope) (args : List Json),
        modifier scope (str (ascii "nan")) args = .ok (float Binary64.nan, scope.bindings)) ∧
    (float Binary64.nan).toText = .ok (ascii "null") ∧
    Inspector.json.compare (str (ascii "nan")) .greater (ascii "5") = .ok false ∧
    Operator.greater.holdsText (ascii "nan") (ascii "5") = true := by
  have hread : (str (ascii "nan")).toReal? = some Binary64.nan := by decide +kernel
  refine ⟨hread, fun reading hdecimal => ?_, ⟨_, rfl, fun scope args => ?_⟩, by decide +kernel,
    by decide +kernel, by decide +kernel⟩
  · have hbyte := hdecimal.isByte_of_mem (b := 0x6e) (by decide)
    cases hbyte
  · rw [Modifier.ofFunction, Modifier.applyRounding, hread]
    rfl

end Json

end Stencil
