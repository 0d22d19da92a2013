import Stencil.Json.Strict
import Stencil.Proofs.Number.Language
import Stencil.Proofs.Number.Truncation
import Stencil.Proofs.Render.LiteralValue
import Stencil.Proofs.Template.Setting

/-!
# The readers of integers

Three readers take the writing of an integer for a signed 64-bit word: the view of a string, the
literal of an operand, and the amount of a statement that sets a counter. They agree
(`Json.integer_readers_agree`): each reads every writing of an integer in range as that integer, and
none reads one out of the range as an integer. Views of numbers draw the line at the same two ends
of the range, of floating point numbers without their fractions.
-/

set_option autoImplicit false

namespace Stencil

/-! ## Canonical texts -/

/-- No zero leads the digits of a number but zero. -/
theorem Decimal.head?_ofNat {n : Nat} (hn : n ≠ 0) : (ofNat n).head? ≠ some 0x30 := by
  have hdigit : ∀ n < 10, n ≠ 0 → Byte.ofDigit n ≠ 0x30 := by decide
  induction n using Nat.strongRecOn with
  | ind n ih =>
    rw [ofNat]
    split
    · rename_i hsmall
      simpa using hdigit n hsmall hn
    · rename_i hlarge
      obtain ⟨first, more, hcons⟩ := List.exists_cons_of_ne_nil (ofNat_ne_nil (n / 10))
      have hfirst := ih (n / 10) (by omega) (by omega)
      rw [hcons] at hfirst ⊢
      exact hfirst

namespace WrittenInteger

/-- Whether no zero leads the digits, and no sign stands before zero. -/
def IsCanonical (written : WrittenInteger) : Prop :=
  written.digits.head? = some 0x30 → written.text = ascii "0"

/-- The text of an integer is canonical. -/
theorem isCanonical_ofInt (n : Int) : (ofInt n).IsCanonical := by
  intro hzero
  have hn : n.natAbs = 0 := by
    by_contra hne
    exact Decimal.head?_ofNat hne hzero
  rw [Int.natAbs_eq_zero.mp hn]
  decide +kernel

/-! ## Texts that are read as integers -/

variable (written : WrittenInteger)

/-- A written integer is a static operand that stands for itself. -/
theorem parse_text : Operand.parse written.text = { text := written.text, isStatic := true } := by
  have hparse := (WrittenBound.integer written).parse_text
  rw [WrittenBound.operand] at hparse
  simpa [WrittenBound.text, written.isPlain_text] using hparse

/-- An integer out of the range is rounded to the number nearest to it. -/
theorem rounded_text (hvalue : written.value ≠ 0) :
    Numeral.rounded written.text = Binary64.ofInt written.value := by
  have hsign : written.negative = decide (written.value < 0) := by
    rw [value] at hvalue ⊢
    cases written.negative with
    | true => simp at hvalue ⊢; omega
    | false => simp
  rw [Numeral.rounded, written.readReal?_text]
  simp only [Numeral.Reading.toBinary64_natural]
  rw [Binary64.ofInt_eq, natAbs_value, ← hsign]

/-- Whether all readers of integers read a writing as a word. -/
structure IsRead (n : Int64) : Prop where
  string : (Json.str written.text).toWord? = some n
  static : (Operand.parse written.text).isStatic = true
  literal : (Operand.parse written.text).literal = Json.ofWord n
  counter : ∀ (setting : WrittenSetting) (keepFormatting : Bool),
    Tree.parse keepFormatting (Source.markup (setting.inside written)) =
      .ok ⟨[.counter { name := setting.name, action := .init, amount := n }]⟩

/-- Whether no reader of integers reads a writing as one: the literal is the number nearest to it,
and no counter is set to it. -/
structure IsRefused : Prop where
  string : (Json.str written.text).toWord? = none
  static : (Operand.parse written.text).isStatic = true
  literal : (Operand.parse written.text).literal = .float (Binary64.ofInt written.value)
  counter : ∀ (setting : WrittenSetting) (keepFormatting : Bool), ∃ error,
    Tree.parse keepFormatting (Source.markup (setting.inside written)) = .error error ∧
      error.fault = .amountOutOfRange written.text ∧ error.fault.code = .badControl

/-- A written integer in range is read as its word wherever one is wanted. -/
theorem isRead {n : Int64} (hn : n.toInt = written.value) : written.IsRead n := by
  have hword : Numeral.word? written.text = some n :=
    written.word?_text.trans (Word.ofInt?_eq_some_iff.mpr hn)
  refine ⟨hword, by rw [parse_text], ?_, fun setting keep => Tree.parse_setting setting hn keep⟩
  rw [parse_text]
  exact (Operand.literal_of_isPlain rfl written.isPlain_text).1 n hword

/-- A written integer out of range is refused wherever a word is wanted. -/
theorem isRefused (hrange : Word.fits written.value = false) : written.IsRefused := by
  have hword : Numeral.word? written.text = none := by
    rw [word?_text, Word.ofInt?, hrange]
    rfl
  have hvalue : written.value ≠ 0 := fun hzero => by
    rw [hzero] at hrange
    cases hrange
  refine ⟨hword, by rw [parse_text], ?_, fun setting keep =>
    ⟨_, Tree.parse_setting_error setting hrange keep, rfl, rfl⟩⟩
  rw [parse_text, ← written.rounded_text hvalue]
  exact (Operand.literal_of_isPlain rfl written.isPlain_text).2 hword

end WrittenInteger

/-! ## Numbers that have a word -/

namespace Json

/-- Whether the word of a value is a given integer, when the integer is in range, and the value has
none otherwise. -/
structure HasWord (value : Json) (k : Int) : Prop where
  word : ∀ n : Int64, value.toWord? = some n ↔ n.toInt = k
  range : value.toWord?.isSome = true ↔ -2 ^ 63 ≤ k ∧ k < 2 ^ 63

/-- A value has the word of a number when it is read as that number. -/
theorem hasWord_of_eq {value : Json} {k : Int} (h : value.toWord? = Word.ofInt? k) :
    value.HasWord k where
  word n := by rw [h, Word.ofInt?_eq_some_iff]
  range := by
    rw [h, ← Word.fits_iff, Word.ofInt?]
    cases Word.fits k <;> simp

/-- A finite number has the word of the integer that it goes to toward zero. -/
theorem hasWord_float {x : Binary64} (hfinite : x.isFinite = true) :
    (float x).HasWord (Binary64.towardZero x.value) := by
  refine hasWord_of_eq ?_
  rw [toWord?, if_pos hfinite, Binary64.toInt_truncate]

/-- A word that is bound as a string and then as an integer is the word again. -/
theorem bound_string_int [JsonLibrary] {n : Int64} {t : Bytes} (htext : (ofWord n).toText = .ok t)
    (hword : (str t).toWord? = some n) :
    ∃ bound again, Variable.bound Inspector.builtins (ofWord n) (ascii "string") = .ok bound ∧
      bound.value = .str t ∧
      Variable.bound Inspector.builtins bound.value (ascii "int") = .ok again ∧
      again.value = ofWord n := by
  have hstring : Inspector.Conversion.string.apply (ofWord n) = .ok (str t) := by
    rw [Inspector.Conversion.apply, htext]
    rfl
  have hint : Inspector.Conversion.int.apply (str t) = .ok (ofWord n) := by
    rw [Inspector.Conversion.apply, hword]
  refine ⟨{ value := str t, inspector := .converting .string },
    { value := ofWord n, inspector := .converting .int }, ?_, rfl, ?_, rfl⟩
  · show (do
      return { value := ← Inspector.Conversion.string.apply (ofWord n)
               inspector := Inspector.converting .string } : Except Failure Variable) = _
    rw [hstring]
    rfl
  · show (do
      return { value := ← Inspector.Conversion.int.apply (str t)
               inspector := Inspector.converting .int } : Except Failure Variable) = _
    rw [hint]
    rfl

/-- The readers of integers agree on the whole range. The text of a word is its canonical decimal
text; every writing of a word, with leading zeros or without, is read as the word by the view of a
string, the literal of an operand and the statement that sets a counter, so that a word bound as a
string and then as an integer is the word again. A writing of an integer out of the range is read as
one by none of them. An integer has a word exactly when it is in range, and a finite number exactly
when it is in range without its fraction, which it is when the number itself lies between the ends
of the range. -/
theorem integer_readers_agree [JsonLibrary] :
    (∀ n : Int64, ∃ written : WrittenInteger, written.IsCanonical ∧ written.value = n.toInt ∧
      (ofWord n).toText = .ok written.text ∧ written.IsRead n ∧
      ∃ bound again, Variable.bound Inspector.builtins (ofWord n) (ascii "string") = .ok bound ∧
        bound.value = .str written.text ∧
        Variable.bound Inspector.builtins bound.value (ascii "int") = .ok again ∧
        again.value = ofWord n) ∧
    (∀ (written : WrittenInteger) (n : Int64), n.toInt = written.value → written.IsRead n) ∧
    (∀ written : WrittenInteger, written.value < -2 ^ 63 ∨ 2 ^ 63 ≤ written.value →
      written.IsRefused) ∧
    (∀ k : Int, (int k).HasWord k) ∧
    (∀ x : Binary64, x.isFinite = true → (float x).HasWord (Binary64.towardZero x.value) ∧
      ((float x).toWord?.isSome = true ↔ -2 ^ 63 ≤ x.value ∧ x.value < 2 ^ 63)) := by
  refine ⟨fun n => ?_, fun written n => written.isRead, fun written hrange => written.isRefused ?_,
    fun k => hasWord_of_eq rfl, fun x hfinite => ⟨hasWord_float hfinite, ?_⟩⟩
  · have hvalue := WrittenInteger.value_ofInt n.toInt
    have htext : (ofWord n).toText = .ok (WrittenInteger.ofInt n.toInt).text := by
      rw [WrittenInteger.text_ofInt]
      rfl
    have hread := (WrittenInteger.ofInt n.toInt).isRead hvalue.symm
    exact ⟨_, WrittenInteger.isCanonical_ofInt _, hvalue, htext, hread,
      bound_string_int htext hread.string⟩
  · rw [Bool.eq_false_iff, ne_eq, Word.fits_iff]
    omega
  · rw [(hasWord_float hfinite).range, ← Word.fits_iff, Binary64.fits_towardZero_iff]

open scoped JsonLibrary.Strict

/-- The least word, minus zero with two digits, the integer below the least word behind two zeros,
and the number that the least word is. -/
theorem integer_readers_agree_least :
    let zero : WrittenInteger := ⟨true, ascii "00", by decide, List.all_eq_true.mp rfl⟩
    let below : WrittenInteger :=
      ⟨true, ascii "009223372036854775809", by decide, List.all_eq_true.mp rfl⟩
    let least : Binary64 := ⟨0xc3e0000000000000⟩
    (∃ written : WrittenInteger, written.text = ascii "-9223372036854775808" ∧
      written.IsRead Int64.minValue) ∧
    ((0 : Int64).toInt = zero.value ∧
      Tree.parse true (ascii "\x7b% counter c = -00 %\x7d") =
        .ok ⟨[.counter { name := ascii "c", action := .init, amount := 0 }]⟩) ∧
    ((below.value < -2 ^ 63 ∨ 2 ^ 63 ≤ below.value) ∧ below.IsRefused) ∧
    (int 9223372036854775808).toWord? = none ∧
    (least.isFinite = true ∧ (float least).toWord? = some Int64.minValue) := by
  intro zero below least
  obtain ⟨hwords, hwritten, hrefused, hint, hfloat⟩ := integer_readers_agree
  have hzero : (0 : Int64).toInt = zero.value := by decide +kernel
  have hbelow : below.value < -2 ^ 63 ∨ 2 ^ 63 ≤ below.value := by decide +kernel
  have hfinite : least.isFinite = true := by decide +kernel
  refine ⟨?_, ⟨hzero, ?_⟩, ⟨hbelow, hrefused below hbelow⟩, ?_, hfinite, ?_⟩
  · obtain ⟨written, -, -, htext, hread, -⟩ := hwords Int64.minValue
    refine ⟨written, ?_, hread⟩
    exact (Except.ok.inj htext).symm.trans (by decide +kernel)
  · let setting : WrittenSetting :=
      ⟨ascii "c", [], [Byte.space], [Byte.space], by decide, .of_all rfl⟩
    have htext : Source.markup (setting.inside zero) = ascii "\x7b% counter c = -00 %\x7d" := by
      decide +kernel
    rw [← htext]
    exact (hwritten zero 0 hzero).counter setting true
  · rw [Option.eq_none_iff_forall_ne_some]
    intro n hn
    have hsome := (hint _).range.mp (by rw [hn]; rfl)
    omega
  · rw [(hfloat least hfinite).1.word, ← Binary64.toInt_truncate]
    decide +kernel

end Json

end Stencil
