import Mathlib.Data.Nat.Cast.Field
import Stencil.Json.View
import Stencil.Proofs.Json.Library
import Stencil.Proofs.Number.Shortest

/-!
# Texts of floating point numbers

The text of zero or of a normal number is read as a number of the same place in the order
(`Json.real?_floatText`). An integral number that is not too large is written as an integer; the
text of any other number is the library's, which is a numeral with a fraction or an exponent that
reads back. The numbers below the normal ones are left out, as a reader refuses their texts.
-/

set_option autoImplicit false

namespace Stencil

namespace Json

open Binary64 ShortestDecimal

variable {x : Binary64}

/-- The numerator of zero is zero. -/
theorem toRatio_fst_of_isZero (hzero : x.isZero = true) : x.toRatio.1 = 0 := by
  have hmagnitude : x.magnitude = 0 := by simpa [isZero] using hzero
  have hsignificand : x.significand = 0 := by
    rw [significand, hmagnitude]
    rfl
  rw [toRatio, hsignificand]
  cases x.exponent with
  | ofNat k => exact Nat.zero_mul _
  | negSucc k => rfl

/-- An integral number is the one nearest to its integer, but for the sign of zero. -/
theorem rank_of_isIntegral (hintegral : x.isIntegral = true) :
    rank (x.toRatio.1 / x.toRatio.2) = x.magnitude := by
  simp only [isIntegral, Bool.and_eq_true, beq_iff_eq] at hintegral
  obtain ⟨hfinite, hdivides⟩ := hintegral
  cases hzero : x.isZero with
  | true =>
    have hmagnitude : x.magnitude = 0 := by simpa [isZero] using hzero
    rw [toRatio_fst_of_isZero hzero, Nat.zero_div, hmagnitude]
    rfl
  | false =>
    obtain ⟨⟨hn, hd⟩, hquotient, -, -⟩ := toRatio_bounds hfinite hzero
    have hdvd : x.toRatio.2 ∣ x.toRatio.1 := Nat.dvd_of_mod_eq_zero hdivides
    have hpos : 0 < x.toRatio.1 / x.toRatio.2 := Nat.div_pos (Nat.le_of_dvd hn hdvd) hd
    have hnear := isNear_self x
    rw [← hquotient, ← Nat.cast_div_charZero hdvd,
      ← div_one ((x.toRatio.1 / x.toRatio.2 : Nat) : ℚ), ← Nat.cast_one] at hnear
    rw [rank, if_neg (by omega), nearestMagnitude_eq_magnitude hpos Nat.one_pos hfinite hzero hnear]

/-- The number nearest to the integer of an integral number has the same place. -/
theorem ofInt_toInt (hintegral : x.isIntegral = true) :
    (ofInt (x.toInt .truncate)).key = x.key ∧ (ofInt (x.toInt .truncate)).isFinite = true := by
  have hrank := rank_of_isIntegral hintegral
  have hfinite : x.magnitude < infinityMagnitude := by
    have hfinite := (Bool.and_eq_true_iff.mp hintegral).1
    simpa [isFinite] using hfinite
  set k := x.toRatio.1 / x.toRatio.2 with hk
  have hint : x.toInt .truncate = if x.isNegative then -(k : Int) else k := rfl
  have habs : (x.toInt .truncate).natAbs = k := by
    rw [hint]
    split <;> simp
  constructor
  · rw [key_ofInt, habs, hrank, key, hint]
    cases x.isNegative with
    | false => simp
    | true =>
      by_cases hzero : k = 0
      · rw [hzero] at hrank
        simp [hzero, ← hrank, rank]
      · have hnegative : -(k : Int) < 0 := by omega
        simp only [if_true, if_pos hnegative]
  · rw [isFinite, ofInt_eq, magnitude_ofMagnitude (rank_lt_signBit _), habs, hrank]
    exact decide_eq_true hfinite

/-- Zero is integral. -/
theorem isIntegral_of_isZero (hfinite : x.isFinite = true) (hzero : x.isZero = true) :
    (x.isIntegral && decide ((x.toInt .truncate).natAbs < 1000000000000000)) = true := by
  have hratio := toRatio_fst_of_isZero hzero
  have hint : x.toInt .truncate = 0 := by
    simp [toInt, Rounding.apply, hratio]
  simp [isIntegral, hfinite, hratio, hint]

/-- The text of zero or of a normal number is read as a number of the same place. -/
theorem real?_floatText [JsonLibrary] [LawfulFloatText] (hfinite : x.isFinite = true)
    (hnormal : x.isZero = true ∨ hiddenBit ≤ x.magnitude) :
    ∃ y, Numeral.real? (floatText x) = some y ∧ y.isNaN = false ∧ y.key = x.key := by
  have hnumber : x.isNaN = false := by
    have hlt : x.magnitude < infinityMagnitude := by simpa [isFinite] using hfinite
    rw [isNaN, decide_eq_false_iff_not]
    omega
  rw [floatText]
  split
  · rename_i hinteger
    obtain ⟨hkey, hfinite'⟩ := ofInt_toInt (Bool.and_eq_true_iff.mp hinteger).1
    have hvalue := WrittenInteger.value_ofInt (x.toInt .truncate)
    rw [← hvalue] at hfinite'
    obtain ⟨y, hread, hnumber', hplace⟩ := WrittenInteger.exists_real?_text _ hfinite'
    rw [WrittenInteger.text_ofInt] at hread
    rw [hvalue, hkey] at hplace
    exact ⟨y, hread, hnumber', hplace⟩
  · rename_i hother
    obtain hzero | hnormal := hnormal
    · exact absurd (isIntegral_of_isZero hfinite hzero) hother
    · exact ⟨x, LawfulFloatText.real?_printFloat hfinite hnormal, hnumber, rfl⟩

/-- The integers that are the texts of numbers are small, and of the same place. -/
theorem key_of_word?_floatText [JsonLibrary] [LawfulFloatText] {n : Int64}
    (hword : Numeral.word? (floatText x) = some n) :
    n.toInt.natAbs < 2 ^ 53 ∧ (ofInt n.toInt).key = x.key := by
  rw [floatText] at hword
  split at hword
  · rename_i hinteger
    obtain ⟨hintegral, hsmall⟩ := Bool.and_eq_true_iff.mp hinteger
    rw [← WrittenInteger.text_ofInt, WrittenInteger.word?_text, WrittenInteger.value_ofInt] at hword
    rw [Word.ofInt?_eq_some_iff.mp hword]
    exact ⟨by simpa using (of_decide_eq_true hsmall).trans (by decide), (ofInt_toInt hintegral).1⟩
  · rename_i hother
    cases hfinite : x.isFinite with
    | false =>
      rw [LawfulFloatText.printFloat_of_not_isFinite hfinite] at hword
      cases hword
    | true =>
      obtain ⟨written, htext, hpointed⟩ := LawfulFloatText.exists_printFloat hfinite
      rw [← htext, written.word?_text_of_isPointed hpointed] at hword
      cases hword

end Json

end Stencil
