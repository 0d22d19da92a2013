import Mathlib.Data.Rat.Floor
import Stencil.Number.Word
import Stencil.Proofs.Number.Nearest

/-!
# Numbers without their fractions

A finite number is taken to the integer that its rational value goes to toward zero
(`Binary64.toInt_truncate`). That integer is a signed 64-bit word exactly when the value itself lies
between the two ends of the range (`Binary64.fits_towardZero_iff`): between the least word and the
integer below it there is no number.
-/

set_option autoImplicit false

namespace Stencil

/-- The range of words as powers of two. -/
theorem Word.fits_iff (k : Int) : fits k = true ↔ -2 ^ 63 ≤ k ∧ k < 2 ^ 63 := by
  simp only [fits, Bool.and_eq_true, decide_eq_true_eq]
  omega

namespace Binary64

/-- The integer that a rational number goes to toward zero. -/
def towardZero (q : ℚ) : Int := if q < 0 then ⌈q⌉ else ⌊q⌋

/-- The rational number that a finite number is. -/
def value (x : Binary64) : ℚ :=
  if x.isNegative then -(x.significand * 2 ^ x.exponent) else x.significand * 2 ^ x.exponent

variable {x : Binary64}

/-- The absolute value of a number is not negative. -/
theorem absolute_nonneg (x : Binary64) : (0 : ℚ) ≤ x.significand * 2 ^ x.exponent :=
  mul_nonneg (Nat.cast_nonneg _) (two_zpow_pos _).le

/-- The integral part of the absolute value is that of its quotient of naturals. -/
theorem floor_absolute (x : Binary64) :
    ⌊(x.significand * 2 ^ x.exponent : ℚ)⌋ = (x.toRatio.1 / x.toRatio.2 : Nat) := by
  have hquotient := scaleQuotient_div x.significand 1 x.exponent
  rw [Nat.cast_one, div_one] at hquotient
  rw [← hquotient, toRatio, Rat.floor_natCast_div_natCast, Int.natCast_div]

/-- A finite number is taken to the integer that it goes to toward zero. -/
theorem toInt_truncate (x : Binary64) : x.toInt .truncate = towardZero x.value := by
  have hfloor := floor_absolute x
  have hnonneg := absolute_nonneg x
  show (if x.isNegative then -((x.toRatio.1 / x.toRatio.2 : Nat) : Int)
    else (x.toRatio.1 / x.toRatio.2 : Nat)) = _
  rw [towardZero, value]
  by_cases hnegative : x.isNegative = true
  · rw [if_pos hnegative, if_pos hnegative, ← hfloor]
    split
    · rw [Int.ceil_neg]
    · rename_i hzero
      have hvalue : (x.significand * 2 ^ x.exponent : ℚ) = 0 := by linarith
      rw [hvalue, neg_zero, Int.floor_zero, neg_zero]
  · rw [if_neg hnegative, if_neg hnegative, if_neg (not_lt.mpr hnonneg), hfloor]

/-- A rational number goes to a word exactly when it is between the integer below the least word and
the one above the greatest. -/
theorem fits_towardZero (q : ℚ) :
    Word.fits (towardZero q) = true ↔ -2 ^ 63 - 1 < q ∧ q < 2 ^ 63 := by
  rw [Word.fits_iff, towardZero]
  split
  · rename_i hnegative
    have hceil : ⌈q⌉ ≤ 0 := Int.ceil_le.mpr (by exact_mod_cast hnegative.le)
    rw [Int.le_ceil_iff]
    push_cast
    constructor
    · rintro ⟨hlow, -⟩
      exact ⟨hlow, by linarith⟩
    · rintro ⟨hlow, -⟩
      exact ⟨hlow, by omega⟩
  · rename_i hpositive
    have hfloor : 0 ≤ ⌊q⌋ := Int.floor_nonneg.mpr (not_lt.mp hpositive)
    rw [Int.floor_lt]
    push_cast
    constructor
    · rintro ⟨-, hhigh⟩
      exact ⟨by linarith, hhigh⟩
    · rintro ⟨-, hhigh⟩
      exact ⟨by omega, hhigh⟩

/-- A significand has at most 53 digits. -/
theorem significand_lt (x : Binary64) : x.significand < 2 ^ 53 := by
  by_cases hzero : x.isZero = true
  · have hmagnitude : x.magnitude = 0 := by simpa [isZero] using hzero
    rw [significand, hmagnitude]
    decide
  · exact (isParts (Bool.eq_false_iff.mpr hzero)).lt

/-- A number of more than 53 digits before its point has none behind it. -/
theorem exists_absolute_eq_natCast (h : (2 : ℚ) ^ 63 < x.significand * 2 ^ x.exponent) :
    ∃ n : Nat, (x.significand * 2 ^ x.exponent : ℚ) = n := by
  have hexponent : 0 ≤ x.exponent := by
    by_contra hneg
    have hpow : (2 : ℚ) ^ x.exponent ≤ 1 := zpow_le_one_of_nonpos₀ (by norm_num) (by omega)
    have hsignificand : (x.significand : ℚ) < 2 ^ 53 := by exact_mod_cast significand_lt x
    have habsolute : (x.significand * 2 ^ x.exponent : ℚ) ≤ x.significand :=
      mul_le_of_le_one_right (Nat.cast_nonneg _) hpow
    linarith
  obtain ⟨k, hk⟩ := Int.eq_ofNat_of_zero_le hexponent
  refine ⟨x.significand * 2 ^ k, ?_⟩
  rw [hk, zpow_natCast]
  push_cast
  rfl

/-- The least word is the first number of the range, and the one behind the greatest word the first
number above it. -/
theorem fits_towardZero_iff (x : Binary64) :
    Word.fits (towardZero x.value) = true ↔ -2 ^ 63 ≤ x.value ∧ x.value < 2 ^ 63 := by
  rw [fits_towardZero]
  refine and_congr_left fun hhigh => ⟨fun hlow => ?_, fun hlow => by linarith⟩
  by_contra hbelow
  have hnonneg := absolute_nonneg x
  rw [value] at hlow hbelow
  split at hbelow
  · rename_i hnegative
    rw [if_pos hnegative] at hlow
    obtain ⟨n, hn⟩ := exists_absolute_eq_natCast (x := x) (by linarith)
    rw [hn] at hlow hbelow
    have hlow' : (n : ℚ) < 2 ^ 63 + 1 := by linarith
    have hbelow' : (2 : ℚ) ^ 63 < n := by linarith
    have hlow'' : n < 2 ^ 63 + 1 := by exact_mod_cast hlow'
    have hbelow'' : 2 ^ 63 < n := by exact_mod_cast hbelow'
    omega
  · linarith

end Binary64

end Stencil
