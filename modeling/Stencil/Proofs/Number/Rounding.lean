import Mathlib.Algebra.Group.Nat.Defs
import Mathlib.Data.Nat.Log
import Stencil.Operator

/-!
# Rounding integers

The floating point number nearest to an integer is a number, and a larger integer never has a
smaller nearest one (`Binary64.key_ofInt_mono`). An integer below `2 ^ 53` in absolute value has its
own, so comparing the nearest numbers of two integers compares the integers when one of them is that
small (`Operator.holdsReal_ofInt`).
-/

set_option autoImplicit false

namespace Stencil

namespace Binary64

/-! ## Parts of a number of given magnitude -/

section Magnitude

variable {negative : Bool} {magnitude : Nat}

/-- The bits of a sign and a magnitude. -/
theorem toNat_ofMagnitude (h : magnitude < signBit) :
    (ofMagnitude negative magnitude).bits.toNat =
      (if negative then signBit else 0) + magnitude := by
  have hsign : signBit = 2 ^ 63 := rfl
  have hbits : (if negative then signBit else 0) + magnitude < 2 ^ 64 := by
    split <;> omega
  exact Nat.mod_eq_of_lt hbits

/-- The magnitude that a number is made of is its magnitude. -/
theorem magnitude_ofMagnitude (h : magnitude < signBit) :
    (ofMagnitude negative magnitude).magnitude = magnitude := by
  rw [Binary64.magnitude, toNat_ofMagnitude h]
  cases negative with
  | false => simpa using Nat.mod_eq_of_lt h
  | true => simpa using Nat.mod_eq_of_lt h

/-- The sign that a number is made of is its sign. -/
theorem isNegative_ofMagnitude (h : magnitude < signBit) :
    (ofMagnitude negative magnitude).isNegative = negative := by
  rw [isNegative, toNat_ofMagnitude h]
  cases negative with
  | false => simpa using h
  | true => simp

/-- The place of a number that is made of a sign and a magnitude. -/
theorem key_ofMagnitude (h : magnitude < signBit) :
    (ofMagnitude negative magnitude).key = if negative then -(magnitude : Int) else magnitude := by
  rw [key, isNegative_ofMagnitude h, magnitude_ofMagnitude h]

end Magnitude

/-! ## The magnitude of a natural -/

/-- The digits of a natural that its nearest number keeps: it is shifted until it fills the
significand. -/
def roundedSignificand (n : Nat) : Nat :=
  if n.log2 ≤ 52 then n * 2 ^ (52 - n.log2) else roundQuotient n (2 ^ (n.log2 - 52))

/-- A whole quotient is rounded to itself. -/
theorem roundQuotient_one (n : Nat) : roundQuotient n 1 = n := by
  simp [roundQuotient, Nat.mod_one]

/-- The unit of a natural leaves it 53 digits. -/
theorem unitExponent_one {n : Nat} (hn : n ≠ 0) : unitExponent n 1 = (n.log2 : Int) - 52 := by
  have hlow : 2 ^ n.log2 ≤ n := Nat.log2_self_le hn
  have hlog : (Nat.log2 1 : Int) = 0 := by decide
  have hscale : -((n.log2 : Int) - 0 - 53 + 53) = -(n.log2 : Int) := by omega
  rw [unitExponent, hlog, hscale]
  cases hdigits : n.log2 with
  | zero =>
    rw [hdigits] at hlow
    simp [scaleQuotient]
    omega
  | succ k =>
    have hpow : Nat.pow 2 (k + 1) ≤ n := hdigits ▸ hlow
    have hneg : -((k + 1 : Nat) : Int) = .negSucc k := rfl
    simp only [hneg, scaleQuotient, Nat.one_mul, hpow, if_true]
    omega

/-- The magnitude nearest to a natural, as its exponent and its significand say. -/
theorem nearestMagnitude_one {n : Nat} (hn : n ≠ 0) :
    nearestMagnitude n 1 =
      min ((n.log2 + 1022) * hiddenBit + roundedSignificand n) infinityMagnitude := by
  have hmax : max ((n.log2 : Int) - 52) (-1074) = (n.log2 : Int) - 52 := by omega
  have hplace : ((n.log2 : Int) - 52 + 1074).toNat = n.log2 + 1022 := by omega
  rw [nearestMagnitude, unitExponent_one hn]
  simp only [hmax, hplace]
  congr 2
  rw [roundedSignificand]
  split
  · rename_i hsmall
    have hshift : -((n.log2 : Int) - 52) = .ofNat (52 - n.log2) := by
      show _ = ((52 - n.log2 : Nat) : Int)
      omega
    rw [hshift]
    exact roundQuotient_one _
  · rename_i hlarge
    have hshift : -((n.log2 : Int) - 52) = .negSucc (n.log2 - 53) := by
      rw [Int.negSucc_eq]
      omega
    have hcount : n.log2 - 53 + 1 = n.log2 - 52 := by omega
    rw [hshift, scaleQuotient, hcount, Nat.one_mul]
    rfl

/-- Rounding a quotient gives no less than its integral part. -/
theorem le_roundQuotient (n d : Nat) : n / d ≤ roundQuotient n d := by
  simp only [roundQuotient]
  split_ifs <;> omega

/-- Rounding a quotient gives no more than the integer after its integral part. -/
theorem roundQuotient_le (n d : Nat) : roundQuotient n d ≤ n / d + 1 := by
  simp only [roundQuotient]
  split_ifs <;> omega

/-- Rounding a quotient keeps the order of the dividends. -/
theorem roundQuotient_mono {m n d : Nat} (h : m ≤ n) : roundQuotient m d ≤ roundQuotient n d := by
  rcases Nat.lt_or_eq_of_le (Nat.div_le_div_right h : m / d ≤ n / d) with hquotient | hquotient
  · calc roundQuotient m d ≤ m / d + 1 := roundQuotient_le m d
      _ ≤ n / d := hquotient
      _ ≤ roundQuotient n d := le_roundQuotient n d
  · -- The quotients are one, so the remainders are in order.
    have hm := Nat.div_add_mod m d
    have hn := Nat.div_add_mod n d
    rw [hquotient] at hm
    have hremainder : m % d ≤ n % d := by omega
    simp only [roundQuotient, hquotient]
    split_ifs <;> omega

/-! ## The order of nearest numbers -/

/-- The significand is filled, and rounding overflows it by one digit at most. -/
theorem roundedSignificand_mem {n : Nat} (hn : n ≠ 0) :
    hiddenBit ≤ roundedSignificand n ∧ roundedSignificand n ≤ 2 * hiddenBit := by
  have hlow : 2 ^ n.log2 ≤ n := Nat.log2_self_le hn
  have hhigh : n < 2 ^ (n.log2 + 1) := Nat.lt_log2_self
  have hhidden : hiddenBit = 2 ^ 52 := rfl
  rw [roundedSignificand, hhidden]
  split
  · rename_i hsmall
    have hpow : 2 ^ n.log2 * 2 ^ (52 - n.log2) = 2 ^ 52 := by
      rw [← Nat.pow_add, Nat.add_sub_cancel' hsmall]
    have hpow' : 2 ^ (n.log2 + 1) * 2 ^ (52 - n.log2) = 2 * 2 ^ 52 := by
      rw [Nat.pow_succ', Nat.mul_assoc, hpow]
    exact ⟨hpow ▸ Nat.mul_le_mul_right _ hlow, hpow' ▸ Nat.mul_le_mul_right _ hhigh.le⟩
  · rename_i hlarge
    have hpos : 0 < 2 ^ (n.log2 - 52) := Nat.two_pow_pos _
    have hpow : 2 ^ 52 * 2 ^ (n.log2 - 52) = 2 ^ n.log2 := by
      rw [← Nat.pow_add, Nat.add_sub_cancel' (by omega)]
    have hpow' : 2 * 2 ^ 52 * 2 ^ (n.log2 - 52) = 2 ^ (n.log2 + 1) := by
      rw [Nat.mul_assoc, hpow, Nat.pow_succ']
    constructor
    · calc 2 ^ 52 ≤ n / 2 ^ (n.log2 - 52) := (Nat.le_div_iff_mul_le hpos).mpr (hpow ▸ hlow)
        _ ≤ _ := le_roundQuotient _ _
    · calc _ ≤ n / 2 ^ (n.log2 - 52) + 1 := roundQuotient_le _ _
        _ ≤ 2 * 2 ^ 52 := (Nat.div_lt_iff_lt_mul hpos).mpr (hpow' ▸ hhigh)

/-- The significand of a natural below `2 ^ 53` overflows by no digit. -/
theorem roundedSignificand_lt {n : Nat} (hsmall : n.log2 ≤ 52) :
    roundedSignificand n < 2 * hiddenBit := by
  have hhigh : n < 2 ^ (n.log2 + 1) := Nat.lt_log2_self
  have hpow : 2 ^ (n.log2 + 1) * 2 ^ (52 - n.log2) = 2 * hiddenBit := by
    rw [← Nat.pow_add, show n.log2 + 1 + (52 - n.log2) = 53 by omega]
    rfl
  rw [roundedSignificand, if_pos hsmall, ← hpow]
  exact Nat.mul_lt_mul_of_pos_right hhigh (Nat.two_pow_pos _)

/-- The place of a natural among the magnitudes before the infinite one cuts them off. -/
def place (n : Nat) : Nat := (n.log2 + 1022) * hiddenBit + roundedSignificand n

/-- The place of a natural with more digits is not below that of one with fewer: the places of a
length end where those of the next begin. -/
theorem place_le_of_log2_lt {m n : Nat} (hn : n ≠ 0) (h : m.log2 < n.log2)
    (hhigh : roundedSignificand m ≤ 2 * hiddenBit) :
    place m + (2 * hiddenBit - roundedSignificand m) ≤ place n := by
  have hlow := (roundedSignificand_mem hn).1
  have hlength : (m.log2 + 1 + 1022) * hiddenBit ≤ (n.log2 + 1022) * hiddenBit :=
    Nat.mul_le_mul_right _ (by omega)
  have hnext : (m.log2 + 1 + 1022) * hiddenBit = (m.log2 + 1022) * hiddenBit + hiddenBit := by
    rw [Nat.add_right_comm, Nat.succ_mul]
  simp only [place]
  omega

/-- A greater natural has no fewer digits. -/
theorem log2_mono {m n : Nat} (h : m ≤ n) : m.log2 ≤ n.log2 := by
  rw [Nat.log2_eq_log_two, Nat.log2_eq_log_two]
  exact Nat.log_mono_right h

/-- A greater natural does not stand before a smaller one. -/
theorem place_mono {m n : Nat} (hm : m ≠ 0) (h : m ≤ n) : place m ≤ place n := by
  have hn : n ≠ 0 := by omega
  rcases Nat.lt_or_ge m.log2 n.log2 with hlog | hlog
  · have hhigh := (roundedSignificand_mem hm).2
    have hplace := place_le_of_log2_lt hn hlog hhigh
    omega
  · have hsame : n.log2 = m.log2 := by
      have hle := log2_mono h
      omega
    have hrounded : roundedSignificand m ≤ roundedSignificand n := by
      simp only [roundedSignificand, hsame]
      split
      · exact Nat.mul_le_mul_right _ h
      · exact roundQuotient_mono h
    simp only [place, hsame]
    omega

/-- A natural that keeps all of its digits stands before every greater one. -/
theorem place_lt {m n : Nat} (hm : m ≠ 0) (hsmall : m < 2 ^ 53) (h : m < n) :
    place m < place n := by
  have hn : n ≠ 0 := by omega
  have hdigits : m.log2 ≤ 52 := by
    have := (Nat.log2_lt hm).mpr hsmall
    omega
  rcases Nat.lt_or_ge m.log2 n.log2 with hlog | hlog
  · have hhigh := roundedSignificand_lt hdigits
    have hplace := place_le_of_log2_lt hn hlog hhigh.le
    omega
  · have hsame : n.log2 = m.log2 := by
      have hle := log2_mono h.le
      omega
    have hrounded : roundedSignificand m < roundedSignificand n := by
      rw [roundedSignificand, roundedSignificand, hsame, if_pos hdigits, if_pos hdigits]
      exact Nat.mul_lt_mul_of_pos_right h (Nat.two_pow_pos _)
    simp only [place, hsame]
    omega

/-! ## Nearest numbers of integers -/

/-- The magnitude of the number nearest to a natural. -/
def rank (n : Nat) : Nat := if n = 0 then 0 else nearestMagnitude n 1

/-- No natural has its nearest number beyond the infinite one. -/
theorem rank_le (n : Nat) : rank n ≤ infinityMagnitude := by
  rw [rank]
  split
  · exact Nat.zero_le _
  · exact Nat.min_le_right _ _

/-- The rank of a natural is its place, cut off at the infinite number. -/
theorem rank_eq {n : Nat} (hn : n ≠ 0) : rank n = min (place n) infinityMagnitude := by
  rw [rank, if_neg hn, nearestMagnitude_one hn]
  rfl

/-- Rounding keeps the order of naturals. -/
theorem rank_mono {m n : Nat} (h : m ≤ n) : rank m ≤ rank n := by
  by_cases hm : m = 0
  · simp [rank, hm]
  · have hplace := place_mono hm h
    rw [rank_eq hm, rank_eq (by omega)]
    omega

/-- Rounding tells a natural that keeps all of its digits from every greater one. -/
theorem rank_lt {m n : Nat} (hsmall : m < 2 ^ 53) (h : m < n) : rank m < rank n := by
  have hn : n ≠ 0 := by omega
  have hbelow : ∀ k, k ≠ 0 → k < 2 ^ 53 → place k < infinityMagnitude := by
    intro k hk hsmall
    have hdigits : k.log2 < 53 := (Nat.log2_lt hk).mpr hsmall
    have hhigh := (roundedSignificand_mem hk).2
    simp only [place, hiddenBit, infinityMagnitude] at hhigh ⊢
    omega
  rw [rank_eq hn]
  by_cases hm : m = 0
  · have hlow := (roundedSignificand_mem hn).1
    simp only [rank, hm, if_true, place, infinityMagnitude, hiddenBit] at hlow ⊢
    omega
  · have hplace := place_lt hm hsmall h
    have hfinite := hbelow m hm hsmall
    rw [rank_eq hm]
    omega

/-- The number nearest to an integer has its sign and the rank of its absolute value. -/
theorem ofInt_eq (n : Int) : ofInt n = ofMagnitude (n < 0) (rank n.natAbs) := by
  rw [ofInt, ofRatio, rank]
  split <;> rfl

/-- Every rank is a magnitude. -/
theorem rank_lt_signBit (n : Nat) : rank n < signBit :=
  Nat.lt_of_le_of_lt (rank_le n) (by decide)

/-- An integer of 64 bits, signed or unsigned, is rounded to a finite number. -/
theorem isFinite_ofInt {n : Int} (h : n.natAbs ≤ 2 ^ 64) : (ofInt n).isFinite = true := by
  have hgreatest : rank (2 ^ 64) < infinityMagnitude := by decide +kernel
  rw [isFinite, ofInt_eq, magnitude_ofMagnitude (rank_lt_signBit _)]
  exact decide_eq_true ((rank_mono h).trans_lt hgreatest)

/-- The place of the number nearest to an integer. -/
theorem key_ofInt (n : Int) :
    (ofInt n).key = if n < 0 then -(rank n.natAbs : Int) else rank n.natAbs := by
  rw [ofInt_eq, key_ofMagnitude (rank_lt_signBit _)]
  simp

/-- The number nearest to an integer is a number. -/
@[simp] theorem isNaN_ofInt (n : Int) : (ofInt n).isNaN = false := by
  rw [isNaN, ofInt_eq, magnitude_ofMagnitude (rank_lt_signBit _)]
  simpa using rank_le n.natAbs

/-- Rounding integers keeps their order, not strictly. -/
theorem key_ofInt_mono {a b : Int} (h : a ≤ b) : (ofInt a).key ≤ (ofInt b).key := by
  rw [key_ofInt, key_ofInt]
  split_ifs with ha hb
  · have hrank := rank_mono (show b.natAbs ≤ a.natAbs by omega)
    omega
  · omega
  · omega
  · have hrank := rank_mono (show a.natAbs ≤ b.natAbs by omega)
    omega

/-- Rounding keeps apart integers of which one is small. -/
theorem key_ofInt_lt {a b : Int} (hsmall : a.natAbs < 2 ^ 53 ∨ b.natAbs < 2 ^ 53) (h : a < b) :
    (ofInt a).key < (ofInt b).key := by
  have hzero : rank 0 = 0 := rfl
  rw [key_ofInt, key_ofInt]
  split_ifs with ha hb
  · have hrank := rank_lt (show b.natAbs < 2 ^ 53 by omega) (show b.natAbs < a.natAbs by omega)
    omega
  · have hrank := rank_lt (show 0 < 2 ^ 53 by decide) (show 0 < a.natAbs by omega)
    omega
  · omega
  · have hrank := rank_lt (show a.natAbs < 2 ^ 53 by omega) (show a.natAbs < b.natAbs by omega)
    omega

/-- Where one of two integers keeps all of its digits, the nearest numbers are ordered as the
two. -/
theorem key_ofInt_lt_iff {a b : Int} (hsmall : a.natAbs < 2 ^ 53 ∨ b.natAbs < 2 ^ 53) :
    (ofInt a).key < (ofInt b).key ↔ a < b := by
  constructor
  · intro hkey
    by_contra hge
    have hmono := key_ofInt_mono (Int.not_lt.mp hge)
    omega
  · exact key_ofInt_lt hsmall

/-- Where one of two integers keeps all of its digits, the nearest numbers are the same only for the
same integer. -/
theorem key_ofInt_inj {a b : Int} (hsmall : a.natAbs < 2 ^ 53 ∨ b.natAbs < 2 ^ 53) :
    (ofInt a).key = (ofInt b).key ↔ a = b := by
  have hless := key_ofInt_lt_iff hsmall
  have hgreater := key_ofInt_lt_iff hsmall.symm
  omega

end Binary64

/-- Comparing the numbers nearest to two integers, one of them below `2 ^ 53` in absolute value,
compares the integers. -/
theorem Operator.holdsReal_ofInt (op : Operator) {a b : Int}
    (hsmall : a.natAbs < 2 ^ 53 ∨ b.natAbs < 2 ^ 53) :
    op.holdsReal (Binary64.ofInt a) (Binary64.ofInt b) = op.holdsInt a b := by
  have hsame : (Binary64.ofInt a).eq (Binary64.ofInt b) = (a == b) := by
    simp [Binary64.eq, Binary64.key_ofInt_inj hsmall, Bool.beq_eq_decide_eq]
  have hless : (Binary64.ofInt a).lt (Binary64.ofInt b) = decide (a < b) := by
    simp [Binary64.lt, Binary64.key_ofInt_lt_iff hsmall]
  have hgreater : (Binary64.ofInt b).lt (Binary64.ofInt a) = decide (b < a) := by
    simp [Binary64.lt, Binary64.key_ofInt_lt_iff hsmall.symm]
  rw [holdsReal, holdsInt, hsame, hless, hgreater]

/-- The nearest numbers of `2 ^ 53` and of the integer after it are one. -/
example : Operator.less.holdsReal (Binary64.ofInt 9007199254740992)
    (Binary64.ofInt 9007199254740993) = false := by decide

end Stencil
