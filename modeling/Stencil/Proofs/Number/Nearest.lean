import Mathlib.Algebra.Order.Field.Power
import Mathlib.Data.Nat.Log
import Mathlib.Data.Rat.Cast.Order
import Mathlib.Tactic.FieldSimp
import Mathlib.Tactic.Linarith
import Mathlib.Tactic.Positivity
import Mathlib.Tactic.Ring
import Stencil.Number.Binary64

/-!
# The number nearest to a quotient

A quotient of naturals is rounded to a finite number when it lies within half a unit of the last
place of the number, and within a quarter of one below a power of two, where the unit changes; at
either end of this interval the significand of the number has to be even
(`Binary64.nearestMagnitude_of_isNear`).
-/

set_option autoImplicit false

namespace Stencil

namespace Binary64

/-! ## Quotients as rational numbers -/

/-- Scaling a quotient multiplies it by a power of two. -/
theorem scaleQuotient_div (n d : Nat) (e : Int) :
    ((scaleQuotient n d e).1 : ℚ) / (scaleQuotient n d e).2 = n / d * 2 ^ e := by
  cases e with
  | ofNat k =>
    have hpow : (2 : ℚ) ^ Int.ofNat k = 2 ^ k := zpow_natCast 2 k
    simp only [scaleQuotient, Nat.pow_eq, hpow]
    push_cast
    ring
  | negSucc k =>
    have hpow : (2 : ℚ) ^ Int.negSucc k = (2 ^ (k + 1))⁻¹ := zpow_negSucc 2 k
    simp only [scaleQuotient, Nat.pow_eq, hpow]
    push_cast
    rw [div_mul_eq_div_div, div_eq_mul_inv _ ((2 : ℚ) ^ (k + 1))]

/-- Scaling keeps the denominator positive. -/
theorem scaleQuotient_snd_pos (n : Nat) {d : Nat} (hd : 0 < d) (e : Int) :
    0 < (scaleQuotient n d e).2 := by
  cases e with
  | ofNat k => exact hd
  | negSucc k => exact Nat.mul_pos hd (Nat.pow_pos (by decide))

/-- Powers of two are positive. -/
theorem two_zpow_pos (e : Int) : (0 : ℚ) < 2 ^ e := zpow_pos (by decide) e

/-- A natural lies between two powers of two. -/
theorem log2_bounds {n : Nat} (hn : 0 < n) :
    (2 : ℚ) ^ (n.log2 : Int) ≤ n ∧ (n : ℚ) < 2 ^ ((n.log2 : Int) + 1) := by
  have hne : n ≠ 0 := Nat.pos_iff_ne_zero.mp hn
  have hlow : 2 ^ n.log2 ≤ n := Nat.log2_self_le hne
  have hhigh : n < 2 ^ (n.log2 + 1) := Nat.lt_log2_self
  constructor
  · rw [zpow_natCast]
    exact_mod_cast hlow
  · rw [← Nat.cast_succ, zpow_natCast]
    exact_mod_cast hhigh

/-- A quotient lies between the powers of two that its binary digits tell. -/
theorem quotient_bounds {n d : Nat} (hn : 0 < n) (hd : 0 < d) :
    (2 : ℚ) ^ ((n.log2 : Int) - d.log2 - 1) ≤ n / d ∧
      (n : ℚ) / d < 2 ^ ((n.log2 : Int) - d.log2 + 1) := by
  have hd' : (0 : ℚ) < d := by exact_mod_cast hd
  obtain ⟨hnlow, hnhigh⟩ := log2_bounds hn
  obtain ⟨hdlow, hdhigh⟩ := log2_bounds hd
  constructor
  · rw [le_div_iff₀ hd']
    calc (2 : ℚ) ^ ((n.log2 : Int) - d.log2 - 1) * d
        ≤ 2 ^ ((n.log2 : Int) - d.log2 - 1) * 2 ^ ((d.log2 : Int) + 1) :=
          mul_le_mul_of_nonneg_left hdhigh.le (two_zpow_pos _).le
      _ = 2 ^ (n.log2 : Int) := by
        rw [← zpow_add₀ (by decide : (2 : ℚ) ≠ 0)]
        congr 1
        omega
      _ ≤ n := hnlow
  · rw [div_lt_iff₀ hd']
    calc (n : ℚ) < 2 ^ ((n.log2 : Int) + 1) := hnhigh
      _ = 2 ^ ((n.log2 : Int) - d.log2 + 1) * 2 ^ (d.log2 : Int) := by
        rw [← zpow_add₀ (by decide : (2 : ℚ) ≠ 0)]
        congr 1
        omega
      _ ≤ 2 ^ ((n.log2 : Int) - d.log2 + 1) * d :=
        mul_le_mul_of_nonneg_left hdlow (two_zpow_pos _).le

/-- The unit of a quotient: the quotient has 53 digits before it. -/
theorem unitExponent_bounds {n d : Nat} (hn : 0 < n) (hd : 0 < d) :
    (2 : ℚ) ^ (unitExponent n d + 52) ≤ n / d ∧ (n : ℚ) / d < 2 ^ (unitExponent n d + 53) := by
  set e : Int := (n.log2 : Int) - (d.log2 : Int) - 53 with he
  obtain ⟨habove, hbelow⟩ := quotient_bounds hn hd
  rw [show (n.log2 : Int) - d.log2 - 1 = e + 52 by omega] at habove
  rw [show (n.log2 : Int) - d.log2 + 1 = e + 54 by omega] at hbelow
  have hscaled := scaleQuotient_div n d (-(e + 53))
  have hpos := scaleQuotient_snd_pos n hd (-(e + 53))
  have hpos' : (0 : ℚ) < (scaleQuotient n d (-(e + 53))).2 := by exact_mod_cast hpos
  have htest : (scaleQuotient n d (-(e + 53))).2 ≤ (scaleQuotient n d (-(e + 53))).1 ↔
      (2 : ℚ) ^ (e + 53) ≤ n / d := by
    have hone : (1 : ℚ) ≤ (scaleQuotient n d (-(e + 53))).1 / (scaleQuotient n d (-(e + 53))).2 ↔
        (2 : ℚ) ^ (e + 53) ≤ n / d := by
      rw [hscaled, zpow_neg, ← div_eq_mul_inv, one_le_div (two_zpow_pos _)]
    rw [← hone, one_le_div hpos', Nat.cast_le]
  have hunit : unitExponent n d = if (2 : ℚ) ^ (e + 53) ≤ n / d then e + 1 else e := by
    rw [unitExponent]
    simp only [← he]
    split
    · rename_i h
      rw [if_pos (htest.mp h)]
    · rename_i h
      rw [if_neg fun hle => h (htest.mpr hle)]
  rw [hunit]
  split
  · rename_i h
    rw [show e + 1 + 52 = e + 53 by omega, show e + 1 + 53 = e + 54 by omega]
    exact ⟨h, hbelow⟩
  · rename_i h
    exact ⟨habove, not_le.mp h⟩

/-- Where the unit of a quotient is. -/
theorem unitExponent_eq {n d : Nat} (hn : 0 < n) (hd : 0 < d) {e : Int}
    (hlow : (2 : ℚ) ^ (e + 52) ≤ n / d) (hhigh : (n : ℚ) / d < 2 ^ (e + 53)) :
    unitExponent n d = e := by
  obtain ⟨hlow', hhigh'⟩ := unitExponent_bounds hn hd
  have hless : e + 52 < unitExponent n d + 53 :=
    (zpow_lt_zpow_iff_right₀ (by decide : (1 : ℚ) < 2)).mp (hlow.trans_lt hhigh')
  have hless' : unitExponent n d + 52 < e + 53 :=
    (zpow_lt_zpow_iff_right₀ (by decide : (1 : ℚ) < 2)).mp (hlow'.trans_lt hhigh)
  omega

/-- A quotient within a half of an integer, which is even if it is as far as that, is rounded to
it. -/
theorem roundQuotient_eq {n d k : Nat} (hd : 0 < d) (hlow : 2 * k * d ≤ 2 * n + d)
    (hhigh : 2 * n ≤ 2 * k * d + d)
    (htie : k % 2 = 1 → 2 * k * d < 2 * n + d ∧ 2 * n < 2 * k * d + d) :
    roundQuotient n d = k := by
  have hn : d * (n / d) + n % d = n := Nat.div_add_mod n d
  have hr : n % d < d := Nat.mod_lt n hd
  have hk : k ≤ n / d + 1 := by
    have hless : 2 * k * d < (2 * (n / d) + 3) * d := by
      calc 2 * k * d ≤ 2 * (d * (n / d) + n % d) + d := by rw [hn]; exact hlow
        _ < 2 * (d * (n / d)) + 3 * d := by omega
        _ = (2 * (n / d) + 3) * d := by ring
    have hless' := Nat.lt_of_mul_lt_mul_right hless
    omega
  have hk' : n / d ≤ k := by
    have hle : 2 * (n / d) * d ≤ (2 * k + 1) * d := by
      calc 2 * (n / d) * d = 2 * (d * (n / d)) := by ring
        _ ≤ 2 * n := by omega
        _ ≤ 2 * k * d + d := hhigh
        _ = (2 * k + 1) * d := by ring
    have hle' := Nat.le_of_mul_le_mul_right hle hd
    omega
  have hproduct : 2 * (n / d) * d = 2 * (d * (n / d)) := by ring
  rw [roundQuotient]
  obtain rfl | rfl : k = n / d ∨ k = n / d + 1 := by omega
  · -- The quotient is below the integer and a half.
    rw [hproduct] at hhigh htie
    split
    · rfl
    · split
      · omega
      · by_cases hodd : n / d % 2 = 1
        · have hstrict := htie hodd
          omega
        · omega
  · -- The quotient is above the integer less a half.
    have hproduct' : 2 * (n / d + 1) * d = 2 * (d * (n / d)) + 2 * d := by ring
    rw [hproduct'] at hlow htie
    split
    · omega
    · split
      · rfl
      · by_cases hodd : (n / d + 1) % 2 = 1
        · have hstrict := htie hodd
          omega
        · omega

/-! ## The quotients that round to a number -/

/-- Whether a quotient lies within half a unit `2 ^ e` of `m` units. A significand has to be even
for the ends, and what lies below a power of two is within a quarter of a unit, as the unit is
halved there. -/
structure IsNear (m : Nat) (e : Int) (r : ℚ) : Prop where
  lower : ((m : ℚ) - 1 / 2) * 2 ^ e ≤ r
  upper : r ≤ (m + 1 / 2) * 2 ^ e
  tie : m % 2 = 1 → ((m : ℚ) - 1 / 2) * 2 ^ e < r ∧ r < (m + 1 / 2) * 2 ^ e
  narrow : m = hiddenBit → -1074 < e → ((m : ℚ) - 1 / 4) * 2 ^ e ≤ r

/-- Whether a significand and an exponent are those of a finite number other than zero. -/
structure IsParts (m : Nat) (e : Int) : Prop where
  pos : 0 < m
  lt : m < 2 * hiddenBit
  least : -1074 ≤ e
  normal : -1074 < e → hiddenBit ≤ m

namespace IsNear

variable {m n d : Nat} {e : Int}

/-- A quotient is rounded, in units of the number that it is near to, to the significand. -/
theorem roundQuotient_scale (hd : 0 < d) (hlower : ((m : ℚ) - 1 / 2) * 2 ^ e ≤ (n : ℚ) / d)
    (hupper : (n : ℚ) / d ≤ (m + 1 / 2) * 2 ^ e)
    (htie : m % 2 = 1 → ((m : ℚ) - 1 / 2) * 2 ^ e < (n : ℚ) / d ∧
      (n : ℚ) / d < (m + 1 / 2) * 2 ^ e) :
    roundQuotient (scaleQuotient n d (-e)).1 (scaleQuotient n d (-e)).2 = m := by
  have hpow : (0 : ℚ) < 2 ^ e := two_zpow_pos e
  have hscaled := scaleQuotient_div n d (-e)
  have hpos : 0 < (scaleQuotient n d (-e)).2 := scaleQuotient_snd_pos n hd (-e)
  generalize (scaleQuotient n d (-e)).1 = a at hscaled
  generalize (scaleQuotient n d (-e)).2 = b at hscaled hpos
  have hb : (0 : ℚ) < b := by exact_mod_cast hpos
  have hquotient : (n : ℚ) / d = a / b * 2 ^ e := by
    rw [hscaled, mul_assoc, ← zpow_add₀ (by decide : (2 : ℚ) ≠ 0), neg_add_cancel, zpow_zero,
      mul_one]
  rw [hquotient] at hlower hupper htie
  rw [mul_le_mul_iff_left₀ hpow] at hlower hupper
  rw [mul_lt_mul_iff_left₀ hpow, mul_lt_mul_iff_left₀ hpow] at htie
  rw [le_div_iff₀ hb] at hlower
  rw [div_le_iff₀ hb] at hupper
  rw [lt_div_iff₀ hb, div_lt_iff₀ hb] at htie
  refine roundQuotient_eq hpos ?_ ?_ fun hodd => ⟨?_, ?_⟩
  · have hcast : (2 * m * b : ℚ) ≤ 2 * a + b := by linarith
    exact_mod_cast hcast
  · have hcast : (2 * a : ℚ) ≤ 2 * m * b + b := by linarith
    exact_mod_cast hcast
  · have hcast : (2 * m * b : ℚ) < 2 * a + b := by linarith [(htie hodd).1]
    exact_mod_cast hcast
  · have hcast : (2 * a : ℚ) < 2 * m * b + b := by linarith [(htie hodd).2]
    exact_mod_cast hcast

end IsNear

/-- A quotient that is near to a number other than zero is positive. -/
theorem IsNear.pos {m : Nat} {e : Int} {r : ℚ} (h : IsNear m e r) (hparts : IsParts m e) :
    0 < r := by
  have hm : (1 : ℚ) ≤ m := by exact_mod_cast hparts.pos
  have hhalf : (0 : ℚ) < (m - 1 / 2) * 2 ^ e := mul_pos (by linarith) (two_zpow_pos e)
  exact hhalf.trans_le h.lower

/-- So many units are a power of two, or less or more than one. -/
theorem two_zpow_add (e : Int) (k : Nat) : (2 : ℚ) ^ (e + k) = 2 ^ k * 2 ^ e := by
  rw [zpow_add₀ (by decide : (2 : ℚ) ≠ 0), zpow_natCast, mul_comm]

section

variable {m n d : Nat} {e : Int} (hparts : IsParts m e) (hnear : IsNear m e ((n : ℚ) / d))
include hparts hnear

/-- A quotient near a number lies below the power of two that its unit allows. -/
theorem IsNear.lt_two_zpow : (n : ℚ) / d < 2 ^ (e + 53) := by
  have hpow : (0 : ℚ) < 2 ^ e := two_zpow_pos e
  rw [show (53 : Int) = (53 : Nat) from rfl, two_zpow_add]
  by_cases hodd : m % 2 = 1
  · have hle : (m : ℚ) + 1 / 2 ≤ 2 ^ 53 := by
      have hm : m + 1 ≤ 2 ^ 53 := hparts.lt
      have hcast : (m : ℚ) + 1 ≤ 2 ^ 53 := by exact_mod_cast hm
      linarith
    exact (hnear.tie hodd).2.trans_le (mul_le_mul_of_nonneg_right hle hpow.le)
  · have hlt : (m : ℚ) + 1 / 2 < 2 ^ 53 := by
      have hm : m + 2 ≤ 2 ^ 53 := by
        have hlt := hparts.lt
        simp only [hiddenBit] at hlt
        omega
      have hcast : (m : ℚ) + 2 ≤ 2 ^ 53 := by exact_mod_cast hm
      linarith
    exact hnear.upper.trans_lt (mul_lt_mul_of_pos_right hlt hpow)

/-- Only the numbers that are powers of two have quotients near to them with fewer digits than they
have. -/
theorem IsNear.eq_hiddenBit (he : -1074 < e) (hbelow : (n : ℚ) / d < 2 ^ (e + 52)) :
    m = hiddenBit := by
  have hpow : (0 : ℚ) < 2 ^ e := two_zpow_pos e
  rw [show (52 : Int) = (52 : Nat) from rfl, two_zpow_add] at hbelow
  have hless : (m : ℚ) - 1 / 2 < 2 ^ 52 :=
    lt_of_mul_lt_mul_right (hnear.lower.trans_lt hbelow) hpow.le
  have hcast : (m : ℚ) < 2 ^ 52 + 1 := by linarith
  have hm : m < 2 ^ 52 + 1 := by exact_mod_cast hcast
  have hnormal : 2 ^ 52 ≤ m := hparts.normal he
  have heq : m = 2 ^ 52 := by omega
  exact heq

/-- A quotient that is near to a number has its unit, unless it is near to a power of two and below
it, or below the normal numbers. -/
theorem IsNear.unitExponent_cases (hn : 0 < n) (hd : 0 < d) :
    unitExponent n d = e ∨ (e = -1074 ∧ unitExponent n d < e) ∨
      (-1074 < e ∧ m = hiddenBit ∧ unitExponent n d = e - 1 ∧ (n : ℚ) / d < 2 ^ (e + 52)) := by
  by_cases hbelow : (n : ℚ) / d < 2 ^ (e + 52)
  · by_cases he : -1074 < e
    · have hm := hnear.eq_hiddenBit hparts he hbelow
      have hlow : (2 : ℚ) ^ (e - 1 + 52) ≤ n / d := by
        refine le_trans ?_ (hnear.narrow hm he)
        rw [show e - 1 + 52 = e + (51 : Nat) by push_cast; ring, two_zpow_add, hm]
        exact mul_le_mul_of_nonneg_right (by norm_num [hiddenBit]) (two_zpow_pos e).le
      have hunit := unitExponent_eq hn hd hlow (by rwa [show e - 1 + 53 = e + 52 by ring])
      exact .inr (.inr ⟨he, hm, hunit, hbelow⟩)
    · have hlow := (unitExponent_bounds hn hd).1
      have hless : unitExponent n d + 52 < e + 52 :=
        (zpow_lt_zpow_iff_right₀ (by decide : (1 : ℚ) < 2)).mp (hlow.trans_lt hbelow)
      have hleast := hparts.least
      exact .inr (.inl ⟨by omega, by omega⟩)
  · exact .inl (unitExponent_eq hn hd (not_lt.mp hbelow) (hnear.lt_two_zpow hparts))

/-- A quotient that is near to a number is rounded to it. -/
theorem nearestMagnitude_of_isNear (hn : 0 < n) (hd : 0 < d) :
    nearestMagnitude n d = min ((e + 1074).toNat * hiddenBit + m) infinityMagnitude := by
  have hround := IsNear.roundQuotient_scale hd hnear.lower hnear.upper hnear.tie
  rw [nearestMagnitude]
  obtain hunit | ⟨hleast, hunit⟩ | ⟨hnormal, hm, hunit, hbelow⟩ :=
    hnear.unitExponent_cases hparts hn hd
  · have hmax : max (unitExponent n d) (-1074) = e := by
      have hle := hparts.least
      omega
    simp only [hmax, hround]
  · have hmax : max (unitExponent n d) (-1074) = e := by omega
    simp only [hmax, hround]
  · -- Below a power of two the unit is halved, and the quotient is rounded up to twice as many.
    have hmax : max (unitExponent n d) (-1074) = e - 1 := by omega
    have hhalf : (2 : ℚ) ^ e = 2 * 2 ^ (e - 1) := by
      rw [← zpow_one_add₀ (by decide : (2 : ℚ) ≠ 0)]
      congr 1
      ring
    have hlower : (((2 * hiddenBit : Nat) : ℚ) - 1 / 2) * 2 ^ (e - 1) ≤ (n : ℚ) / d := by
      have hnarrow := hnear.narrow hm hnormal
      rw [hm, hhalf] at hnarrow
      push_cast
      linarith
    have hupper : (n : ℚ) / d ≤ (((2 * hiddenBit : Nat) : ℚ) + 1 / 2) * 2 ^ (e - 1) := by
      have hpow : (0 : ℚ) < 2 ^ (e - 1) := two_zpow_pos (e - 1)
      have htop : (2 : ℚ) ^ (e + 52) = ((2 * hiddenBit : Nat) : ℚ) * 2 ^ (e - 1) := by
        rw [show e + 52 = e - 1 + (53 : Nat) by push_cast; ring, two_zpow_add]
        norm_num [hiddenBit]
      rw [htop] at hbelow
      linarith
    have heven : (2 * hiddenBit) % 2 ≠ 1 := by decide
    have hround' := IsNear.roundQuotient_scale hd hlower hupper fun hodd => absurd hodd heven
    have hplace : (e - 1 + 1074).toNat * hiddenBit + 2 * hiddenBit =
        (e + 1074).toNat * hiddenBit + hiddenBit := by
      have hnat : (e + 1074).toNat = (e - 1 + 1074).toNat + 1 := by omega
      rw [hnat]
      ring
    simp only [hmax, hround', hm, hplace]

end

/-! ## The parts of a number -/

variable {x : Binary64}

/-- The parts of a number give back its magnitude. -/
theorem magnitude_eq_parts (x : Binary64) :
    (x.exponent + 1074).toNat * hiddenBit + x.significand = x.magnitude := by
  rw [exponent, significand]
  split
  · simp
  · rename_i hnormal
    have hdigits : hiddenBit * (x.magnitude / hiddenBit) + x.magnitude % hiddenBit = x.magnitude :=
      Nat.div_add_mod _ _
    have hfield : 1 ≤ x.magnitude / hiddenBit :=
      (Nat.one_le_div_iff (by decide)).mpr (not_lt.mp hnormal)
    have hnat : ((x.magnitude / hiddenBit : Nat) - 1075 + 1074 : Int).toNat =
        x.magnitude / hiddenBit - 1 := by omega
    rw [hnat, Nat.sub_mul, Nat.one_mul, Nat.mul_comm]
    have hle : hiddenBit ≤ hiddenBit * (x.magnitude / hiddenBit) := Nat.le_mul_of_pos_right _ hfield
    omega

/-- A number other than zero falls into a significand and an exponent in their bounds. -/
theorem isParts (hzero : x.isZero = false) :
    IsParts x.significand x.exponent := by
  have hpos : x.magnitude ≠ 0 := by simpa [isZero] using hzero
  rw [significand, exponent]
  split
  · rename_i hsubnormal
    refine ⟨Nat.pos_of_ne_zero hpos, by omega, le_refl _, fun h => absurd h (lt_irrefl _)⟩
  · rename_i hnormal
    have hfield : 1 ≤ x.magnitude / hiddenBit :=
      (Nat.one_le_div_iff (by decide)).mpr (not_lt.mp hnormal)
    have hfraction : x.magnitude % hiddenBit < hiddenBit := Nat.mod_lt _ (by decide)
    have hhidden : 0 < hiddenBit := by decide
    exact ⟨by omega, by omega, by omega, fun _ => by omega⟩

/-- The exponent of a finite number is bounded. -/
theorem exponent_lt (hfinite : x.isFinite = true) : x.exponent < 972 := by
  have hlt : x.magnitude < infinityMagnitude := by simpa [isFinite] using hfinite
  rw [exponent]
  split
  · omega
  · have hfield : x.magnitude / hiddenBit < 0x7ff := Nat.div_lt_of_lt_mul (by rwa [Nat.mul_comm])
    omega

/-- A quotient that is near to a finite number is rounded to its magnitude. -/
theorem nearestMagnitude_eq_magnitude {n d : Nat} (hn : 0 < n) (hd : 0 < d)
    (hfinite : x.isFinite = true) (hzero : x.isZero = false)
    (hnear : IsNear x.significand x.exponent ((n : ℚ) / d)) :
    nearestMagnitude n d = x.magnitude := by
  have hle : x.magnitude ≤ infinityMagnitude := by
    have hlt : x.magnitude < infinityMagnitude := by simpa [isFinite] using hfinite
    exact hlt.le
  rw [nearestMagnitude_of_isNear (isParts hzero) hnear hn hd, magnitude_eq_parts,
    min_eq_left hle]

/-- The absolute value of a number is near to it. -/
theorem isNear_self (x : Binary64) :
    IsNear x.significand x.exponent (x.significand * 2 ^ x.exponent) := by
  have hpow := two_zpow_pos x.exponent
  refine ⟨?_, ?_, fun _ => ⟨?_, ?_⟩, fun _ _ => ?_⟩ <;> nlinarith

end Binary64

end Stencil
