import Mathlib.Tactic.IntervalCases
import Stencil.Number.Shortest
import Stencil.Proofs.Number.Nearest

/-!
# Shortest decimals read back

The decimal that a finite number is written as lies in the interval of the quotients that are
rounded to the number (`ShortestDecimal.isNear_ofNumber`). One is found on the grid of seventeen
digits at the latest, as there the grid is finer than the interval; this takes the position of the
decimal point, which is estimated from the binary digits and counted up from there
(`ShortestDecimal.pointPosition_bounds`).
-/

set_option autoImplicit false

namespace Stencil

namespace ShortestDecimal

open Binary64

/-! ## Powers of ten -/

/-- The quotient for a power of ten is that power. -/
theorem tenQuotient_div (e : Int) :
    ((tenQuotient e).1 : ℚ) / (tenQuotient e).2 = 10 ^ e := by
  cases e with
  | ofNat k =>
    have hpow : (10 : ℚ) ^ Int.ofNat k = 10 ^ k := zpow_natCast 10 k
    rw [hpow]
    simp [tenQuotient, Nat.pow_eq]
  | negSucc k =>
    have hpow : (10 : ℚ) ^ Int.negSucc k = (10 ^ (k + 1))⁻¹ := zpow_negSucc 10 k
    rw [hpow]
    simp [tenQuotient, Nat.pow_eq]

/-- The quotient for a power of ten has positive terms. -/
theorem tenQuotient_pos (e : Int) : 0 < (tenQuotient e).1 ∧ 0 < (tenQuotient e).2 := by
  cases e with
  | ofNat k => exact ⟨Nat.pow_pos (by decide), Nat.one_pos⟩
  | negSucc k => exact ⟨Nat.one_pos, Nat.pow_pos (by decide)⟩

/-- Powers of ten are positive. -/
theorem ten_zpow_pos (e : Int) : (0 : ℚ) < 10 ^ e := zpow_pos (by decide) e

/-- A power of ten is compared with a quotient by cross multiplication. -/
theorem tenQuotient_mul_le_iff {n d : Nat} (hd : 0 < d) (e : Int) :
    (tenQuotient e).1 * d ≤ n * (tenQuotient e).2 ↔ (10 : ℚ) ^ e ≤ n / d := by
  have hd' : (0 : ℚ) < d := by exact_mod_cast hd
  have hu : (0 : ℚ) < (tenQuotient e).2 := by exact_mod_cast (tenQuotient_pos e).2
  rw [← tenQuotient_div e, div_le_div_iff₀ hu hd']
  exact_mod_cast Iff.rfl

/-! ## The position of the point -/

/-- The estimate of the position of the point of a number with so many binary digits. -/
def estimate (places : Int) : Int := places * 30103 / 100000 - 1

/-- Whether the estimate is at most four places too low. -/
def isEstimate (places : Int) : Bool :=
  let (t, u) := tenQuotient (estimate places)
  let (t', u') := tenQuotient (estimate places + 4)
  let (f, g) := scaleQuotient 1 1 (places - 1)
  let (f', g') := scaleQuotient 1 1 (places + 1)
  t * g ≤ f * u && f' * u' ≤ t' * g'

/-- Every number of binary digits that a finite number has, before or behind the point, is looked
at in turn. -/
theorem isEstimate_of_bounds {places : Int} (hlow : -1080 ≤ places) (hhigh : places < 1030) :
    isEstimate places = true := by
  have hall : (List.range 2110).all (fun k => isEstimate ((k : Nat) - 1080)) = true := by
    decide +kernel
  rw [List.all_eq_true] at hall
  have hplaces := hall (places + 1080).toNat (List.mem_range.mpr (by omega))
  rwa [show (((places + 1080).toNat : Nat) : Int) - 1080 = places by omega] at hplaces

/-- The estimate is right for every number that is not zero and not infinite. -/
theorem ten_zpow_estimate {places : Int} (hlow : -1080 ≤ places) (hhigh : places < 1030) :
    (10 : ℚ) ^ estimate places ≤ 2 ^ (places - 1) ∧
      (2 : ℚ) ^ (places + 1) ≤ 10 ^ (estimate places + 4) := by
  have hcheck := isEstimate_of_bounds hlow hhigh
  simp only [isEstimate, Bool.and_eq_true, decide_eq_true_eq] at hcheck
  obtain ⟨hbelow, habove⟩ := hcheck
  have hbase : ∀ e, ((scaleQuotient 1 1 e).1 : ℚ) / (scaleQuotient 1 1 e).2 = 2 ^ e := by
    intro e
    have hscaled := scaleQuotient_div 1 1 e
    simpa using hscaled
  have hg : ∀ e, 0 < (scaleQuotient 1 1 e).2 := fun e => scaleQuotient_snd_pos 1 (by decide) e
  constructor
  · rw [← hbase, ← tenQuotient_mul_le_iff (hg _)]
    exact hbelow
  · have hu : (0 : ℚ) < (tenQuotient (estimate places + 4)).2 := by
      exact_mod_cast (tenQuotient_pos _).2
    have hg' : (0 : ℚ) < (scaleQuotient 1 1 (places + 1)).2 := by exact_mod_cast hg (places + 1)
    rw [← hbase, ← tenQuotient_div, div_le_div_iff₀ hg' hu]
    exact_mod_cast habove

/-- The quotient has as many digits before the point as there are powers of ten up to it. -/
theorem pointPosition_bounds {n d : Nat} (hn : 0 < n) (hd : 0 < d)
    (hlow : -1080 ≤ (n.log2 : Int) - d.log2) (hhigh : (n.log2 : Int) - d.log2 < 1030) :
    (10 : ℚ) ^ (pointPosition n d - 1) ≤ n / d ∧ (n : ℚ) / d < 10 ^ pointPosition n d := by
  set places : Int := (n.log2 : Int) - d.log2 with hplaces
  obtain ⟨hbelow, habove⟩ := quotient_bounds hn hd
  obtain ⟨hfirst, hlast⟩ := ten_zpow_estimate hlow hhigh
  have hzero : (10 : ℚ) ^ (estimate places) ≤ n / d := hfirst.trans hbelow
  have hfour : (n : ℚ) / d < 10 ^ (estimate places + 4) := habove.trans_le hlast
  -- The powers that are reached are the first ones, and not all of the five.
  obtain ⟨reached, hreached, hless, hlow', hhigh'⟩ : ∃ reached : Nat, 1 ≤ reached ∧ reached ≤ 4 ∧
      (10 : ℚ) ^ (estimate places + reached - 1) ≤ n / d ∧
        (n : ℚ) / d < 10 ^ (estimate places + reached) := by
    by_cases hone : (n : ℚ) / d < 10 ^ (estimate places + 1)
    · exact ⟨1, by decide, by decide, by simpa using hzero, by simpa using hone⟩
    by_cases htwo : (n : ℚ) / d < 10 ^ (estimate places + 2)
    · refine ⟨2, by decide, by decide, ?_, by simpa using htwo⟩
      rw [show estimate places + ((2 : Nat) : Int) - 1 = estimate places + 1 by omega]
      exact not_lt.mp hone
    by_cases hthree : (n : ℚ) / d < 10 ^ (estimate places + 3)
    · refine ⟨3, by decide, by decide, ?_, by simpa using hthree⟩
      rw [show estimate places + ((3 : Nat) : Int) - 1 = estimate places + 2 by omega]
      exact not_lt.mp htwo
    · refine ⟨4, by decide, by decide, ?_, by simpa using hfour⟩
      rw [show estimate places + ((4 : Nat) : Int) - 1 = estimate places + 3 by omega]
      exact not_lt.mp hthree
  have hiff : ∀ i : Nat, (10 : ℚ) ^ (estimate places + i) ≤ n / d ↔ i < reached := by
    intro i
    constructor
    · intro hi
      have hlt := (zpow_lt_zpow_iff_right₀ (by decide : (1 : ℚ) < 10)).mp (hi.trans_lt hhigh')
      omega
    · intro hi
      refine le_trans (zpow_le_zpow_right₀ (by decide) ?_) hlow'
      omega
  have hposition : pointPosition n d = estimate places + reached := by
    have hcount : (List.range 5).countP (fun i => decide (i < reached)) = reached := by
      interval_cases reached <;> rfl
    have hreach : (fun i : Nat => decide ((tenQuotient (estimate places + i)).1 * d ≤
        n * (tenQuotient (estimate places + i)).2)) = fun i => decide (i < reached) := by
      funext i
      exact decide_eq_decide.mpr ((tenQuotient_mul_le_iff hd _).trans (hiff i))
    calc pointPosition n d = estimate places + ((List.range 5).countP fun i : Nat =>
          decide ((tenQuotient (estimate places + i)).1 * d ≤
            n * (tenQuotient (estimate places + i)).2) : Nat) := rfl
      _ = estimate places + reached := by rw [hreach, hcount]
  rw [hposition]
  exact ⟨hlow', hhigh'⟩

/-- The position of the point is not far from the binary one. -/
theorem pointPosition_mem (n d : Nat) :
    estimate ((n.log2 : Int) - d.log2) ≤ pointPosition n d ∧
      pointPosition n d ≤ estimate ((n.log2 : Int) - d.log2) + 5 := by
  have hle : (List.range 5).countP (fun i : Nat =>
      decide ((tenQuotient (estimate ((n.log2 : Int) - d.log2) + i)).1 * d ≤
        n * (tenQuotient (estimate ((n.log2 : Int) - d.log2) + i)).2)) ≤ 5 :=
    List.countP_le_length
  have hposition : pointPosition n d = estimate ((n.log2 : Int) - d.log2) +
      ((List.range 5).countP fun i : Nat =>
        decide ((tenQuotient (estimate ((n.log2 : Int) - d.log2) + i)).1 * d ≤
          n * (tenQuotient (estimate ((n.log2 : Int) - d.log2) + i)).2) : Nat) := rfl
  omega

/-! ## Decimals in the interval of a number -/

/-- The numbers that an interval is tested with are those of two quotients, taken so many times. -/
theorem exists_scale (w e : Int) : ∃ scale : ℚ, 0 < scale ∧
    (∀ a : Nat, ((a * (scaleQuotient 1 1 w).1 * (tenQuotient e).2 : Nat) : ℚ) =
      a * 2 ^ w * scale) ∧
    ∀ c : Nat, ((c * (tenQuotient e).1 * (scaleQuotient 1 1 w).2 : Nat) : ℚ) =
      c * 10 ^ e * scale := by
  have hbase := scaleQuotient_div 1 1 w
  rw [Nat.cast_one, div_one, one_mul] at hbase
  have hten := tenQuotient_div e
  have hg : (0 : ℚ) < (scaleQuotient 1 1 w).2 := by
    exact_mod_cast scaleQuotient_snd_pos 1 (by decide) w
  have hu : (0 : ℚ) < (tenQuotient e).2 := by exact_mod_cast (tenQuotient_pos e).2
  refine ⟨(scaleQuotient 1 1 w).2 * (tenQuotient e).2, mul_pos hg hu, fun a => ?_, fun c => ?_⟩
  · rw [← hbase]
    push_cast
    field_simp
  · rw [← hten]
    push_cast
    field_simp

/-- Whether a candidate lies in an interval, in rational numbers. -/
theorem Interval.contains_iff (i : Interval) {w : Int} (hunit : i.unit = scaleQuotient 1 1 w)
    (candidate : Nat) (e : Int) :
    i.contains candidate e = true ↔
      if i.closed = true then
        (i.lower : ℚ) * 2 ^ w ≤ candidate * 10 ^ e ∧ (candidate : ℚ) * 10 ^ e ≤ i.upper * 2 ^ w
      else
        (i.lower : ℚ) * 2 ^ w < candidate * 10 ^ e ∧
          (candidate : ℚ) * 10 ^ e < i.upper * 2 ^ w := by
  obtain ⟨scale, hscale, hunits, hcandidate⟩ := exists_scale w e
  rw [contains, hunit]
  simp only
  split
  · rw [Bool.and_eq_true, decide_eq_true_eq, decide_eq_true_eq, ← Nat.cast_le (α := ℚ),
      ← Nat.cast_le (α := ℚ), hunits, hunits, hcandidate, mul_le_mul_iff_left₀ hscale,
      mul_le_mul_iff_left₀ hscale]
  · rw [Bool.and_eq_true, decide_eq_true_eq, decide_eq_true_eq, ← Nat.cast_lt (α := ℚ),
      ← Nat.cast_lt (α := ℚ), hunits, hunits, hcandidate, mul_lt_mul_iff_left₀ hscale,
      mul_lt_mul_iff_left₀ hscale]

section

variable {x : Binary64}

/-- A quarter of a unit is the unit two powers below. -/
theorem two_zpow_eq_four_mul (e : Int) : (2 : ℚ) ^ e = 4 * 2 ^ (e - 2) := by
  have hadd := two_zpow_add (e - 2) 2
  rw [show e - 2 + (2 : Nat) = e by push_cast; ring] at hadd
  rw [hadd]
  norm_num

/-- The unit is halved below a power of two, but for the least normal number. -/
theorem Interval.lower_ofNumber (hzero : x.isZero = false) :
    ((Interval.ofNumber x).lower : ℚ) =
      if x.significand = hiddenBit ∧ -1074 < x.exponent then 4 * (x.significand : ℚ) - 1
      else 4 * (x.significand : ℚ) - 2 := by
  have hm := (isParts hzero).pos
  have hnormal : 2 * hiddenBit ≤ x.magnitude ↔ -1074 < x.exponent := by
    have hfield : 2 ≤ x.magnitude / hiddenBit ↔ 2 * hiddenBit ≤ x.magnitude :=
      Nat.le_div_iff_mul_le (by decide)
    rw [← hfield, Binary64.exponent]
    split
    · rename_i hsmall
      rw [Nat.div_eq_of_lt hsmall]
      simp
    · omega
  have hlower : (Interval.ofNumber x).lower =
      if x.significand = hiddenBit ∧ -1074 < x.exponent then 4 * x.significand - 1
      else 4 * x.significand - 2 := by
    simp only [Interval.ofNumber, Bool.and_eq_true, beq_iff_eq, decide_eq_true_eq, hnormal]
  rw [hlower]
  split
  · rw [Nat.cast_sub (by omega)]
    push_cast
    ring
  · rw [Nat.cast_sub (by omega)]
    push_cast
    ring

/-- A decimal in the interval of a number is near to the number. -/
theorem isNear_of_contains (hzero : x.isZero = false) {candidate : Nat} {e : Int}
    (h : (Interval.ofNumber x).contains candidate e = true) :
    IsNear x.significand x.exponent (candidate * 10 ^ e) := by
  have hpow := two_zpow_pos (x.exponent - 2)
  have hfour := two_zpow_eq_four_mul x.exponent
  have hlower := Interval.lower_ofNumber hzero
  have hupper : ((Interval.ofNumber x).upper : ℚ) = 4 * x.significand + 2 := by
    rw [Interval.ofNumber]
    push_cast
    ring
  have hclosed : (Interval.ofNumber x).closed = (x.significand % 2 == 0) := rfl
  rw [Interval.contains_iff _ rfl, hclosed, hupper] at h
  generalize (candidate : ℚ) * 10 ^ e = r at h ⊢
  have hle : ((Interval.ofNumber x).lower : ℚ) * 2 ^ (x.exponent - 2) ≤ r ∧
      r ≤ (4 * x.significand + 2) * 2 ^ (x.exponent - 2) := by
    split at h
    · exact h
    · exact ⟨h.1.le, h.2.le⟩
  have hhalf : ((4 : ℚ) * x.significand - 2) * 2 ^ (x.exponent - 2) ≤
      (Interval.ofNumber x).lower * 2 ^ (x.exponent - 2) := by
    refine mul_le_mul_of_nonneg_right ?_ hpow.le
    rw [hlower]
    split <;> linarith
  rw [show ((4 : ℚ) * x.significand - 2) * 2 ^ (x.exponent - 2) =
    (x.significand - 1 / 2) * 2 ^ x.exponent by rw [hfour]; ring] at hhalf
  rw [show ((4 : ℚ) * x.significand + 2) * 2 ^ (x.exponent - 2) =
    (x.significand + 1 / 2) * 2 ^ x.exponent by rw [hfour]; ring] at h hle
  refine ⟨hhalf.trans hle.1, hle.2, fun hodd => ?_, fun hm he => ?_⟩
  · rw [if_neg (by simp [hodd])] at h
    exact ⟨hhalf.trans_lt h.1, h.2⟩
  · rw [hlower, if_pos ⟨hm, he⟩] at hle
    calc ((x.significand : ℚ) - 1 / 4) * 2 ^ x.exponent
        = (4 * x.significand - 1) * 2 ^ (x.exponent - 2) := by rw [hfour]; ring
      _ ≤ r := hle.1

/-! ## The grids that are tried -/

/-- A decimal that is taken from a grid is in the interval. -/
theorem contains_of_nearestOnGrid? {i : Interval} {e : Int} {candidate : Nat}
    (h : i.nearestOnGrid? e = some candidate) : i.contains candidate e = true := by
  simp only [Interval.nearestOnGrid?] at h
  generalize i.value * i.unit.1 * (tenQuotient e).2 / ((tenQuotient e).1 * i.unit.2) = q at h
  cases hfirst : i.contains q e with
  | false =>
    cases hsecond : i.contains (q + 1) e with
    | false => simp [hfirst, hsecond] at h
    | true =>
      simp only [hfirst, hsecond, Option.some.injEq] at h
      rwa [← h]
  | true =>
    cases hsecond : i.contains (q + 1) e with
    | false =>
      simp only [hfirst, hsecond, Option.some.injEq] at h
      rwa [← h]
    | true =>
      have hcandidate : candidate = q ∨ candidate = q + 1 := by
        simp only [hfirst, hsecond] at h
        split at h
        · exact .inl (Option.some.inj h).symm
        · split at h
          · exact .inr (Option.some.inj h).symm
          · have hlast := Option.some.inj h
            omega
      obtain rfl | rfl := hcandidate
      · exact hfirst
      · exact hsecond

/-- A grid gives a decimal when one of the two around the number is in the interval. -/
theorem isSome_nearestOnGrid? {i : Interval} {w : Int} (hunit : i.unit = scaleQuotient 1 1 w)
    {e : Int} (h : ∀ q : Nat, (q : ℚ) * 10 ^ e ≤ i.value * 2 ^ w →
      (i.value : ℚ) * 2 ^ w < (q + 1) * 10 ^ e →
      i.contains q e = true ∨ i.contains (q + 1) e = true) :
    (i.nearestOnGrid? e).isSome = true := by
  obtain ⟨scale, hscale, hunits, hcandidate⟩ := exists_scale w e
  have hvalue := hunits i.value
  have hgrid := hcandidate 1
  rw [← hunit] at hvalue hgrid
  simp only [Nat.cast_one, one_mul] at hgrid
  have hpos : 0 < (tenQuotient e).1 * i.unit.2 := by
    rw [hunit]
    exact Nat.mul_pos (tenQuotient_pos e).1 (scaleQuotient_snd_pos 1 (by decide) w)
  simp only [Interval.nearestOnGrid?]
  generalize i.value * i.unit.1 * (tenQuotient e).2 = n at hvalue ⊢
  generalize (tenQuotient e).1 * i.unit.2 = d at hgrid hpos ⊢
  have hlow : ((n / d : Nat) : ℚ) * 10 ^ e ≤ i.value * 2 ^ w := by
    have hle : n / d * d ≤ n := Nat.div_mul_le_self n d
    have hle' : ((n / d : Nat) : ℚ) * d ≤ n := by exact_mod_cast hle
    rw [hvalue, hgrid, ← mul_assoc] at hle'
    exact le_of_mul_le_mul_right hle' hscale
  have hhigh : (i.value : ℚ) * 2 ^ w < ((n / d : Nat) + 1) * 10 ^ e := by
    have hlt : n < (n / d + 1) * d := by
      rw [Nat.mul_comm]
      exact Nat.lt_mul_div_succ n hpos
    have hlt' : (n : ℚ) < ((n / d : Nat) + 1) * d := by exact_mod_cast hlt
    rw [hvalue, hgrid, ← mul_assoc] at hlt'
    exact lt_of_mul_lt_mul_right hlt' hscale.le
  obtain hfirst | hsecond := h _ hlow hhigh
  · cases hsecond : i.contains (n / d + 1) e with
    | false => simp [hfirst]
    | true =>
      simp only [hfirst]
      split
      · rfl
      · split <;> rfl
  · cases hfirst : i.contains (n / d) e with
    | false => simp [hsecond]
    | true =>
      simp only [hsecond]
      split
      · rfl
      · split <;> rfl

/-- The grid of seventeen digits is finer than the interval. -/
theorem exists_nearestOnGrid? (hzero : x.isZero = false) {p : Int}
    (hlow : (10 : ℚ) ^ (p - 1) ≤ x.significand * 2 ^ x.exponent) :
    ((Interval.ofNumber x).nearestOnGrid? (p - 17)).isSome = true := by
  have hunit : (Interval.ofNumber x).unit = scaleQuotient 1 1 (x.exponent - 2) := rfl
  have hvalue : ((Interval.ofNumber x).value : ℚ) = 4 * x.significand := by
    rw [Interval.ofNumber]
    push_cast
    ring
  have hupper : ((Interval.ofNumber x).upper : ℚ) = 4 * x.significand + 2 := by
    rw [Interval.ofNumber]
    push_cast
    ring
  have hfour := two_zpow_eq_four_mul x.exponent
  have hpow := two_zpow_pos (x.exponent - 2)
  have hgrid := ten_zpow_pos (p - 17)
  have hdigits : (10 : ℚ) ^ (p - 1) = 10 ^ 16 * 10 ^ (p - 17) := by
    rw [← zpow_natCast, ← zpow_add₀ (by decide)]
    congr 1
    push_cast
    ring
  rw [hdigits, hfour] at hlow
  -- The interval is wider than the grid.
  have hwide : (10 : ℚ) ^ (p - 17) + (Interval.ofNumber x).lower * 2 ^ (x.exponent - 2) <
      (4 * x.significand + 2) * 2 ^ (x.exponent - 2) := by
    have hlt : (x.significand : ℚ) < 2 ^ 53 := by exact_mod_cast (isParts hzero).lt
    rw [Interval.lower_ofNumber hzero]
    split
    · rename_i hpower
      have hm : (x.significand : ℚ) = 2 ^ 52 := by
        rw [hpower.1]
        norm_num [hiddenBit]
      rw [hm] at hlow ⊢
      nlinarith
    · nlinarith
  refine isSome_nearestOnGrid? hunit fun q hbelow habove => ?_
  rw [hvalue] at hbelow habove
  have hless : (Interval.ofNumber x).lower * (2 : ℚ) ^ (x.exponent - 2) <
      4 * x.significand * 2 ^ (x.exponent - 2) := by
    refine mul_lt_mul_of_pos_right ?_ hpow
    rw [Interval.lower_ofNumber hzero]
    split <;> linarith
  by_cases hinside : (Interval.ofNumber x).lower * (2 : ℚ) ^ (x.exponent - 2) < q * 10 ^ (p - 17)
  · left
    rw [Interval.contains_iff _ hunit, hupper]
    have hend : (q : ℚ) * 10 ^ (p - 17) < (4 * x.significand + 2) * 2 ^ (x.exponent - 2) := by
      linarith
    split
    · exact ⟨hinside.le, hend.le⟩
    · exact ⟨hinside, hend⟩
  · right
    rw [Interval.contains_iff _ hunit, hupper]
    push_cast
    have hstart : (Interval.ofNumber x).lower * (2 : ℚ) ^ (x.exponent - 2) <
        ((q : ℚ) + 1) * 10 ^ (p - 17) := hless.trans habove
    have hend : ((q : ℚ) + 1) * 10 ^ (p - 17) < (4 * x.significand + 2) * 2 ^ (x.exponent - 2) := by
      linarith
    split
    · exact ⟨hstart.le, hend.le⟩
    · exact ⟨hstart, hend⟩

/-! ## The decimal of a number -/

/-- Dropping zeros at the end keeps the value. -/
theorem dropZeros_spec (count digits : Nat) (e : Int) :
    ((dropZeros count digits e).digits : ℚ) * 10 ^ (dropZeros count digits e).exponent =
        digits * 10 ^ e ∧
      e ≤ (dropZeros count digits e).exponent ∧
        (dropZeros count digits e).exponent ≤ e + count := by
  induction count generalizing digits e with
  | zero => simp [dropZeros]
  | succ count ih =>
    rw [dropZeros]
    split
    · rename_i hzero
      simp only [Bool.and_eq_true, beq_iff_eq] at hzero
      obtain ⟨hvalue, hlow, hhigh⟩ := ih (digits / 10) (e + 1)
      refine ⟨?_, by omega, by omega⟩
      have hdigits : digits = 10 * (digits / 10) := by omega
      have hdigits' : (digits : ℚ) = 10 * (digits / 10 : Nat) := by exact_mod_cast hdigits
      rw [hvalue, hdigits', zpow_add_one₀ (by decide)]
      ring
    · exact ⟨rfl, le_refl e, Int.le_add_of_nonneg_right (Int.natCast_nonneg _)⟩

/-- The quotient of a number lies among those whose point is estimated right. -/
theorem toRatio_bounds (hfinite : x.isFinite = true) (hzero : x.isZero = false) :
    (0 < x.toRatio.1 ∧ 0 < x.toRatio.2) ∧
      (x.toRatio.1 : ℚ) / x.toRatio.2 = x.significand * 2 ^ x.exponent ∧
      -1080 ≤ (x.toRatio.1.log2 : Int) - x.toRatio.2.log2 ∧
      (x.toRatio.1.log2 : Int) - x.toRatio.2.log2 < 1030 := by
  have hparts := isParts hzero
  have hquotient : (x.toRatio.1 : ℚ) / x.toRatio.2 = x.significand * 2 ^ x.exponent := by
    rw [toRatio, scaleQuotient_div, Nat.cast_one, div_one]
  have hpow := two_zpow_pos x.exponent
  have hm : (1 : ℚ) ≤ x.significand := by exact_mod_cast hparts.pos
  have hm' : (x.significand : ℚ) < 2 ^ 53 := by exact_mod_cast hparts.lt
  have hd : 0 < x.toRatio.2 := scaleQuotient_snd_pos _ (by decide) _
  have hd' : (0 : ℚ) < x.toRatio.2 := by exact_mod_cast hd
  have hn' : (0 : ℚ) < x.toRatio.1 := by
    have hpos : (0 : ℚ) < x.toRatio.1 / x.toRatio.2 := by
      rw [hquotient]
      exact mul_pos (by linarith) hpow
    exact (div_pos_iff_of_pos_right hd').mp hpos
  have hn : 0 < x.toRatio.1 := by exact_mod_cast hn'
  obtain ⟨hlow, hhigh⟩ := quotient_bounds hn hd
  rw [hquotient] at hlow hhigh
  refine ⟨⟨hn, hd⟩, hquotient, ?_, ?_⟩
  · have hless : (2 : ℚ) ^ x.exponent < 2 ^ ((x.toRatio.1.log2 : Int) - x.toRatio.2.log2 + 1) :=
      lt_of_le_of_lt (by nlinarith) hhigh
    have hless' := (zpow_lt_zpow_iff_right₀ (by decide : (1 : ℚ) < 2)).mp hless
    have hleast := hparts.least
    omega
  · have hless : (2 : ℚ) ^ ((x.toRatio.1.log2 : Int) - x.toRatio.2.log2 - 1) <
        2 ^ (x.exponent + (53 : Nat)) := by
      rw [two_zpow_add]
      exact hlow.trans_lt (mul_lt_mul_of_pos_right hm' hpow)
    have hless' := (zpow_lt_zpow_iff_right₀ (by decide : (1 : ℚ) < 2)).mp hless
    have hgreatest := exponent_lt hfinite
    omega

/-- The shortest decimal of a finite number is near to it, and has an exponent that a reader does
not take for out of the range. -/
theorem isNear_ofNumber (hfinite : x.isFinite = true) (hzero : x.isZero = false) :
    IsNear x.significand x.exponent ((ofNumber x).digits * 10 ^ (ofNumber x).exponent) ∧
      (ofNumber x).exponent.natAbs < 400 := by
  obtain ⟨⟨hn, hd⟩, hquotient, hplaces, hplaces'⟩ := toRatio_bounds hfinite hzero
  have hpoint := (pointPosition_bounds hn hd hplaces hplaces').1
  rw [hquotient] at hpoint
  obtain ⟨hposition, hposition'⟩ := pointPosition_mem x.toRatio.1 x.toRatio.2
  have hlast := exists_nearestOnGrid? hzero hpoint
  set p := pointPosition x.toRatio.1 x.toRatio.2 with hp
  have hestimate : -400 < p - 17 ∧ p + 17 < 400 := by
    rw [estimate] at hposition hposition'
    omega
  obtain ⟨digits, k, hk, hgrid, hof⟩ : ∃ (digits k : Nat), k < 17 ∧
      (Interval.ofNumber x).nearestOnGrid? (p - (k + 1)) = some digits ∧
        ofNumber x = dropZeros 18 digits (p - (k + 1)) := by
    rw [ofNumber, if_neg (by simp [hzero])]
    simp only [← hp]
    split
    · rename_i digits e hfound
      obtain ⟨k, hk, htried⟩ := List.exists_of_findSome?_eq_some hfound
      obtain ⟨_, hgrid, heq⟩ := Option.map_eq_some_iff.mp htried
      cases heq
      exact ⟨digits, k, List.mem_range.mp hk, hgrid, rfl⟩
    · rename_i hnone
      have hlast' := List.findSome?_eq_none_iff.mp hnone 16 (by decide)
      rw [Option.map_eq_none_iff] at hlast'
      have hsame : p - (((16 : Nat) : Int) + 1) = p - 17 := by omega
      rw [hsame] at hlast'
      rw [hlast'] at hlast
      cases hlast
  have hnear := isNear_of_contains hzero (contains_of_nearestOnGrid? hgrid)
  obtain ⟨hvalue, hexponent, hexponent'⟩ := dropZeros_spec 18 digits (p - (k + 1))
  rw [← hof] at hvalue hexponent hexponent'
  rw [hvalue]
  exact ⟨hnear, by omega⟩

end

end ShortestDecimal

end Stencil
