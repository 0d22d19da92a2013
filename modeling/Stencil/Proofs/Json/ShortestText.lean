import Mathlib.Tactic.Ring
import Stencil.Json.Strict
import Stencil.Proofs.Number.Plain
import Stencil.Proofs.Number.Shortest

/-!
# Shortest texts read back

The decimal with the fewest digits, however it is laid out, is a plain numeral whose value is near
to the number (`Json.exists_printShortest`), and the text of a normal number is read as the number
(`Json.real?_printShortest`).
-/

set_option autoImplicit false

namespace Stencil

namespace Decimal

/-- The digits of a text in two parts denote the first number, moved up, and the second one. -/
theorem toNat_append (s t : Bytes) : toNat (s ++ t) = toNat s * 10 ^ t.length + toNat t := by
  induction t using List.reverseRecOn with
  | nil => simp [toNat]
  | append_singleton t b ih =>
    rw [← List.append_assoc, toNat_append_digit, toNat_append_digit, ih, List.length_append,
      List.length_singleton]
    ring

/-- Zeros denote zero. -/
theorem toNat_replicate_zero (count : Nat) : toNat (List.replicate count 0x30) = 0 := by
  induction count with
  | zero => rfl
  | succ count ih =>
    rw [List.replicate_succ', toNat_append_digit, ih]
    rfl

end Decimal

/-- A number is given by its sign and its magnitude. -/
theorem Binary64.ofMagnitude_eta (x : Binary64) : ofMagnitude x.isNegative x.magnitude = x := by
  have hbits := x.bits.toNat_lt
  have hsign : signBit = 2 ^ 63 := rfl
  have hsum : (if x.isNegative then signBit else 0) + x.magnitude = x.bits.toNat := by
    simp only [isNegative, magnitude, decide_eq_true_eq, hsign]
    split <;> omega
  rw [ofMagnitude, hsum]
  simp

/-- A number that is not below the normal ones is not zero. -/
theorem Binary64.isZero_of_hiddenBit_le {x : Binary64} (h : hiddenBit ≤ x.magnitude) :
    x.isZero = false := by
  have hpos : 0 < hiddenBit := by decide
  rw [isZero, beq_eq_false_iff_ne]
  omega

/-! ## Readings of decimals -/

namespace Numeral.Reading

open Binary64 ShortestDecimal

/-- A power of ten that is not too far from zero is computed. -/
theorem exists_scaled (negative : Bool) (count : Nat) {n : Nat} {e : Int} (hn : 0 < n)
    (he : e.natAbs ≤ 1100) :
    ∃ a b, scaled negative .decimal n e count = .ratio negative .decimal a b ∧ 0 < a ∧ 0 < b ∧
      (a : ℚ) / b = n * 10 ^ e := by
  have hzero : (n == 0) = false := beq_eq_false_iff_ne.mpr (by omega)
  have hnear : ¬ 1100 + 5 * count < e.natAbs := by omega
  have hten : 0 < Base.power .decimal := by decide
  unfold scaled
  rw [hzero, if_neg Bool.false_ne_true, if_neg hnear]
  cases e with
  | ofNat k =>
    refine ⟨_, _, rfl, Nat.mul_pos hn (Nat.pow_pos hten), Nat.one_pos, ?_⟩
    have hpow : (10 : ℚ) ^ Int.ofNat k = 10 ^ k := zpow_natCast 10 k
    rw [hpow]
    simp [Base.power, Nat.pow_eq]
  | negSucc k =>
    refine ⟨_, _, rfl, hn, Nat.pow_pos hten, ?_⟩
    have hpow : (10 : ℚ) ^ Int.negSucc k = (10 ^ (k + 1))⁻¹ := zpow_negSucc 10 k
    rw [hpow]
    simp [Base.power, Nat.pow_eq, div_eq_mul_inv]

variable {x : Binary64} {a b : Nat}

/-- A quotient near to a normal number, the least one apart, has all its digits above the bound of
the exponent. -/
theorem le_unitExponent (ha : 0 < a) (hb : 0 < b) (hnormal : hiddenBit < x.magnitude)
    (hnear : IsNear x.significand x.exponent ((a : ℚ) / b)) : -1074 ≤ unitExponent a b := by
  have hzero := isZero_of_hiddenBit_le hnormal.le
  have hparts := isParts hzero
  have hleast := hparts.least
  obtain hunit | ⟨hexponent, hunit⟩ | ⟨hexponent, -, hunit, -⟩ :=
    hnear.unitExponent_cases hparts ha hb
  · omega
  · -- The significand is above the least one of a normal number.
    have hm : hiddenBit + 1 ≤ x.significand := by
      have hmagnitude := magnitude_eq_parts x
      rw [hexponent] at hmagnitude
      simp only [Int.reduceNeg, Int.reduceAdd, Int.toNat_zero, Nat.zero_mul, Nat.zero_add]
        at hmagnitude
      omega
    have hm' : (2 : ℚ) ^ 52 + 1 ≤ x.significand := by exact_mod_cast hm
    have hlow := hnear.lower
    have hhigh := (unitExponent_bounds ha hb).2
    rw [hexponent] at hlow hunit
    have hpow := two_zpow_pos (-1074)
    have hless : (2 : ℚ) ^ ((-1074 : Int) + (52 : Nat)) < 2 ^ (unitExponent a b + 53) := by
      rw [two_zpow_add]
      refine lt_of_le_of_lt ?_ (hlow.trans_lt hhigh)
      exact mul_le_mul_of_nonneg_right (by linarith) hpow.le
    have hless' := (zpow_lt_zpow_iff_right₀ (by decide : (1 : ℚ) < 2)).mp hless
    omega
  · omega

/-- A quotient near to such a number is read as it. -/
theorem toBinary64_of_isNear (negative : Bool) (ha : 0 < a) (hb : 0 < b)
    (hfinite : x.isFinite = true) (hnormal : hiddenBit < x.magnitude)
    (hnear : IsNear x.significand x.exponent ((a : ℚ) / b)) :
    (ratio negative .decimal a b).isOutOfRange = false ∧
      (ratio negative .decimal a b).toBinary64 = ofMagnitude negative x.magnitude := by
  have hunit := le_unitExponent ha hb hnormal hnear
  have hzero := isZero_of_hiddenBit_le hnormal.le
  have hloses : Base.losesLastDigit .decimal (unitExponent a b) = false := by
    rw [Base.losesLastDigit, beq_eq_false_iff_ne]
    omega
  have hkept : keptQuotient .decimal a b = (a, b) := by
    rw [keptQuotient]
    simp [hloses]
  have hunderflows : underflows .decimal a b = false := by
    have hless : ¬ unitExponent a b < -1074 := by omega
    simp [underflows, hless]
  have hnatural : (a == 0) = false := beq_eq_false_iff_ne.mpr (by omega)
  have hvalue : (ratio negative .decimal a b).toBinary64 = ofMagnitude negative x.magnitude := by
    rw [toBinary64, hnatural, if_neg Bool.false_ne_true, hkept]
    simp only [ofRatio]
    rw [if_neg (by omega), nearestMagnitude_eq_magnitude ha hb hfinite hzero hnear]
  refine ⟨?_, hvalue⟩
  have hlt : x.magnitude < infinityMagnitude := by simpa [isFinite] using hfinite
  have hsign : x.magnitude < signBit := hlt.trans (by decide)
  rw [isOutOfRange, hvalue, isInfinite, magnitude_ofMagnitude hsign, hunderflows, Bool.and_false,
    Bool.or_false, beq_eq_false_iff_ne]
  omega

end Numeral.Reading

/-- A plain numeral whose value is near to such a number is read as it. -/
theorem WrittenDecimal.real?_text_of_isNear {x : Binary64} (written : WrittenDecimal)
    (hfinite : x.isFinite = true) (hnormal : Binary64.hiddenBit < x.magnitude)
    (hpower : written.power.natAbs ≤ 1100)
    (hnear : Binary64.IsNear x.significand x.exponent
      (Decimal.toNat (written.whole ++ written.fraction) * 10 ^ written.power)) :
    Numeral.real? written.text = some (Binary64.ofMagnitude written.negative x.magnitude) := by
  have hzero := Binary64.isZero_of_hiddenBit_le hnormal.le
  have hdigits : 0 < Decimal.toNat (written.whole ++ written.fraction) := by
    have hpos := hnear.pos (Binary64.isParts hzero)
    have hcast := pos_of_mul_pos_left hpos (ShortestDecimal.ten_zpow_pos _).le
    exact_mod_cast hcast
  obtain ⟨a, b, hscaled, ha, hb, hquotient⟩ := Numeral.Reading.exists_scaled written.negative
    (written.whole ++ written.fraction).length hdigits hpower
  rw [← hquotient] at hnear
  obtain ⟨hrange, hvalue⟩ :=
    Numeral.Reading.toBinary64_of_isNear written.negative ha hb hfinite hnormal hnear
  rw [Numeral.real?, written.strip_text, written.readReal?_text, hscaled]
  simp only [hrange, Bool.false_eq_true, if_false, hvalue]

/-! ## Layouts of decimals -/

/-- Whether a plain numeral with a fraction or an exponent has given digits and a given power of ten
as its value, and a power of its own that is not much further from zero. -/
structure WrittenDecimal.Denotes (written : WrittenDecimal) (digits : Bytes) (e : Int) : Prop where
  value : (Decimal.toNat (written.whole ++ written.fraction) : ℚ) * 10 ^ written.power =
    Decimal.toNat digits * 10 ^ e
  power : written.power.natAbs ≤ e.natAbs + 1
  pointed : written.IsPointed

/-- A plain numeral of the same digits, but for zeros in front of them, and the same power. -/
theorem WrittenDecimal.Denotes.of_eq {written : WrittenDecimal} {digits : Bytes} (e : Int)
    (hdigits : Decimal.toNat (written.whole ++ written.fraction) = Decimal.toNat digits)
    (hpower : written.power = e) (hpointed : written.IsPointed) : Denotes written digits e where
  value := by rw [hdigits, hpower]
  power := by omega
  pointed := hpointed

namespace Json

/-- An exponent is written with its sign. -/
theorem exists_printExponent (e : Int) :
    ∃ exponent : WrittenExponent, exponent.text = printExponent e ∧ exponent.value = e := by
  have hzero : ∀ b ∈ (0x30 :: Decimal.ofNat e.natAbs), Byte.isDigit b = true :=
    List.forall_mem_cons.mpr ⟨rfl, fun b hb => Decimal.isDigit_of_mem_ofNat hb⟩
  obtain ⟨digits, hdigits, hnonempty, hdecimal, hvalue⟩ : ∃ digits : Bytes,
      (if (Decimal.ofNat e.natAbs).length < 2 then 0x30 :: Decimal.ofNat e.natAbs
        else Decimal.ofNat e.natAbs) = digits ∧ digits ≠ [] ∧
      (∀ b ∈ digits, Byte.isDigit b = true) ∧ Decimal.toNat digits = e.natAbs := by
    split
    · refine ⟨_, rfl, List.cons_ne_nil _ _, hzero, ?_⟩
      calc Decimal.toNat (0x30 :: Decimal.ofNat e.natAbs)
          = Decimal.toNat (Decimal.ofNat e.natAbs) := rfl
        _ = e.natAbs := Decimal.toNat_ofNat _
    · exact ⟨_, rfl, Decimal.ofNat_ne_nil _, fun b hb => Decimal.isDigit_of_mem_ofNat hb,
        Decimal.toNat_ofNat _⟩
  have hmark : (0x65 : UInt8) ∈ ascii "eE" := by decide
  rw [printExponent, hdigits]
  by_cases hnegative : e < 0
  · have hsign : [Byte.minus] ∈ [[], [Byte.plus], [Byte.minus]] := by decide
    refine ⟨⟨0x65, [Byte.minus], digits, hmark, hsign, hnonempty, hdecimal⟩, ?_, ?_⟩
    · rw [if_pos hnegative]
      rfl
    · rw [WrittenExponent.value, if_pos rfl, hvalue]
      omega
  · have hsign : [Byte.plus] ∈ [[], [Byte.plus], [Byte.minus]] := by decide
    have hother : [Byte.plus] ≠ [Byte.minus] := by decide
    refine ⟨⟨0x65, [Byte.plus], digits, hmark, hsign, hnonempty, hdecimal⟩, ?_, ?_⟩
    · rw [if_neg hnegative]
      rfl
    · rw [WrittenExponent.value, if_neg hother, hvalue]
      omega

section LayOut

variable (negative : Bool) {digits : Bytes} (hnonempty : digits ≠ [])
  (hdecimal : ∀ b ∈ digits, Byte.isDigit b = true) (e : Int)

/-- Zeros are digits. -/
theorem isDigit_of_mem_replicate (count : Nat) :
    ∀ b ∈ List.replicate count (0x30 : UInt8), Byte.isDigit b = true := by
  intro b hb
  rw [List.eq_of_mem_replicate hb]
  rfl

include hdecimal

/-- A point among the digits. -/
theorem exists_among (hlow : 0 < digits.length + e) (hhigh : e < 0) :
    ∃ written : WrittenDecimal, written.negative = negative ∧
      written.body = digits.take (digits.length + e).toNat ++
        Byte.dot :: digits.drop (digits.length + e).toNat ∧
      written.Denotes digits e := by
  set point := (digits.length + e).toNat with hpoint
  have hwhole : digits.take point ≠ [] := by
    intro hnil
    have hlength := congrArg List.length hnil
    rw [List.length_take, List.length_nil] at hlength
    omega
  have hfraction : digits.drop point ≠ [] := by
    intro hnil
    have hlength := congrArg List.length hnil
    rw [List.length_drop, List.length_nil] at hlength
    omega
  have hdigits : digits.take point ++ digits.drop point = digits := List.take_append_drop _ _
  refine ⟨⟨negative, digits.take point, digits.drop point, none, hwhole, by rwa [hdigits]⟩, rfl,
    ?_, .of_eq e (congrArg Decimal.toNat hdigits) ?_ (.inl hfraction)⟩
  · rw [WrittenDecimal.body, WrittenDecimal.fractionText, if_neg hfraction]
    exact congrArg _ (List.append_nil _)
  · show (0 : Int) - (digits.drop point).length = e
    rw [List.length_drop]
    omega

include hnonempty

/-- The digits, zeros, and a fraction of zero. -/
theorem exists_whole (he : 0 ≤ e) :
    ∃ written : WrittenDecimal, written.negative = negative ∧
      written.body = digits ++ List.replicate e.toNat 0x30 ++ ascii ".0" ∧
      written.Denotes digits e := by
  have hall : ∀ b ∈ digits ++ List.replicate e.toNat 0x30 ++ [0x30], Byte.isDigit b = true := by
    intro b hb
    simp only [List.mem_append, List.mem_singleton] at hb
    obtain (hb | hb) | rfl := hb
    · exact hdecimal b hb
    · exact isDigit_of_mem_replicate _ b hb
    · rfl
  refine ⟨⟨negative, digits ++ List.replicate e.toNat 0x30, [0x30], none,
    List.append_ne_nil_of_left_ne_nil hnonempty _, hall⟩, rfl, rfl, ?_, ?_,
    .inl (List.cons_ne_nil _ _)⟩
  · obtain ⟨k, rfl⟩ := Int.eq_ofNat_of_zero_le he
    have hpower : (10 : ℚ) ^ ((0 : Int) - (1 : Nat)) = 1 / 10 := by norm_num
    show (Decimal.toNat (digits ++ List.replicate k 0x30 ++ [0x30]) : ℚ) *
      10 ^ ((0 : Int) - (1 : Nat)) = _
    rw [Decimal.toNat_append_digit, Decimal.toNat_append, Decimal.toNat_replicate_zero,
      List.length_replicate, hpower, zpow_natCast]
    push_cast
    have hlast : Decimal.digitValue 0x30 = 0 := rfl
    rw [hlast]
    push_cast
    ring
  · show ((0 : Int) - (1 : Nat)).natAbs ≤ _
    omega

/-- Zeros between the point and the digits. -/
theorem exists_before (hpoint : digits.length + e ≤ 0) :
    ∃ written : WrittenDecimal, written.negative = negative ∧
      written.body = ascii "0." ++ List.replicate (-(digits.length + e)).toNat 0x30 ++ digits ∧
      written.Denotes digits e := by
  set count := (-(digits.length + e)).toNat with hcount
  have hfraction : List.replicate count 0x30 ++ digits ≠ [] :=
    List.append_ne_nil_of_right_ne_nil _ hnonempty
  have hall : ∀ b ∈ [0x30] ++ (List.replicate count 0x30 ++ digits), Byte.isDigit b = true := by
    intro b hb
    simp only [List.mem_append, List.mem_singleton] at hb
    obtain rfl | hb | hb := hb
    · rfl
    · exact isDigit_of_mem_replicate _ b hb
    · exact hdecimal b hb
  refine ⟨⟨negative, [0x30], List.replicate count 0x30 ++ digits, none, List.cons_ne_nil _ _, hall⟩,
    rfl, ?_, .of_eq e ?_ ?_ (.inl hfraction)⟩
  · rw [WrittenDecimal.body, WrittenDecimal.fractionText, if_neg hfraction]
    show [0x30] ++ (Byte.dot :: (List.replicate count 0x30 ++ digits) ++ []) = _
    rw [List.append_nil]
    rfl
  · show Decimal.toNat ([0x30] ++ (List.replicate count 0x30 ++ digits)) = _
    have hzero : Decimal.toNat [0x30] = 0 := rfl
    rw [Decimal.toNat_append, Decimal.toNat_append, Decimal.toNat_replicate_zero, hzero]
    omega
  · show (0 : Int) - (List.replicate count 0x30 ++ digits).length = e
    rw [List.length_append, List.length_replicate]
    omega

/-- A point after the first digit, and an exponent. -/
theorem exists_exponential :
    ∃ written : WrittenDecimal, written.negative = negative ∧
      written.body = digits.take 1 ++
        (if (digits.drop 1).isEmpty then [] else Byte.dot :: digits.drop 1) ++
          printExponent (digits.length + e - 1) ∧
      written.Denotes digits e := by
  obtain ⟨exponent, htext, hvalue⟩ := exists_printExponent (digits.length + e - 1)
  obtain ⟨first, rest, rfl⟩ := List.exists_cons_of_ne_nil hnonempty
  refine ⟨⟨negative, [first], rest, some exponent, List.cons_ne_nil _ _, hdecimal⟩, rfl, ?_,
    .of_eq e rfl ?_ (.inr rfl)⟩
  · rw [WrittenDecimal.body, WrittenDecimal.fractionText, ← htext]
    simp [WrittenDecimal.exponentText]
  · show exponent.value - rest.length = e
    rw [hvalue, List.length_cons]
    omega

/-- However digits are laid out, they are a plain numeral of the same value. -/
theorem exists_layOut :
    ∃ written : WrittenDecimal, written.negative = negative ∧
      written.body = layOut floatFormat digits (digits.length + e) ∧
      written.Denotes digits e := by
  have hsame : digits.length + e - digits.length = e := by omega
  rw [layOut]
  simp only [Bool.and_eq_true, decide_eq_true_eq, hsame]
  split
  · exact exists_whole negative hnonempty hdecimal e (by omega)
  · rename_i hwhole
    split
    · rename_i hamong
      exact exists_among negative hdecimal e hamong.1 (by omega)
    · rename_i hother
      split
      · rename_i hbefore
        exact exists_before negative hnonempty hdecimal e hbefore.2
      · exact exists_exponential negative hnonempty hdecimal e

end LayOut

/-! ## Texts of numbers -/

section

open Binary64 ShortestDecimal

variable {x : Binary64}

/-- The text of a finite number that is not zero is a plain numeral, whose value is near to it. -/
theorem exists_printShortest (hfinite : x.isFinite = true) (hzero : x.isZero = false) :
    ∃ written : WrittenDecimal, written.text = printShortest x ∧ written.negative = x.isNegative ∧
      IsNear x.significand x.exponent
        (Decimal.toNat (written.whole ++ written.fraction) * 10 ^ written.power) ∧
      written.power.natAbs ≤ 1100 ∧ written.IsPointed := by
  obtain ⟨hnear, hexponent⟩ := isNear_ofNumber hfinite hzero
  obtain ⟨written, hnegative, hbody, hvalue, hpower, hpointed⟩ := exists_layOut x.isNegative
    (Decimal.ofNat_ne_nil (ofNumber x).digits) (fun b hb => Decimal.isDigit_of_mem_ofNat hb)
    (ofNumber x).exponent
  rw [Decimal.toNat_ofNat] at hvalue
  refine ⟨written, ?_, hnegative, ?_, by omega, hpointed⟩
  · rw [WrittenDecimal.text, hnegative, hbody, printShortest, hfinite, hzero]
    rfl
  · rw [hvalue]
    exact hnear

/-- The text of a normal number is read as the number. -/
theorem real?_printShortest (hfinite : x.isFinite = true) (hnormal : hiddenBit ≤ x.magnitude) :
    Numeral.real? (printShortest x) = some x := by
  obtain hleast | hless := Nat.eq_or_lt_of_le hnormal
  · -- The decimal of the least normal number lies above the number.
    have hread : ∀ negative, Numeral.real? (printShortest (ofMagnitude negative hiddenBit)) =
        some (ofMagnitude negative hiddenBit) := by
      decide +kernel
    rw [← ofMagnitude_eta x, ← hleast]
    exact hread _
  · have hzero := isZero_of_hiddenBit_le hnormal
    obtain ⟨written, htext, hnegative, hnear, hpower, -⟩ := exists_printShortest hfinite hzero
    rw [← htext, written.real?_text_of_isNear hfinite hless hpower hnear, hnegative,
      ofMagnitude_eta]

end

end Json

end Stencil
