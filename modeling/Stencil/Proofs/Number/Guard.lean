import Stencil.Number.Word

/-!
# Guarding a sum of words

Whether a sum of two words is a word can be decided in words: the first operand is compared with the
greatest word less a positive second operand, or with the least word less a negative one. Neither
difference leaves the words, so the guard decides exactly (`Word.overflows_iff`), and a sum that it
lets pass does not wrap (`Word.add?_eq_guarded`). The one word whose opposite is no word is the
least (`Word.toInt_neg_iff`).
-/

set_option autoImplicit false

namespace Stencil

namespace Word

/-- The guard of a sum, in words: the differences wrap, the comparisons are of words. -/
def overflows (a b : Int64) : Bool :=
  (decide (0 < b) && decide (Int64.maxValue - b < a)) ||
    (decide (b < 0) && decide (a < Int64.minValue - b))

/-- No computation of the guarded sum of two words leaves the words: neither a difference that the
guard forms, nor the sum when the guard lets it pass. -/
structure SumIsExact (a b : Int64) : Prop where
  above : 0 < b → (Int64.maxValue - b).toInt = Int64.maxValue.toInt - b.toInt
  below : b < 0 → (Int64.minValue - b).toInt = Int64.minValue.toInt - b.toInt
  sum : overflows a b = false → (a + b).toInt = a.toInt + b.toInt

/-- A difference of words in range is exact. -/
theorem toInt_sub_of_fits {a b : Int64} (h : fits (a.toInt - b.toInt) = true) :
    (a - b).toInt = a.toInt - b.toInt := by
  simp only [fits, Bool.and_eq_true, decide_eq_true_eq] at h
  rw [Int64.toInt_sub]
  exact Int.bmod_eq_of_le (by omega) (by omega)

/-- What is left above a positive word is exact. -/
theorem toInt_maxValue_sub {b : Int64} (hb : 0 < b) :
    (Int64.maxValue - b).toInt = Int64.maxValue.toInt - b.toInt := by
  have hpos : 0 < b.toInt := Int64.lt_iff_toInt_lt.mp hb
  have hhigh := b.toInt_lt
  refine toInt_sub_of_fits ?_
  simp only [fits, Int64.toInt_maxValue, Bool.and_eq_true, decide_eq_true_eq]
  omega

/-- What is left below a negative word is exact. -/
theorem toInt_minValue_sub {b : Int64} (hb : b < 0) :
    (Int64.minValue - b).toInt = Int64.minValue.toInt - b.toInt := by
  have hneg : b.toInt < 0 := Int64.lt_iff_toInt_lt.mp hb
  have hlow := b.le_toInt
  refine toInt_sub_of_fits ?_
  simp only [fits, Int64.toInt_minValue, Bool.and_eq_true, decide_eq_true_eq]
  omega

/-- The upper half of the guard asks whether the sum is above all words. -/
theorem maxValue_sub_lt_iff {a b : Int64} (hb : 0 < b) :
    Int64.maxValue - b < a ↔ Int64.maxValue.toInt < a.toInt + b.toInt := by
  rw [Int64.lt_iff_toInt_lt, toInt_maxValue_sub hb]
  omega

/-- The lower half of the guard asks whether the sum is below all words. -/
theorem lt_minValue_sub_iff {a b : Int64} (hb : b < 0) :
    a < Int64.minValue - b ↔ a.toInt + b.toInt < Int64.minValue.toInt := by
  rw [Int64.lt_iff_toInt_lt, toInt_minValue_sub hb]
  omega

/-- The guard holds back exactly the sums that are no words. A sum of two words leaves them upwards
only when the second is positive, and downwards only when it is negative. -/
theorem overflows_iff (a b : Int64) :
    overflows a b = true ↔ fits (a.toInt + b.toInt) = false := by
  have hlow := a.le_toInt
  have hhigh := a.toInt_lt
  have habove : 0 < b ∧ Int64.maxValue - b < a ↔ Int64.maxValue.toInt < a.toInt + b.toInt := by
    constructor
    · rintro ⟨hb, hless⟩
      exact (maxValue_sub_lt_iff hb).mp hless
    · intro hless
      have hb : 0 < b := by
        rw [Int64.toInt_maxValue] at hless
        exact Int64.lt_iff_toInt_lt.mpr (by rw [Int64.toInt_zero]; omega)
      exact ⟨hb, (maxValue_sub_lt_iff hb).mpr hless⟩
  have hbelow : b < 0 ∧ a < Int64.minValue - b ↔ a.toInt + b.toInt < Int64.minValue.toInt := by
    constructor
    · rintro ⟨hb, hless⟩
      exact (lt_minValue_sub_iff hb).mp hless
    · intro hless
      have hb : b < 0 := by
        rw [Int64.toInt_minValue] at hless
        exact Int64.lt_iff_toInt_lt.mpr (by rw [Int64.toInt_zero]; omega)
      exact ⟨hb, (lt_minValue_sub_iff hb).mpr hless⟩
  simp only [overflows, Bool.or_eq_true, Bool.and_eq_true, decide_eq_true_eq, habove, hbelow]
  simp only [fits, Bool.and_eq_false_iff, decide_eq_false_iff_not, Int64.toInt_minValue,
    Int64.toInt_maxValue]
  omega

/-- Nothing is computed inexactly on the way to a sum that passes the guard. -/
theorem sumIsExact (a b : Int64) : SumIsExact a b where
  above := toInt_maxValue_sub
  below := toInt_minValue_sub
  sum := by
    intro hpasses
    have hfits : fits (a.toInt + b.toInt) = true :=
      Bool.of_not_eq_false fun hnot => Bool.false_ne_true
        (hpasses.symm.trans ((overflows_iff a b).mpr hnot))
    simp only [fits, Bool.and_eq_true, decide_eq_true_eq] at hfits
    rw [Int64.toInt_add]
    exact Int.bmod_eq_of_le (by omega) (by omega)

/-- The checked sum is the wrapping sum behind the guard. -/
theorem add?_eq_guarded (a b : Int64) :
    add? a b = if overflows a b then none else some (a + b) := by
  cases hguard : overflows a b with
  | true =>
    rw [if_pos rfl, add?, ofInt?, (overflows_iff a b).mp hguard]
    rfl
  | false =>
    rw [if_neg (by decide)]
    exact add?_eq_some_iff.mpr ((sumIsExact a b).sum hguard)

/-- The opposite of a word is exact, but for the least word, whose opposite is no word. -/
theorem toInt_neg_iff {b : Int64} : (-b).toInt = -b.toInt ↔ b ≠ Int64.minValue := by
  constructor
  · rintro hexact rfl
    exact absurd hexact (by decide)
  · intro hleast
    have hlow := b.le_toInt
    have hhigh := b.toInt_lt
    have hne : b.toInt ≠ -2 ^ 63 := fun heq => hleast (Int64.toInt_inj.mp heq)
    rw [Int64.toInt_neg]
    exact Int.bmod_eq_of_le (by omega) (by omega)

end Word

end Stencil
