/-!
# Signed 64-bit integers

Counters, amounts and steps are signed 64-bit words. This file says which integers are such words,
and adds words without wrapping. The main statement: a sum of words is a word exactly when the sum
of their integers is in range, and then it denotes that sum.
-/

set_option autoImplicit false

namespace Stencil

namespace Word

/-- Whether an integer lies between the least and the greatest signed 64-bit integer. -/
def fits (n : Int) : Bool := -0x8000000000000000 ≤ n && n ≤ 0x7fffffffffffffff

/-- The word that denotes an integer, when it is in range. -/
def ofInt? (n : Int) : Option Int64 := if fits n then some (Int64.ofInt n) else none

/-- The sum of two words, when it is in range. -/
def add? (a b : Int64) : Option Int64 := ofInt? (a.toInt + b.toInt)

/-- The word of an integer in range denotes that integer. -/
theorem toInt_ofInt_of_fits {n : Int} (h : fits n = true) : (Int64.ofInt n).toInt = n := by
  simp only [fits, Bool.and_eq_true, decide_eq_true_eq] at h
  exact Int64.toInt_ofInt_of_le (by omega) (by omega)

/-- What a word denotes is in range. -/
theorem fits_toInt (a : Int64) : fits a.toInt = true := by
  have hlow := a.le_toInt
  have hhigh := a.toInt_lt
  simp only [fits, Bool.and_eq_true, decide_eq_true_eq]
  omega

/-- An integer has a word exactly when it is in range, and the word denotes it. -/
theorem ofInt?_eq_some_iff {n : Int} {a : Int64} : ofInt? n = some a ↔ a.toInt = n := by
  unfold ofInt?
  split
  · rename_i h
    constructor
    · intro heq
      cases heq
      exact toInt_ofInt_of_fits h
    · intro heq
      rw [← heq, Int64.ofInt_toInt]
  · rename_i h
    constructor
    · intro heq
      cases heq
    · intro heq
      exact absurd (heq ▸ fits_toInt a) h

/-- A sum of words denotes the sum of their integers. -/
theorem add?_eq_some_iff {a b c : Int64} :
    add? a b = some c ↔ c.toInt = a.toInt + b.toInt :=
  ofInt?_eq_some_iff

end Word

end Stencil
