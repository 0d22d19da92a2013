import Stencil.Bytes.Basic

/-!
# Decimal texts of integers

Writing natural numbers and integers in decimal without leading zeros, and reading runs of digits.
The main statement: a written natural number reads back.
-/

set_option autoImplicit false

namespace Stencil

namespace Decimal

/-- The digits of a natural number, without leading zeros. -/
def ofNat (n : Nat) : Bytes :=
  if n < 10 then [Byte.ofDigit n] else ofNat (n / 10) ++ [Byte.ofDigit (n % 10)]

/-- The digits of an integer after a minus sign when it is negative. -/
def ofInt : Int → Bytes
  | .ofNat n => ofNat n
  | .negSucc n => Byte.minus :: ofNat (n + 1)

/-- The value of a decimal digit. -/
def digitValue (b : UInt8) : Nat := b.toNat - 0x30

/-- The number that a run of digits denotes; zero for the empty run. -/
def toNat (digits : Bytes) : Nat := digits.foldl (fun n b => 10 * n + digitValue b) 0

/-- The digit of a value below ten has that value. -/
theorem digitValue_ofDigit {n : Nat} (h : n < 10) : digitValue (Byte.ofDigit n) = n := by
  have hsmall : 48 + n < 256 := by omega
  simp [digitValue, Byte.ofDigit, Nat.mod_eq_of_lt hsmall]

/-- Appending a digit multiplies by ten and adds the digit. -/
theorem toNat_append_digit (digits : Bytes) (b : UInt8) :
    toNat (digits ++ [b]) = 10 * toNat digits + digitValue b := by
  simp [toNat, List.foldl_append]

/-- Reading the digits of a natural number gives the number. -/
theorem toNat_ofNat (n : Nat) : toNat (ofNat n) = n := by
  induction n using Nat.strongRecOn with
  | ind n ih =>
    rw [ofNat]
    split
    · rename_i hsmall
      simp [toNat, digitValue_ofDigit hsmall]
    · rename_i hlarge
      rw [toNat_append_digit, ih (n / 10) (by omega), digitValue_ofDigit (Nat.mod_lt _ (by decide))]
      omega

end Decimal

end Stencil
