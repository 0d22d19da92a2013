import Stencil.Inspector
import Stencil.Json.Strict
import Stencil.Proofs.Number.Written

/-!
# Comparing integers with written ones

A comparison of an integer with a written one is that of the two integers when both are words. When
one of them is not, it is that of the floating point numbers nearest to them
(`Inspector.compare_written`), which says the same of two integers unless they share their nearest
number. The first integer that is no word does share it with the last one that is
(`Inspector.compare_written_ne`). An integer beyond all finite numbers is still told from one of 64
bits.
-/

set_option autoImplicit false

namespace Stencil

namespace Operator

variable (op : Operator)

/-- A comparison of two integers depends on their order alone. -/
theorem holdsInt_congr {a b c d : Int} (hless : a < b ↔ c < d) (hgreater : b < a ↔ d < c) :
    op.holdsInt a b = op.holdsInt c d := by
  have hsame : (a == b) = (c == d) := by
    rw [Bool.eq_iff_iff, beq_iff_eq, beq_iff_eq]
    omega
  simp only [holdsInt, hsame, hless, hgreater]

/-- A comparison of two numbers is that of their places in the order. -/
theorem holdsReal_eq_holdsInt_key {x y : Binary64} (hx : x.isNaN = false) (hy : y.isNaN = false) :
    op.holdsReal x y = op.holdsInt x.key y.key := by
  simp [holdsReal, holdsInt, Binary64.eq, Binary64.lt, hx, hy]

/-- Two integers with nearest numbers of their own are in the order of these. -/
theorem holdsReal_ofInt_of_key_ne {a b : Int}
    (h : a = b ∨ (Binary64.ofInt a).key ≠ (Binary64.ofInt b).key) :
    op.holdsReal (Binary64.ofInt a) (Binary64.ofInt b) = op.holdsInt a b := by
  rw [holdsReal_eq_holdsInt_key op (Binary64.isNaN_ofInt a) (Binary64.isNaN_ofInt b)]
  obtain rfl | hkey := h
  · exact op.holdsInt_congr (by simp) (by simp)
  · have horder : a ≤ b → (Binary64.ofInt a).key ≤ (Binary64.ofInt b).key :=
      Binary64.key_ofInt_mono
    have horder' : b ≤ a → (Binary64.ofInt b).key ≤ (Binary64.ofInt a).key :=
      Binary64.key_ofInt_mono
    exact op.holdsInt_congr (by omega) (by omega)

end Operator

namespace Inspector

section Written

variable [JsonLibrary] (v : Int) (op : Operator) (written : WrittenInteger)

/-- Two words are compared as the integers that they are. -/
theorem compare_written_of_fits (hv : Word.fits v = true) (hn : Word.fits written.value = true) :
    scalar.compare (.int v) op written.text = .ok (op.holdsInt v written.value) := by
  have hword : Word.ofInt? v = some (Int64.ofInt v) := if_pos hv
  have hword' : Numeral.word? written.text = some (Int64.ofInt written.value) := by
    rw [written.word?_text]
    exact if_pos hn
  show Failure.ofJson (Json.compareScalar (.int v) op written.text) = _
  rw [Json.compareScalar]
  simp only [hword, hword', Word.toInt_ofInt_of_fits hv, Word.toInt_ofInt_of_fits hn]
  rfl

/-- Unless both are words, the two are compared as numbers, or as texts. -/
theorem compare_written_eq_compareNumber
    (hfits : ¬ (Word.fits v = true ∧ Word.fits written.value = true)) :
    scalar.compare (.int v) op written.text =
      .ok (Json.compareNumber (Binary64.ofInt v) (Decimal.ofInt v) op written.text) := by
  show Failure.ofJson (Json.compareScalar (.int v) op written.text) = _
  rw [Json.compareScalar, written.word?_text]
  split
  · rename_i hleft hright
    refine absurd ⟨?_, ?_⟩ hfits
    · rw [← Word.ofInt?_eq_some_iff.mp hleft]
      exact Word.fits_toInt _
    · rw [← Word.ofInt?_eq_some_iff.mp hright]
      exact Word.fits_toInt _
  · rfl

/-- Unless both are words, the nearest numbers are compared, if that of the written integer is
finite. -/
theorem compare_written_of_isFinite
    (hfits : ¬ (Word.fits v = true ∧ Word.fits written.value = true))
    (hfinite : (Binary64.ofInt written.value).isFinite = true) :
    scalar.compare (.int v) op written.text =
      .ok (op.holdsReal (Binary64.ofInt v) (Binary64.ofInt written.value)) := by
  obtain ⟨x, hx, hnumber, hkey⟩ := written.exists_real?_text hfinite
  have hholds : op.holdsReal (Binary64.ofInt v) x =
      op.holdsReal (Binary64.ofInt v) (Binary64.ofInt written.value) := by
    rw [op.holdsReal_eq_holdsInt_key (Binary64.isNaN_ofInt v) hnumber, hkey,
      op.holdsReal_eq_holdsInt_key (Binary64.isNaN_ofInt v) (Binary64.isNaN_ofInt written.value)]
  rw [compare_written_eq_compareNumber v op written hfits, Json.compareNumber, hx]
  exact congrArg Except.ok hholds

/-- Beyond the finite numbers the texts are compared, which tells different integers apart. -/
theorem compare_written_of_not_isFinite (hop : op = .equal ∨ op = .notEqual)
    (hv : (Binary64.ofInt v).isFinite = true)
    (hfits : ¬ (Word.fits v = true ∧ Word.fits written.value = true))
    (hinfinite : ¬ (Binary64.ofInt written.value).isFinite = true) :
    scalar.compare (.int v) op written.text = .ok (op.holdsInt v written.value) := by
  have hne : v ≠ written.value := fun hsame => hinfinite (hsame ▸ hv)
  have htexts : Decimal.ofInt v ≠ written.text := fun hsame =>
    hne (written.eq_value_of_ofInt_eq_text hsame)
  have hreal : Numeral.real? written.text = none := written.real?_text.trans (if_neg hinfinite)
  have hholds : op.holdsText (Decimal.ofInt v) written.text = op.holdsInt v written.value := by
    obtain rfl | rfl := hop
    · simp [Operator.holdsText, Operator.holdsInt, Operator.holds, hne, htexts]
    · simp [Operator.holdsText, Operator.holdsInt, Operator.holds, hne, htexts]
  rw [compare_written_eq_compareNumber v op written hfits, Json.compareNumber, hreal]
  exact congrArg Except.ok hholds

end Written

/-- An integer is compared with a written one exactly when both are words. Otherwise the numbers
nearest to the two are compared, so long as that of the written one is finite, and this is exact for
equal integers and for integers that do not share their nearest number. A written integer beyond the
finite numbers is told from every integer of 64 bits, signed or unsigned, but not put in order with
it. -/
theorem compare_written [JsonLibrary] (v : Int) (op : Operator) (written : WrittenInteger) :
    (Word.fits v = true ∧ Word.fits written.value = true →
      scalar.compare (.int v) op written.text = .ok (op.holdsInt v written.value)) ∧
    (¬ (Word.fits v = true ∧ Word.fits written.value = true) →
      ((Binary64.ofInt written.value).isFinite = true →
        scalar.compare (.int v) op written.text =
            .ok (op.holdsReal (Binary64.ofInt v) (Binary64.ofInt written.value)) ∧
          (v = written.value ∨ (Binary64.ofInt v).key ≠ (Binary64.ofInt written.value).key →
            scalar.compare (.int v) op written.text = .ok (op.holdsInt v written.value))) ∧
      (-0x8000000000000000 ≤ v ∧ v ≤ 0xffffffffffffffff →
        ¬ (Binary64.ofInt written.value).isFinite = true → op = .equal ∨ op = .notEqual →
        scalar.compare (.int v) op written.text = .ok (op.holdsInt v written.value))) := by
  refine ⟨fun hfits => compare_written_of_fits v op written hfits.1 hfits.2,
    fun hfits => ⟨fun hfinite => ?_, fun hrange hinfinite hop => ?_⟩⟩
  · have hcompare := compare_written_of_isFinite v op written hfits hfinite
    refine ⟨hcompare, fun hkey => ?_⟩
    rw [hcompare, op.holdsReal_ofInt_of_key_ne hkey]
  · have hv : (Binary64.ofInt v).isFinite = true := Binary64.isFinite_ofInt (by omega)
    exact compare_written_of_not_isFinite v op written hop hv hfits hinfinite

open scoped JsonLibrary.Strict

/-- A comparison of two words, one of the greatest unsigned integer with a word, and one with an
integer beyond all finite numbers. -/
theorem compare_written_greatest :
    let seven : WrittenInteger := ⟨true, ascii "007", by decide, List.all_eq_true.mp rfl⟩
    let five : WrittenInteger := ⟨false, ascii "5", by decide, List.all_eq_true.mp rfl⟩
    let huge : WrittenInteger :=
      ⟨false, Byte.ofDigit 1 :: List.replicate 309 (Byte.ofDigit 0), List.cons_ne_nil _ _,
        List.forall_mem_cons.mpr ⟨rfl, fun b hb => by rw [List.eq_of_mem_replicate hb]; rfl⟩⟩
    let greatest : Int := 0xffffffffffffffff
    (Word.fits (-7) = true ∧ Word.fits seven.value = true) ∧
      scalar.compare (.int (-7)) .equal seven.text = .ok true ∧
      ¬ (Word.fits greatest = true ∧ Word.fits five.value = true) ∧
      (Binary64.ofInt five.value).isFinite = true ∧
      (Binary64.ofInt greatest).key ≠ (Binary64.ofInt five.value).key ∧
      scalar.compare (.int greatest) .greater five.text = .ok true ∧
      ¬ (Word.fits greatest = true ∧ Word.fits huge.value = true) ∧
      (-0x8000000000000000 ≤ greatest ∧ greatest ≤ 0xffffffffffffffff) ∧
      ¬ (Binary64.ofInt huge.value).isFinite = true ∧
      scalar.compare (.int greatest) .notEqual huge.text = .ok true := by
  intro seven five huge greatest
  have hfits : Word.fits (-7) = true ∧ Word.fits seven.value = true := by decide
  have hlarge : ¬ (Word.fits greatest = true ∧ Word.fits five.value = true) := by decide
  have hfinite : (Binary64.ofInt five.value).isFinite = true := by decide
  have hkey : (Binary64.ofInt greatest).key ≠ (Binary64.ofInt five.value).key := by decide
  have hequal : Operator.equal.holdsInt (-7) seven.value = true := by decide
  have hgreater : Operator.greater.holdsInt greatest five.value = true := by decide
  have hbeyond : ¬ (Word.fits greatest = true ∧ Word.fits huge.value = true) := by decide
  have hgreatest : -0x8000000000000000 ≤ greatest ∧ greatest ≤ 0xffffffffffffffff := by decide
  have hinfinite : ¬ (Binary64.ofInt huge.value).isFinite = true := by decide +kernel
  have hother : Operator.notEqual.holdsInt greatest huge.value = true := by decide +kernel
  refine ⟨hfits, ?_, hlarge, hfinite, hkey, ?_, hbeyond, hgreatest, hinfinite, ?_⟩
  · rw [(compare_written (-7) .equal seven).1 hfits, hequal]
  · rw [(((compare_written greatest .greater five).2 hlarge).1 hfinite).2 (.inr hkey), hgreater]
  · rw [((compare_written greatest .notEqual huge).2 hbeyond).2 hgreatest hinfinite (.inr rfl),
      hother]

/-- The greatest word equals the integer after it. -/
theorem compare_written_ne :
    let next : WrittenInteger :=
      ⟨false, ascii "9223372036854775808", by decide, List.all_eq_true.mp rfl⟩
    let greatest : Int := 0x7fffffffffffffff
    next.value = greatest + 1 ∧ scalar.compare (.int greatest) .equal next.text = .ok true ∧
      scalar.compare (.int greatest) .equal next.text ≠
        .ok (Operator.equal.holdsInt greatest next.value) := by
  intro next greatest
  have hlarge : ¬ (Word.fits greatest = true ∧ Word.fits next.value = true) := by decide
  have hfinite : (Binary64.ofInt next.value).isFinite = true := by decide
  have hshared : Operator.equal.holdsReal (Binary64.ofInt greatest) (Binary64.ofInt next.value) =
      true := by decide
  have hcompare : scalar.compare (.int greatest) .equal next.text = .ok true := by
    rw [compare_written_of_isFinite greatest .equal next hlarge hfinite, hshared]
  have hexact : Operator.equal.holdsInt greatest next.value = false := by decide
  refine ⟨by decide, hcompare, ?_⟩
  rw [hcompare, hexact]
  intro hsame
  cases hsame

end Inspector

end Stencil
