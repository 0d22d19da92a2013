import Stencil.Number.Numeral
import Stencil.Proofs.Bytes.Passing
import Stencil.Proofs.Number.Rounding

/-!
# Integers in writing

An optional minus sign followed by digits, as many as there are and with leading zeros or without,
is read as the integer it denotes: as a word when the integer is one (`WrittenInteger.word?_text`),
and as the floating point number nearest to the integer when that number is finite
(`WrittenInteger.real?_text`).
-/

set_option autoImplicit false

namespace Stencil

/-! ## Digits -/

namespace Byte

/-- Every digit is that of a value below ten. -/
theorem exists_ofDigit_of_isDigit {b : UInt8} (h : isDigit b = true) : ∃ n < 10, b = ofDigit n := by
  obtain ⟨hlow, hhigh⟩ : 0x30 ≤ b ∧ b ≤ 0x39 := by simpa [isDigit] using h
  have hlow' : 0x30 ≤ b.toNat := UInt8.le_iff_toNat_le.mp hlow
  have hhigh' : b.toNat ≤ 0x39 := UInt8.le_iff_toNat_le.mp hhigh
  refine ⟨b.toNat - 0x30, by omega, ?_⟩
  rw [ofDigit, Nat.add_sub_cancel' hlow']
  simp

/-- What holds of the ten digits holds of every byte that is one. -/
theorem forall_of_isDigit (property : UInt8 → Prop) (h : ∀ n < 10, property (ofDigit n)) {b : UInt8}
    (hb : isDigit b = true) : property b := by
  obtain ⟨n, hn, rfl⟩ := exists_ofDigit_of_isDigit hb
  exact h n hn

end Byte

/-- The digits of a natural number are decimal. -/
theorem Decimal.isDigit_of_mem_ofNat {n : Nat} {b : UInt8} (h : b ∈ ofNat n) :
    Byte.isDigit b = true := by
  have hdigit : ∀ n < 10, Byte.isDigit (Byte.ofDigit n) = true := by decide
  induction n using Nat.strongRecOn with
  | ind n ih =>
    rw [ofNat] at h
    split at h
    · rename_i hsmall
      rw [List.mem_singleton.mp h]
      exact hdigit n hsmall
    · obtain hleading | hlast := List.mem_append.mp h
      · exact ih (n / 10) (by omega) hleading
      · rw [List.mem_singleton.mp hlast]
        exact hdigit (n % 10) (Nat.mod_lt _ (by decide))

namespace Numeral

variable {digits : Bytes}

/-- Digits are read to their end. -/
theorem readWhile_of_decimal (hdecimal : ∀ b ∈ digits, Byte.isDigit b = true) :
    Bytes.readWhile Byte.isDigit digits = (digits, []) := by
  have hread := Bytes.readWhile_append [] hdecimal (by simp)
  rwa [List.append_nil] at hread

/-- Digits are read up to what is none. -/
theorem readDigits?_append {rest : Bytes} (hnonempty : digits ≠ [])
    (hdecimal : ∀ b ∈ digits, Byte.isDigit b = true)
    (hrest : ∀ b, rest.head? = some b → Byte.isDigit b = false) :
    readDigits? (digits ++ rest) = some (digits, rest) := by
  rw [readDigits?, Bytes.readWhile_append rest hdecimal hrest]
  exact if_neg (by simpa using hnonempty)

/-- Digits without anything behind them are read to their end. -/
theorem readDigits?_of_decimal (hnonempty : digits ≠ [])
    (hdecimal : ∀ b ∈ digits, Byte.isDigit b = true) : readDigits? digits = some (digits, []) := by
  have hread := @readDigits?_append digits [] hnonempty hdecimal (by simp)
  rwa [List.append_nil] at hread

/-- Digits are read as the natural number that they denote. -/
theorem readDecimal?_of_decimal (negative : Bool) (hnonempty : digits ≠ [])
    (hdecimal : ∀ b ∈ digits, Byte.isDigit b = true) :
    readDecimal? negative digits =
      some (Reading.scaled negative .decimal (Decimal.toNat digits) 0 digits.length, []) := by
  simp [readDecimal?, readPointed?, readWhile_of_decimal hdecimal, hnonempty, readExponent]

/-- A text begins with no word in which a byte is that is a letter of none of its bytes. -/
theorem dropWord?_eq_none {word s : Bytes} (h : ∃ b ∈ word, ∀ c ∈ s, Byte.toLower c ≠ b) :
    dropWord? word s = none := by
  have hprefix : word.isPrefixOf (s.map Byte.toLower) = false := by
    obtain ⟨b, hb, hother⟩ := h
    rw [Bool.eq_false_iff]
    intro hstarts
    have hmem := (List.isPrefixOf_iff_prefix.mp hstarts).subset hb
    obtain ⟨c, hc, hlower⟩ := List.mem_map.mp hmem
    exact hother c hc hlower
  rw [dropWord?, hprefix]
  rfl

/-- A text without the letters of the words for infinities, for no number and for the base sixteen
is read as a decimal numeral behind its sign. -/
theorem readReal?_eq_readDecimal? {s body : Bytes} {negative : Bool}
    (hsign : readSign (Bytes.skipBlanks s) = (negative, body))
    (hletter : ∀ b ∈ ascii "nx", ∀ c ∈ body, Byte.toLower c ≠ b) :
    readReal? s = readDecimal? negative body := by
  have hn := hletter 0x6e (by decide)
  have hx := hletter 0x78 (by decide)
  have hinfinity : dropWord? (ascii "infinity") body = none := dropWord?_eq_none ⟨_, by decide, hn⟩
  have hinf : dropWord? (ascii "inf") body = none := dropWord?_eq_none ⟨_, by decide, hn⟩
  have hnan : dropWord? (ascii "nan") body = none := dropWord?_eq_none ⟨_, by decide, hn⟩
  have hhexadecimal : dropWord? (ascii "0x") body = none := dropWord?_eq_none ⟨_, by decide, hx⟩
  rw [readReal?, hsign]
  simp only [hinfinity, hinf, hnan, hhexadecimal, Option.bind_eq_bind, Option.bind_none]

/-! ## Signs in writing -/

section Signed

variable {body : Bytes} (hbody : ∃ first rest, body = first :: rest ∧ Byte.isDigit first = true)
  (negative : Bool)
include hbody

/-- An optional minus sign and digits begin with the sign or a digit. -/
theorem exists_signed_eq_cons :
    ∃ first rest, (if negative then Byte.minus :: body else body) = first :: rest ∧
      (first = Byte.minus ∨ Byte.isDigit first = true) := by
  split
  · exact ⟨_, _, rfl, .inl rfl⟩
  · obtain ⟨first, rest, hcons, hfirst⟩ := hbody
    exact ⟨first, rest, hcons, .inr hfirst⟩

/-- What begins with a sign or a digit is no quoted literal. -/
theorem decode?_signed :
    Quoted.decode? (if negative then Byte.minus :: body else body) = none := by
  obtain ⟨first, rest, htext, hfirst⟩ := exists_signed_eq_cons hbody negative
  have hquote : first ≠ Byte.doubleQuote ∧ first ≠ Byte.apostrophe := by
    obtain rfl | hdigit := hfirst
    · decide
    · exact Byte.forall_of_isDigit (fun b => b ≠ Byte.doubleQuote ∧ b ≠ Byte.apostrophe)
        (by decide) hdigit
  rw [htext]
  exact Quoted.decode?_cons_eq_none hquote rest

/-- An optional minus sign is read off what follows it. -/
theorem readSign_signed :
    readSign (Bytes.skipBlanks (if negative then Byte.minus :: body else body)) =
      (negative, body) := by
  have hblank : Bytes.skipBlanks (if negative then Byte.minus :: body else body) =
      if negative then Byte.minus :: body else body := by
    obtain ⟨first, rest, htext, hfirst⟩ := exists_signed_eq_cons hbody negative
    have hnot : Byte.isBlank first = false := by
      obtain rfl | hdigit := hfirst
      · rfl
      · exact Byte.forall_of_isDigit (fun b => Byte.isBlank b = false) (by decide) hdigit
    rw [Bytes.skipBlanks, htext, List.dropWhile_cons_of_neg (by simp [hnot])]
  rw [hblank]
  cases negative with
  | true => rfl
  | false =>
    obtain ⟨first, rest, rfl, hfirst⟩ := hbody
    have hsign : first ≠ Byte.minus ∧ first ≠ Byte.plus :=
      Byte.forall_of_isDigit (fun b => b ≠ Byte.minus ∧ b ≠ Byte.plus) (by decide) hfirst
    simp [readSign, hsign]

end Signed

end Numeral

/-! ## Naturals as floating point numbers -/

namespace Numeral

variable (negative : Bool) (n : Nat)

/-- Without a power of ten a scaled reading is a quotient by one. -/
theorem Reading.scaled_zero (count : Nat) :
    scaled negative .decimal n 0 count = .ratio negative .decimal n 1 := by
  unfold scaled
  split
  · simp_all
  · simp

/-- A natural keeps all its digits before it is rounded. -/
theorem keptQuotient_one (hn : n ≠ 0) : keptQuotient .decimal n 1 = (n, 1) := by
  have hplace : Base.losesLastDigit .decimal (Binary64.unitExponent n 1) = false := by
    rw [Binary64.unitExponent_one hn, Base.losesLastDigit]
    simp only [beq_eq_false_iff_ne, ne_eq]
    omega
  rw [keptQuotient]
  simp [hplace]

/-- A natural number is read as its nearest number, with the sign that was written. -/
theorem Reading.toBinary64_natural :
    (Reading.ratio negative .decimal n 1).toBinary64 =
      Binary64.ofMagnitude negative (Binary64.rank n) := by
  rw [toBinary64, Binary64.rank]
  by_cases hn : n = 0
  · simp [hn, Binary64.zero]
  · simp [hn, keptQuotient_one n hn, Binary64.ofRatio]

/-- A natural is out of the range when the number nearest to it is infinite. -/
theorem Reading.isOutOfRange_natural :
    (Reading.ratio negative .decimal n 1).isOutOfRange =
      (Binary64.rank n == Binary64.infinityMagnitude) := by
  have hunderflows : (n != 0 && underflows .decimal n 1) = false := by
    by_cases hn : n = 0
    · simp [hn]
    · have hplace : ¬ Binary64.unitExponent n 1 < -1074 := by
        rw [Binary64.unitExponent_one hn]
        omega
      simp [underflows, hplace]
  rw [isOutOfRange, hunderflows, Bool.or_false, toBinary64_natural, Binary64.isInfinite,
    Binary64.magnitude_ofMagnitude (Binary64.rank_lt_signBit n)]

end Numeral

/-! ## Written integers -/

/-- The writing of an integer: an optional minus sign and digits. -/
structure WrittenInteger where
  negative : Bool
  digits : Bytes
  nonempty : digits ≠ []
  decimal : ∀ b ∈ digits, Byte.isDigit b = true

namespace WrittenInteger

variable (written : WrittenInteger)

/-- An integer as it is written. -/
def text : Bytes := if written.negative then Byte.minus :: written.digits else written.digits

/-- The integer that is written. -/
def value : Int :=
  if written.negative then -(Decimal.toNat written.digits : Int) else Decimal.toNat written.digits

/-- The digits denote the absolute value. -/
theorem natAbs_value : written.value.natAbs = Decimal.toNat written.digits := by
  rw [value]
  split <;> simp

/-- A written integer has a first digit. -/
theorem exists_digits_eq_cons :
    ∃ first rest, written.digits = first :: rest ∧ Byte.isDigit first = true := by
  obtain ⟨first, rest, hdigits⟩ := List.exists_cons_of_ne_nil written.nonempty
  exact ⟨first, rest, hdigits, written.decimal first (hdigits ▸ .head _)⟩

/-- The writing begins with the sign or a digit. -/
theorem exists_text_eq_cons :
    ∃ first rest, written.text = first :: rest ∧
      (first = Byte.minus ∨ Byte.isDigit first = true) :=
  Numeral.exists_signed_eq_cons written.exists_digits_eq_cons written.negative

/-- No blank stands at an end of a written integer. -/
theorem strip_text : written.text.strip = written.text := by
  have hdigit : ∀ b ∈ written.digits, Bytes.isGap b = false := fun b hb =>
    Byte.forall_of_isDigit (fun b => Bytes.isGap b = false) (by decide) (written.decimal b hb)
  have htext : ∀ b ∈ written.text, Bytes.isGap b = false := by
    rw [text]
    split
    · exact List.forall_mem_cons.mpr ⟨rfl, hdigit⟩
    · exact hdigit
  have hne : written.text ≠ [] := by
    obtain ⟨first, rest, hcons, -⟩ := written.exists_text_eq_cons
    simp [hcons]
  exact (Bytes.IsTrimmed.of_forall hne htext).strip_eq

/-- The sign of a written integer is read off its digits. -/
theorem readSign_text :
    Numeral.readSign (Bytes.skipBlanks written.text) = (written.negative, written.digits) :=
  Numeral.readSign_signed written.exists_digits_eq_cons written.negative

/-- A written integer is read as a word exactly when its value is one. -/
theorem word?_text : Numeral.word? written.text = Word.ofInt? written.value := by
  rw [Numeral.word?, strip_text, Numeral.integer?, readSign_text]
  simp only [Numeral.readDigits?_of_decimal written.nonempty written.decimal]
  rfl

/-- A written integer is read as a natural number with a sign. -/
theorem readReal?_text :
    Numeral.readReal? written.text =
      some (.ratio written.negative .decimal (Decimal.toNat written.digits) 1, []) := by
  have hletter : ∀ b ∈ ascii "nx", ∀ c ∈ written.digits, Byte.toLower c ≠ b := by
    intro b hb c hc
    exact Byte.forall_of_isDigit (fun c => ∀ b ∈ ascii "nx", Byte.toLower c ≠ b)
      (by decide +kernel) (written.decimal c hc) b hb
  rw [Numeral.readReal?_eq_readDecimal? written.readSign_text hletter,
    Numeral.readDecimal?_of_decimal written.negative written.nonempty written.decimal,
    Numeral.Reading.scaled_zero]

/-- What a written integer is read as has the place of the number nearest to its value. -/
theorem key_ofMagnitude_rank :
    (Binary64.ofMagnitude written.negative (Binary64.rank (Decimal.toNat written.digits))).key =
      (Binary64.ofInt written.value).key := by
  have hzero : Binary64.rank 0 = 0 := rfl
  rw [Binary64.key_ofMagnitude (Binary64.rank_lt_signBit _), Binary64.key_ofInt, value]
  cases written.negative with
  | false => simp
  | true =>
    by_cases hn : Decimal.toNat written.digits = 0
    · simp [hn, hzero]
    · have hnegative : -(Decimal.toNat written.digits : Int) < 0 := by omega
      simp only [if_true, if_pos hnegative, Int.natAbs_neg, Int.natAbs_natCast]

/-- A written integer is read as a finite number exactly when its digits are. -/
theorem isFinite_ofInt_value :
    (Binary64.ofInt written.value).isFinite =
      decide (Binary64.rank (Decimal.toNat written.digits) < Binary64.infinityMagnitude) := by
  rw [Binary64.isFinite, Binary64.ofInt_eq,
    Binary64.magnitude_ofMagnitude (Binary64.rank_lt_signBit _), natAbs_value]

/-- A written integer is read as its nearest number, but for the sign of zero, when that number is
finite, and as no number otherwise. -/
theorem real?_text :
    Numeral.real? written.text =
      if (Binary64.ofInt written.value).isFinite then
        some (Binary64.ofMagnitude written.negative (Binary64.rank (Decimal.toNat written.digits)))
      else none := by
  have hle := Binary64.rank_le (Decimal.toNat written.digits)
  rw [Numeral.real?, strip_text, readReal?_text, isFinite_ofInt_value]
  simp only [Numeral.Reading.isOutOfRange_natural, Numeral.Reading.toBinary64_natural]
  obtain hless | heq := Nat.lt_or_eq_of_le hle
  · simp [hless, Nat.ne_of_lt hless]
  · simp [heq]

/-- What a written integer is read as has the place of its nearest number. -/
theorem exists_real?_text (hfinite : (Binary64.ofInt written.value).isFinite = true) :
    ∃ x, Numeral.real? written.text = some x ∧ x.isNaN = false ∧
      x.key = (Binary64.ofInt written.value).key := by
  refine ⟨_, written.real?_text.trans (if_pos hfinite), ?_, written.key_ofMagnitude_rank⟩
  rw [Binary64.isNaN, Binary64.magnitude_ofMagnitude (Binary64.rank_lt_signBit _)]
  simpa using Binary64.rank_le (Decimal.toNat written.digits)

/-- Only the integer that is written has the writing as its decimal text. -/
theorem eq_value_of_ofInt_eq_text {v : Int} (h : Decimal.ofInt v = written.text) :
    v = written.value := by
  have hminus : Byte.isDigit Byte.minus = false := rfl
  rw [text] at h
  rw [value]
  cases v with
  | ofNat n =>
    split at h
    · have hdigits : Decimal.ofNat n = Byte.minus :: written.digits := h
      have hmem : Byte.minus ∈ Decimal.ofNat n := hdigits ▸ List.mem_cons_self
      rw [Decimal.isDigit_of_mem_ofNat hmem] at hminus
      cases hminus
    · rename_i hnegative
      have hdigits : Decimal.ofNat n = written.digits := h
      rw [if_neg hnegative, ← hdigits, Decimal.toNat_ofNat]
      rfl
  | negSucc n =>
    split at h
    · rename_i hnegative
      have hdigits : Decimal.ofNat (n + 1) = written.digits := (List.cons.inj h).2
      rw [if_pos hnegative, ← hdigits, Decimal.toNat_ofNat]
      rfl
    · have hdigits : Byte.minus :: Decimal.ofNat (n + 1) = written.digits := h
      have hmem : Byte.minus ∈ written.digits := hdigits ▸ List.mem_cons_self
      rw [written.decimal _ hmem] at hminus
      cases hminus

end WrittenInteger

/-! ## Decimal texts of integers -/

/-- Every natural number has a digit. -/
theorem Decimal.ofNat_ne_nil (n : Nat) : ofNat n ≠ [] := by
  rw [ofNat]
  split
  · exact List.cons_ne_nil _ _
  · simp

namespace WrittenInteger

/-- The decimal text of an integer as a writing of it. -/
def ofInt (n : Int) : WrittenInteger where
  negative := n < 0
  digits := Decimal.ofNat n.natAbs
  nonempty := Decimal.ofNat_ne_nil _
  decimal _ := Decimal.isDigit_of_mem_ofNat

/-- The writing of an integer is its text. -/
theorem text_ofInt (n : Int) : (ofInt n).text = Decimal.ofInt n := by
  cases n with
  | ofNat n => rfl
  | negSucc n =>
    have hnegative : Int.negSucc n < 0 := Int.negSucc_lt_zero n
    simp only [text, ofInt, hnegative, decide_true, if_true]
    rfl

/-- The writing of an integer denotes it. -/
theorem value_ofInt (n : Int) : (ofInt n).value = n := by
  simp only [value, ofInt, decide_eq_true_eq, Decimal.toNat_ofNat]
  omega

end WrittenInteger

end Stencil
