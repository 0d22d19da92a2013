import Mathlib.Data.List.TakeWhile
import Stencil.Proofs.Number.Written

/-!
# Plain numerals in writing

A plain numeral is an optional minus sign, digits, an optional fraction and an optional exponent
(`WrittenDecimal.exists_of_isPlain`). It is read to its end, as its digits times a power of ten
(`WrittenDecimal.readReal?_text`).
-/

set_option autoImplicit false

namespace Stencil

/-- The writing of an exponent: its mark, an optional sign, and digits. -/
structure WrittenExponent where
  mark : UInt8
  sign : Bytes
  digits : Bytes
  isMark : mark ∈ ascii "eE"
  isSign : sign ∈ [[], [Byte.plus], [Byte.minus]]
  nonempty : digits ≠ []
  decimal : ∀ b ∈ digits, Byte.isDigit b = true

namespace WrittenExponent

variable (written : WrittenExponent)

/-- An exponent as it is written. -/
def text : Bytes := written.mark :: (written.sign ++ written.digits)

/-- The power that an exponent denotes. -/
def value : Int :=
  if written.sign = [Byte.minus] then -(Decimal.toNat written.digits : Int)
  else Decimal.toNat written.digits

/-- The sign of an exponent is read off its digits. -/
theorem readSign_sign :
    Numeral.readSign (written.sign ++ written.digits) =
      (decide (written.sign = [Byte.minus]), written.digits) := by
  obtain ⟨first, rest, hdigits⟩ := List.exists_cons_of_ne_nil written.nonempty
  have hfirst := written.decimal first (hdigits ▸ .head _)
  have hother : first ≠ Byte.minus ∧ first ≠ Byte.plus :=
    Byte.forall_of_isDigit (fun b => b ≠ Byte.minus ∧ b ≠ Byte.plus) (by decide) hfirst
  have hsign := written.isSign
  simp only [List.mem_cons, List.not_mem_nil, or_false] at hsign
  obtain hsign | hsign | hsign := hsign
  · simp [hsign, Numeral.readSign, hdigits, hother]
  · rw [hsign]
    rfl
  · rw [hsign]
    rfl

/-- A written exponent is read to its end and with its value. -/
theorem readExponent_text :
    Numeral.readExponent (ascii "eE") written.text = (written.value, []) := by
  have hmark : (ascii "eE").contains written.mark = true := List.contains_iff_mem.mpr written.isMark
  rw [text, Numeral.readExponent, if_pos hmark, readSign_sign]
  simp only [Numeral.readDigits?_of_decimal written.nonempty written.decimal, value,
    decide_eq_true_eq]

end WrittenExponent

/-- The writing of a plain numeral: an optional minus sign, digits, a fraction unless it is empty,
and an optional exponent. -/
structure WrittenDecimal where
  negative : Bool
  whole : Bytes
  fraction : Bytes
  exponent : Option WrittenExponent
  nonempty : whole ≠ []
  decimal : ∀ b ∈ whole ++ fraction, Byte.isDigit b = true

namespace WrittenDecimal

variable (written : WrittenDecimal)

/-- A fraction as it is written, with its point; without digits there is none. -/
def fractionText : Bytes :=
  if written.fraction = [] then [] else Byte.dot :: written.fraction

/-- The exponent as it is written, if there is one. -/
def exponentText : Bytes := (written.exponent.map WrittenExponent.text).getD []

/-- The writing after the sign. -/
def body : Bytes := written.whole ++ (written.fractionText ++ written.exponentText)

/-- A numeral as it is written. -/
def text : Bytes := if written.negative then Byte.minus :: written.body else written.body

/-- The power of ten that the digits are multiplied by. -/
def power : Int :=
  (written.exponent.map WrittenExponent.value).getD 0 - written.fraction.length

/-- What stands where an exponent may is nothing, or begins with the mark of one. -/
theorem exponentText_cases :
    written.exponentText = [] ∨ ∃ mark rest, written.exponentText = mark :: rest ∧
      mark ∈ ascii "eE" := by
  rw [exponentText]
  cases written.exponent with
  | none => exact .inl rfl
  | some exponent => exact .inr ⟨_, _, rfl, exponent.isMark⟩

/-- An exponent that may be missing is read to its end and with its value. -/
theorem readExponent_exponentText :
    Numeral.readExponent (ascii "eE") written.exponentText =
      ((written.exponent.map WrittenExponent.value).getD 0, []) := by
  rw [exponentText]
  cases written.exponent with
  | none => rfl
  | some exponent => exact exponent.readExponent_text

/-- What comes after digits begins with no digit. -/
theorem not_isDigit_exponentText {b : UInt8} (h : written.exponentText.head? = some b) :
    Byte.isDigit b = false ∧ b ≠ Byte.dot := by
  have hmarks : ∀ mark ∈ ascii "eE", Byte.isDigit mark = false ∧ mark ≠ Byte.dot := by
    decide +kernel
  obtain htext | ⟨mark, rest, htext, hmark⟩ := written.exponentText_cases
  · rw [htext] at h
    cases h
  · rw [htext] at h
    cases h
    exact hmarks _ hmark

/-- The digits around the point are read together, up to the exponent. -/
theorem readPointed?_body :
    Numeral.readPointed? Byte.isDigit written.body =
      some (written.whole ++ written.fraction, written.fraction.length, written.exponentText) := by
  have hwhole : ∀ b ∈ written.whole, Byte.isDigit b = true := fun b hb =>
    written.decimal b (List.mem_append_left _ hb)
  have hfraction : ∀ b ∈ written.fraction, Byte.isDigit b = true := fun b hb =>
    written.decimal b (List.mem_append_right _ hb)
  have hexponent := fun b => written.not_isDigit_exponentText (b := b)
  have hnonempty := written.nonempty
  rw [Numeral.readPointed?, body, fractionText]
  by_cases hnone : written.fraction = []
  · rw [if_pos hnone, List.nil_append,
      Bytes.readWhile_append _ hwhole fun b hb => (hexponent b hb).1]
    obtain htext | ⟨mark, rest, htext, hmark⟩ := written.exponentText_cases
    · simp [htext, hnone, hnonempty]
    · have hdot : mark ≠ Byte.dot := (hexponent mark (by rw [htext]; rfl)).2
      simp [htext, hnone, hnonempty, hdot]
  · have hdot : ∀ b, (Byte.dot :: written.fraction ++ written.exponentText).head? = some b →
        Byte.isDigit b = false := by
      intro b hb
      cases hb
      rfl
    have hread := Bytes.readWhile_append written.exponentText hfraction
      fun b hb => (hexponent b hb).1
    have hwholeNonempty : written.whole.isEmpty = false := by simpa using hnonempty
    rw [if_neg hnone, Bytes.readWhile_append _ hwhole hdot, List.cons_append]
    simp only [hwholeNonempty]
    show some (written.whole ++ (Bytes.readWhile Byte.isDigit
          (written.fraction ++ written.exponentText)).1,
        (Bytes.readWhile Byte.isDigit (written.fraction ++ written.exponentText)).1.length,
        (Bytes.readWhile Byte.isDigit (written.fraction ++ written.exponentText)).2) = _
    rw [hread]

/-- The body of a decimal numeral is read to its end, as its digits and its power of ten. -/
theorem readDecimal?_body (negative : Bool) :
    Numeral.readDecimal? negative written.body =
      some (.scaled negative .decimal (Decimal.toNat (written.whole ++ written.fraction))
        written.power (written.whole ++ written.fraction).length, []) := by
  rw [Numeral.readDecimal?, readPointed?_body, Option.map_some]
  simp only [readExponent_exponentText]
  rfl

/-! ## The bytes of a plain numeral -/

/-- Whether a byte can stand in a plain numeral. -/
def isByte (b : UInt8) : Bool := Byte.isDigit b || (ascii ".eE+-").contains b

/-- What holds of the bytes that can stand in a plain numeral. -/
theorem forall_isByte (property : UInt8 → Prop) (hdigit : ∀ n < 10, property (Byte.ofDigit n))
    (hother : ∀ b ∈ ascii ".eE+-", property b) {b : UInt8} (h : isByte b = true) : property b := by
  rw [isByte, Bool.or_eq_true, List.contains_iff_mem] at h
  obtain h | h := h
  · exact Byte.forall_of_isDigit property hdigit h
  · exact hother b h

/-- Digits are bytes of numerals. -/
theorem isByte_of_isDigit {b : UInt8} (h : Byte.isDigit b = true) : isByte b = true := by
  rw [isByte, h, Bool.true_or]

/-- The body of a numeral holds bytes of numerals only. -/
theorem isByte_of_mem_body {b : UInt8} (h : b ∈ written.body) : isByte b = true := by
  have hmark : ∀ b ∈ ascii "eE", isByte b = true := by decide +kernel
  have hsign : ∀ sign ∈ [[], [Byte.plus], [Byte.minus]], ∀ b ∈ sign, isByte b = true := by
    decide +kernel
  simp only [body, List.mem_append] at h
  obtain h | h | h := h
  · exact isByte_of_isDigit (written.decimal b (List.mem_append_left _ h))
  · rw [fractionText] at h
    split at h
    · cases h
    · obtain rfl | h := List.mem_cons.mp h
      · rfl
      · exact isByte_of_isDigit (written.decimal b (List.mem_append_right _ h))
  · rw [exponentText] at h
    cases hexponent : written.exponent with
    | none => simp [hexponent] at h
    | some exponent =>
      rw [hexponent] at h
      obtain rfl | h := List.mem_cons.mp h
      · exact hmark _ exponent.isMark
      · obtain h | h := List.mem_append.mp h
        · exact hsign _ exponent.isSign b h
        · exact isByte_of_isDigit (exponent.decimal b h)

/-- A numeral holds bytes of numerals only. -/
theorem isByte_of_mem_text {b : UInt8} (h : b ∈ written.text) : isByte b = true := by
  rw [text] at h
  split at h
  · obtain rfl | h := List.mem_cons.mp h
    · rfl
    · exact written.isByte_of_mem_body h
  · exact written.isByte_of_mem_body h

/-- A plain numeral begins with a digit after its sign. -/
theorem exists_body_eq_cons :
    ∃ first rest, written.body = first :: rest ∧ Byte.isDigit first = true := by
  obtain ⟨first, rest, hwhole⟩ := List.exists_cons_of_ne_nil written.nonempty
  exact ⟨first, rest ++ (written.fractionText ++ written.exponentText), by rw [body, hwhole]; rfl,
    written.decimal first (List.mem_append_left _ (hwhole ▸ .head _))⟩

/-- A plain numeral begins with the sign or a digit. -/
theorem exists_text_eq_cons :
    ∃ first rest, written.text = first :: rest ∧
      (first = Byte.minus ∨ Byte.isDigit first = true) :=
  Numeral.exists_signed_eq_cons written.exists_body_eq_cons written.negative

/-- A numeral is not empty. -/
theorem text_ne_nil : written.text ≠ [] := by
  obtain ⟨first, rest, htext, -⟩ := written.exists_text_eq_cons
  rw [htext]
  exact List.cons_ne_nil _ _

/-- No blank stands at an end of a numeral. -/
theorem strip_text : written.text.strip = written.text := by
  have hgap : ∀ b ∈ written.text, Bytes.isGap b = false := fun b hb =>
    forall_isByte (fun b => Bytes.isGap b = false) (by decide) (by decide +kernel)
      (written.isByte_of_mem_text hb)
  exact (Bytes.IsTrimmed.of_forall written.text_ne_nil hgap).strip_eq

/-- The sign of a numeral is read off its body. -/
theorem readSign_text :
    Numeral.readSign (Bytes.skipBlanks written.text) = (written.negative, written.body) :=
  Numeral.readSign_signed written.exists_body_eq_cons written.negative

/-- A plain numeral is read as its digits times a power of ten. -/
theorem readReal?_text :
    Numeral.readReal? written.text =
      some (.scaled written.negative .decimal
        (Decimal.toNat (written.whole ++ written.fraction)) written.power
        (written.whole ++ written.fraction).length, []) := by
  have hletter : ∀ b ∈ ascii "nx", ∀ c ∈ written.body, Byte.toLower c ≠ b := by
    intro b hb c hc
    exact forall_isByte (fun c => ∀ b ∈ ascii "nx", Byte.toLower c ≠ b) (by decide +kernel)
      (by decide +kernel) (written.isByte_of_mem_body hc) b hb
  rw [Numeral.readReal?_eq_readDecimal? written.readSign_text hletter, readDecimal?_body]

/-- Whether a fraction or an exponent is written. -/
def IsPointed : Prop := written.fraction ≠ [] ∨ written.exponent.isSome = true

/-- A numeral with a fraction or an exponent is no integer. -/
theorem integer?_text_of_isPointed (h : written.IsPointed) :
    Numeral.integer? written.text = none := by
  have hwhole : ∀ b ∈ written.whole, Byte.isDigit b = true := fun b hb =>
    written.decimal b (List.mem_append_left _ hb)
  obtain ⟨first, rest, hrest, hfirst⟩ : ∃ first rest,
      written.fractionText ++ written.exponentText = first :: rest ∧
        Byte.isDigit first = false := by
    rw [fractionText]
    split
    · rename_i hfraction
      obtain ⟨exponent, hexponent⟩ := Option.isSome_iff_exists.mp
        (h.resolve_left (not_not_intro hfraction))
      have htext : written.exponentText = exponent.mark :: (exponent.sign ++ exponent.digits) := by
        rw [exponentText, hexponent]
        rfl
      exact ⟨_, _, htext, (written.not_isDigit_exponentText (by rw [htext]; rfl)).1⟩
    · exact ⟨_, _, rfl, rfl⟩
  have hhead : ∀ b, (first :: rest).head? = some b → Byte.isDigit b = false := by
    intro b hb
    cases hb
    exact hfirst
  have hdigits : written.whole.isEmpty = false := by simpa using written.nonempty
  rw [Numeral.integer?, readSign_text]
  simp only [Numeral.readDigits?, body, hrest, Bytes.readWhile_append _ hwhole hhead, hdigits,
    Bool.false_eq_true, if_false]

/-- What has a fraction or an exponent holds no integer. -/
theorem word?_text_of_isPointed (h : written.IsPointed) : Numeral.word? written.text = none := by
  rw [Numeral.word?, strip_text, integer?_text_of_isPointed written h]
  rfl

end WrittenDecimal

/-! ## Plain numerals are written so -/

namespace Numeral

/-- The digits at the start of a text are decimal, and what is left stands behind them. -/
theorem eq_append_of_readDigits? {s digits rest : Bytes} (h : readDigits? s = some (digits, rest)) :
    s = digits ++ rest ∧ digits ≠ [] ∧ ∀ b ∈ digits, Byte.isDigit b = true := by
  obtain ⟨hnonempty, rfl, rfl⟩ := readDigits?_eq_some_iff.mp h
  exact ⟨List.takeWhile_append_dropWhile.symm, hnonempty, fun b => List.mem_takeWhile_imp⟩

/-- What is skipped as a fraction is a point with digits, or nothing. -/
theorem exists_of_skipFraction? {s rest : Bytes} (h : skipFraction? s = some rest) :
    ∃ fraction : Bytes, (∀ b ∈ fraction, Byte.isDigit b = true) ∧
      s = (if fraction = [] then [] else Byte.dot :: fraction) ++ rest := by
  unfold skipFraction? at h
  split at h
  · rename_i after
    obtain ⟨⟨fraction, _⟩, hread, rfl⟩ := Option.map_eq_some_iff.mp h
    obtain ⟨rfl, hnonempty, hdecimal⟩ := eq_append_of_readDigits? hread
    exact ⟨fraction, hdecimal, by rw [if_neg hnonempty]; rfl⟩
  · cases h
    exact ⟨[], fun b hb => (List.not_mem_nil hb).elim, rfl⟩

/-- A sign is a plus, a minus or nothing. -/
theorem exists_of_readSign (s : Bytes) :
    ∃ sign ∈ [[], [Byte.plus], [Byte.minus]], s = sign ++ (readSign s).2 := by
  unfold readSign
  split
  · exact ⟨[Byte.minus], by decide, rfl⟩
  · exact ⟨[Byte.plus], by decide, rfl⟩
  · exact ⟨[], by decide, rfl⟩

/-- A mark with a sign and digits behind it is a written exponent. -/
theorem exists_exponent {mark : UInt8} {rest : Bytes} (hmark : mark ∈ ascii "eE")
    (h : (readDigits? (readSign rest).2).map Prod.snd = some []) :
    ∃ exponent : WrittenExponent, mark :: rest = exponent.text := by
  obtain ⟨⟨digits, _⟩, hread, rfl⟩ := Option.map_eq_some_iff.mp h
  obtain ⟨hdigits, hnonempty, hdecimal⟩ := eq_append_of_readDigits? hread
  obtain ⟨sign, hsign, hrest⟩ := exists_of_readSign rest
  rw [hdigits, List.append_nil] at hrest
  exact ⟨⟨mark, sign, digits, hmark, hsign, hnonempty, hdecimal⟩, by
    rw [WrittenExponent.text, hrest]⟩

/-- What is skipped as an exponent to the end is a written exponent, or nothing. -/
theorem exists_of_skipExponent? {s : Bytes} (h : skipExponent? s = some []) :
    ∃ exponent : Option WrittenExponent, s = (exponent.map WrittenExponent.text).getD [] := by
  unfold skipExponent? at h
  split at h
  · obtain ⟨exponent, htext⟩ := exists_exponent (show 0x65 ∈ ascii "eE" by decide) h
    exact ⟨some exponent, htext⟩
  · obtain ⟨exponent, htext⟩ := exists_exponent (show 0x45 ∈ ascii "eE" by decide) h
    exact ⟨some exponent, htext⟩
  · cases h
    exact ⟨none, rfl⟩

end Numeral

/-- Every plain numeral is written so. -/
theorem WrittenDecimal.exists_of_isPlain {s : Bytes} (h : Numeral.isPlain s = true) :
    ∃ written : WrittenDecimal, written.text = s := by
  obtain ⟨negative, unsigned, whole, rest, hsign, hread, hplain⟩ :
      ∃ (negative : Bool) (unsigned whole rest : Bytes),
        s = (if negative then Byte.minus :: unsigned else unsigned) ∧
          Numeral.readDigits? unsigned = some (whole, rest) ∧
            (Numeral.skipFraction? rest >>= Numeral.skipExponent?) = some [] := by
    unfold Numeral.isPlain at h
    split at h
    · rename_i unsigned
      dsimp only at h
      split at h
      · cases h
      · exact ⟨true, unsigned, _, _, rfl, ‹_›, beq_iff_eq.mp h⟩
    · dsimp only at h
      split at h
      · cases h
      · exact ⟨false, s, _, _, rfl, ‹_›, beq_iff_eq.mp h⟩
  obtain ⟨hwhole, hnonempty, hdecimal⟩ := Numeral.eq_append_of_readDigits? hread
  obtain ⟨after, hfraction, hexponent⟩ := Option.bind_eq_some_iff.mp hplain
  obtain ⟨fraction, hfractionDecimal, hrest⟩ := Numeral.exists_of_skipFraction? hfraction
  obtain ⟨exponent, hafter⟩ := Numeral.exists_of_skipExponent? hexponent
  refine ⟨⟨negative, whole, fraction, exponent, hnonempty, fun b hb => ?_⟩, ?_⟩
  · exact (List.mem_append.mp hb).elim (hdecimal b) (hfractionDecimal b)
  · rw [hsign, hwhole, hrest, hafter]
    rfl

end Stencil
