import Mathlib.Computability.RegularExpressions
import Stencil.Proofs.Number.Plain

/-!
# The language of plain numerals

Whether a text is a plain numeral is decided in one pass over it, which gives up where a part is
missing. What passes is a regular language: an optional minus, digits, an optional point with
digits, and an optional mark of an exponent with an optional sign and digits
(`Numeral.isPlain_iff`). Both sides are the writings of `WrittenDecimal`.
-/

set_option autoImplicit false

namespace Stencil

/-! ## Regular expressions over bytes -/

/-- Regular expressions over bytes. -/
abbrev Pattern := RegularExpression UInt8

namespace Pattern

/-- One of some bytes. -/
def oneOf (bytes : Bytes) : Pattern := bytes.foldr (fun b others => .char b + others) 0

/-- The pattern or nothing. -/
def optional (p : Pattern) : Pattern := 1 + p

/-- A pattern once or more often. -/
def repeated (p : Pattern) : Pattern := p * p.star

variable {bytes s : Bytes} {p q : Pattern}

/-- A class of bytes matches each of its bytes and nothing else. -/
theorem mem_oneOf : s ∈ (oneOf bytes).matches' ↔ ∃ b ∈ bytes, s = [b] := by
  induction bytes with
  | nil =>
    constructor
    · intro h
      exact absurd h (Language.notMem_zero s)
    · rintro ⟨b, hb, -⟩
      cases hb
  | cons b others ih =>
    have hcons : (oneOf (b :: others)).matches' = {[b]} + (oneOf others).matches' := rfl
    rw [hcons, Language.mem_add, ih]
    constructor
    · rintro (h | ⟨c, hc, hs⟩)
      · exact ⟨b, .head _, h⟩
      · exact ⟨c, .tail _ hc, hs⟩
    · rintro ⟨c, hc, hs⟩
      obtain rfl | hc := List.mem_cons.mp hc
      · exact .inl hs
      · exact .inr ⟨c, hc, hs⟩

/-- An optional pattern matches the empty text as well. -/
theorem mem_optional : s ∈ (optional p).matches' ↔ s = [] ∨ s ∈ p.matches' := by
  have hsum : (optional p).matches' = 1 + p.matches' := rfl
  rw [hsum, Language.mem_add, Language.mem_one]

/-- Two patterns in a row match a text in two parts. -/
theorem mem_mul :
    s ∈ (p * q).matches' ↔ ∃ t ∈ p.matches', ∃ u ∈ q.matches', t ++ u = s :=
  Language.mem_mul

/-- A byte of some kind once or more often is a text of such bytes that is not empty. -/
theorem mem_repeated_oneOf :
    s ∈ (repeated (oneOf bytes)).matches' ↔ s ≠ [] ∧ ∀ b ∈ s, b ∈ bytes := by
  rw [repeated, mem_mul]
  constructor
  · rintro ⟨first, hfirst, rest, hrest, rfl⟩
    obtain ⟨b, hb, rfl⟩ := mem_oneOf.mp hfirst
    obtain ⟨pieces, rfl, hpieces⟩ := Language.mem_kstar.mp hrest
    refine ⟨List.cons_ne_nil _ _, List.forall_mem_cons.mpr ⟨hb, fun c hc => ?_⟩⟩
    obtain ⟨piece, hpiece, hc⟩ := List.mem_flatten.mp hc
    obtain ⟨d, hd, rfl⟩ := mem_oneOf.mp (hpieces piece hpiece)
    rwa [List.mem_singleton.mp hc]
  · rintro ⟨hnonempty, hmem⟩
    obtain ⟨first, rest, rfl⟩ := List.exists_cons_of_ne_nil hnonempty
    obtain ⟨hfirst, hrest⟩ := List.forall_mem_cons.mp hmem
    refine ⟨[first], mem_oneOf.mpr ⟨first, hfirst, rfl⟩, rest, ?_, rfl⟩
    refine Language.mem_kstar.mpr ⟨rest.map fun b => [b], ?_, fun piece hpiece => ?_⟩
    · rw [← List.flatMap_def, List.flatMap_singleton']
    · obtain ⟨b, hb, rfl⟩ := List.mem_map.mp hpiece
      exact mem_oneOf.mpr ⟨b, hrest b hb, rfl⟩

end Pattern

namespace Numeral

open Pattern

/-- One decimal digit or more. -/
def digits : Pattern := repeated (oneOf (ascii "0123456789"))

/-- A point with digits. -/
def fraction : Pattern := .char Byte.dot * digits

/-- The mark of an exponent with an optional sign and digits. -/
def exponent : Pattern := oneOf (ascii "eE") * (optional (oneOf (ascii "+-")) * digits)

/-- An optional minus, digits, an optional fraction and an optional exponent. -/
def plain : Pattern :=
  optional (oneOf (ascii "-")) * (digits * (optional fraction * optional exponent))

/-! ## What the expressions match -/

variable {s : Bytes}

/-- The pattern of digits matches the texts of decimal digits. -/
theorem mem_digits : s ∈ digits.matches' ↔ s ≠ [] ∧ ∀ b ∈ s, Byte.isDigit b = true := by
  have hdigit : ∀ b : UInt8, b ∈ ascii "0123456789" ↔ Byte.isDigit b = true := by
    intro b
    constructor
    · intro hb
      have hall : ∀ c ∈ ascii "0123456789", Byte.isDigit c = true := by decide +kernel
      exact hall b hb
    · intro hb
      exact Byte.forall_of_isDigit (fun c => c ∈ ascii "0123456789") (by decide +kernel) hb
  simp only [digits, mem_repeated_oneOf, hdigit]

/-- The pattern of a fraction matches a point with digits behind it. -/
theorem mem_fraction :
    s ∈ fraction.matches' ↔ ∃ digits : Bytes, digits ≠ [] ∧
      (∀ b ∈ digits, Byte.isDigit b = true) ∧ s = Byte.dot :: digits := by
  rw [fraction, mem_mul]
  constructor
  · rintro ⟨point, hpoint, digits, hdigits, rfl⟩
    obtain rfl : point = [Byte.dot] := hpoint
    obtain ⟨hnonempty, hdecimal⟩ := mem_digits.mp hdigits
    exact ⟨digits, hnonempty, hdecimal, rfl⟩
  · rintro ⟨digits, hnonempty, hdecimal, rfl⟩
    exact ⟨[Byte.dot], rfl, digits, mem_digits.mpr ⟨hnonempty, hdecimal⟩, rfl⟩

/-- The pattern of an exponent matches the exponents as they are written. -/
theorem mem_exponent :
    s ∈ exponent.matches' ↔ ∃ written : WrittenExponent, written.text = s := by
  have hsign : ∀ sign : Bytes, sign ∈ (optional (oneOf (ascii "+-"))).matches' ↔
      sign ∈ [[], [Byte.plus], [Byte.minus]] := by
    intro sign
    have hbytes : ascii "+-" = [Byte.plus, Byte.minus] := rfl
    simp [mem_optional, mem_oneOf, hbytes]
  rw [exponent, mem_mul]
  constructor
  · rintro ⟨mark, hmark, rest, hrest, rfl⟩
    obtain ⟨b, hb, rfl⟩ := mem_oneOf.mp hmark
    obtain ⟨sign, hmem, digits, hdigits, rfl⟩ := mem_mul.mp hrest
    obtain ⟨hnonempty, hdecimal⟩ := mem_digits.mp hdigits
    exact ⟨⟨b, sign, digits, hb, (hsign sign).mp hmem, hnonempty, hdecimal⟩, rfl⟩
  · rintro ⟨written, rfl⟩
    refine ⟨[written.mark], mem_oneOf.mpr ⟨_, written.isMark, rfl⟩, written.sign ++ written.digits,
      ?_, rfl⟩
    exact mem_mul.mpr ⟨written.sign, (hsign _).mpr written.isSign, written.digits,
      mem_digits.mpr ⟨written.nonempty, written.decimal⟩, rfl⟩

/-- An optional fraction is one whose digits may be missing. -/
theorem mem_optional_fraction :
    s ∈ (optional fraction).matches' ↔ ∃ digits : Bytes, (∀ b ∈ digits, Byte.isDigit b = true) ∧
      s = if digits = [] then [] else Byte.dot :: digits := by
  rw [mem_optional, mem_fraction]
  constructor
  · rintro (rfl | ⟨digits, hnonempty, hdecimal, rfl⟩)
    · exact ⟨[], fun b hb => (List.not_mem_nil hb).elim, rfl⟩
    · exact ⟨digits, hdecimal, by rw [if_neg hnonempty]⟩
  · rintro ⟨digits, hdecimal, rfl⟩
    split
    · exact .inl rfl
    · rename_i hnonempty
      exact .inr ⟨digits, hnonempty, hdecimal, rfl⟩

/-- An optional exponent is one that may be missing. -/
theorem mem_optional_exponent :
    s ∈ (optional exponent).matches' ↔
      ∃ written : Option WrittenExponent, s = (written.map WrittenExponent.text).getD [] := by
  rw [mem_optional, mem_exponent]
  constructor
  · rintro (rfl | ⟨written, rfl⟩)
    · exact ⟨none, rfl⟩
    · exact ⟨some written, rfl⟩
  · rintro ⟨written, rfl⟩
    cases written with
    | none => exact .inl rfl
    | some written => exact .inr ⟨written, rfl⟩

/-- The language is that of the writings of plain numerals. -/
theorem mem_plain : s ∈ plain.matches' ↔ ∃ written : WrittenDecimal, written.text = s := by
  have hminus : ∀ sign : Bytes, sign ∈ (optional (oneOf (ascii "-"))).matches' ↔
      sign = [] ∨ sign = [Byte.minus] := by
    intro sign
    have hbytes : ascii "-" = [Byte.minus] := rfl
    simp [mem_optional, mem_oneOf, hbytes]
  rw [plain, mem_mul]
  constructor
  · rintro ⟨sign, hsign, body, hbody, rfl⟩
    obtain ⟨whole, hwhole, rest, hrest, rfl⟩ := mem_mul.mp hbody
    obtain ⟨point, hpoint, mark, hmark, rfl⟩ := mem_mul.mp hrest
    obtain ⟨hnonempty, hdecimal⟩ := mem_digits.mp hwhole
    obtain ⟨fraction, hfraction, rfl⟩ := mem_optional_fraction.mp hpoint
    obtain ⟨exponent, rfl⟩ := mem_optional_exponent.mp hmark
    have hdigits : ∀ b ∈ whole ++ fraction, Byte.isDigit b = true := fun b hb =>
      (List.mem_append.mp hb).elim (hdecimal b) (hfraction b)
    obtain rfl | rfl := (hminus sign).mp hsign
    · exact ⟨⟨false, whole, fraction, exponent, hnonempty, hdigits⟩, rfl⟩
    · exact ⟨⟨true, whole, fraction, exponent, hnonempty, hdigits⟩, rfl⟩
  · rintro ⟨written, rfl⟩
    have hwhole : ∀ b ∈ written.whole, Byte.isDigit b = true := fun b hb =>
      written.decimal b (List.mem_append_left _ hb)
    have hfraction : ∀ b ∈ written.fraction, Byte.isDigit b = true := fun b hb =>
      written.decimal b (List.mem_append_right _ hb)
    have hbody : written.body ∈
        (digits * (optional fraction * optional exponent)).matches' := by
      refine mem_mul.mpr ⟨written.whole, mem_digits.mpr ⟨written.nonempty, hwhole⟩, _, ?_, rfl⟩
      exact mem_mul.mpr ⟨written.fractionText, mem_optional_fraction.mpr ⟨_, hfraction, rfl⟩,
        written.exponentText, mem_optional_exponent.mpr ⟨_, rfl⟩, rfl⟩
    rw [WrittenDecimal.text]
    split
    · exact ⟨[Byte.minus], (hminus _).mpr (.inr rfl), written.body, hbody, rfl⟩
    · exact ⟨[], (hminus _).mpr (.inl rfl), written.body, hbody, rfl⟩

end Numeral

/-! ## Plain numerals pass -/

namespace WrittenDecimal

variable (written : WrittenDecimal)

/-- What comes after the first digits begins with no digit. -/
theorem not_isDigit_fractionText {b : UInt8}
    (h : (written.fractionText ++ written.exponentText).head? = some b) :
    Byte.isDigit b = false := by
  rw [fractionText] at h
  split at h
  · exact (written.not_isDigit_exponentText h).1
  · cases h
    rfl

/-- The fraction of a written numeral is skipped as a whole. -/
theorem skipFraction?_text :
    Numeral.skipFraction? (written.fractionText ++ written.exponentText) =
      some written.exponentText := by
  rw [fractionText]
  split
  · rw [List.nil_append]
    unfold Numeral.skipFraction?
    split
    · rename_i htext
      exact absurd rfl (written.not_isDigit_exponentText (by rw [htext]; rfl)).2
    · rfl
  · rename_i hnonempty
    have hread := Numeral.readDigits?_append hnonempty
      (fun b hb => written.decimal b (List.mem_append_right _ hb))
      fun b hb => (written.not_isDigit_exponentText hb).1
    show (Numeral.readDigits? (written.fraction ++ written.exponentText)).map Prod.snd = _
    rw [hread]
    rfl

/-- The exponent of a written numeral is skipped as a whole. -/
theorem skipExponent?_text : Numeral.skipExponent? written.exponentText = some [] := by
  rw [exponentText]
  cases written.exponent with
  | none => rfl
  | some exponent =>
    have hread : (Numeral.readDigits? (Numeral.readSign
        (exponent.sign ++ exponent.digits)).2).map Prod.snd = some [] := by
      rw [exponent.readSign_sign, Numeral.readDigits?_of_decimal exponent.nonempty exponent.decimal]
      rfl
    have hmark := exponent.isMark
    rw [show ascii "eE" = [0x65, 0x45] from rfl, List.mem_pair] at hmark
    show Numeral.skipExponent? (exponent.mark :: (exponent.sign ++ exponent.digits)) = some []
    obtain hmark | hmark := hmark
    · rw [hmark]
      exact hread
    · rw [hmark]
      exact hread

/-- A written numeral is plain. -/
theorem isPlain_text : Numeral.isPlain written.text = true := by
  have hread : Numeral.readDigits? written.body =
      some (written.whole, written.fractionText ++ written.exponentText) :=
    Numeral.readDigits?_append written.nonempty
      (fun b hb => written.decimal b (List.mem_append_left _ hb))
      fun _ hb => written.not_isDigit_fractionText hb
  have hend : (Numeral.skipFraction? (written.fractionText ++ written.exponentText) >>=
      Numeral.skipExponent?) = some [] := by
    rw [skipFraction?_text]
    exact written.skipExponent?_text
  rw [text]
  cases written.negative with
  | true =>
    unfold Numeral.isPlain
    split
    case h_1 rest hpattern =>
      cases hpattern
      simp only [hread, hend, beq_self_eq_true]
    case h_2 hnot => exact absurd rfl (hnot _)
  | false =>
    obtain ⟨first, rest, hbody, hfirst⟩ := written.exists_body_eq_cons
    have hminus : first ≠ Byte.minus :=
      Byte.forall_of_isDigit (fun b => b ≠ Byte.minus) (by decide) hfirst
    rw [hbody] at hread
    simp [hbody, Numeral.isPlain, hminus, hread, hend]

end WrittenDecimal

/-- What passes for a plain numeral is what the regular expression matches. -/
theorem Numeral.isPlain_iff {s : Bytes} : isPlain s = true ↔ s ∈ plain.matches' := by
  rw [mem_plain]
  constructor
  · exact WrittenDecimal.exists_of_isPlain
  · rintro ⟨written, rfl⟩
    exact written.isPlain_text

/-! ## Integers among them -/

/-- The writing of an integer is a plain numeral without fraction and exponent. -/
def WrittenInteger.toDecimal (written : WrittenInteger) : WrittenDecimal where
  negative := written.negative
  whole := written.digits
  fraction := []
  exponent := none
  nonempty := written.nonempty
  decimal := by simpa using written.decimal

/-- As a decimal a written integer has the same text. -/
theorem WrittenInteger.text_toDecimal (written : WrittenInteger) :
    written.toDecimal.text = written.text := by
  have hbody : written.toDecimal.body = written.digits := List.append_nil _
  rw [WrittenDecimal.text, hbody]
  rfl

/-- A written integer is a plain numeral. -/
theorem WrittenInteger.isPlain_text (written : WrittenInteger) :
    Numeral.isPlain written.text = true := by
  rw [← written.text_toDecimal]
  exact written.toDecimal.isPlain_text

/-- A plain numeral has a fraction or an exponent, or else is the writing of an integer. -/
theorem WrittenDecimal.isPointed_or_exists (written : WrittenDecimal) :
    written.IsPointed ∨ ∃ integer : WrittenInteger, integer.text = written.text := by
  by_cases hpointed : written.IsPointed
  · exact .inl hpointed
  · obtain ⟨negative, whole, fraction, exponent, hnonempty, hdecimal⟩ := written
    simp only [IsPointed, not_or, not_not, Bool.not_eq_true, Option.isSome_eq_false_iff,
      Option.isNone_iff_eq_none] at hpointed
    obtain ⟨rfl, rfl⟩ := hpointed
    rw [List.append_nil] at hdecimal
    let integer : WrittenInteger := ⟨negative, whole, hnonempty, hdecimal⟩
    exact .inr ⟨integer, integer.text_toDecimal.symm⟩

/-- A plain numeral holds a word when it is the writing of one. -/
theorem Numeral.word?_eq_some_iff {s : Bytes} (hplain : isPlain s = true) {n : Int64} :
    word? s = some n ↔ ∃ written : WrittenInteger, written.text = s ∧ written.value = n.toInt := by
  constructor
  · intro hword
    obtain ⟨decimal, rfl⟩ := WrittenDecimal.exists_of_isPlain hplain
    obtain hpointed | ⟨integer, htext⟩ := decimal.isPointed_or_exists
    · rw [decimal.word?_text_of_isPointed hpointed] at hword
      cases hword
    · rw [← htext, integer.word?_text] at hword
      exact ⟨integer, htext, (Word.ofInt?_eq_some_iff.mp hword).symm⟩
  · rintro ⟨written, rfl, hvalue⟩
    exact written.word?_text.trans (Word.ofInt?_eq_some_iff.mpr hvalue.symm)

/-- A plain numeral holds no word when it is the writing of no integer in range. -/
theorem Numeral.word?_eq_none_iff {s : Bytes} (hplain : isPlain s = true) :
    word? s = none ↔
      ∀ written : WrittenInteger, written.text = s → Word.fits written.value = false := by
  constructor
  · rintro hword written rfl
    rw [Bool.eq_false_iff]
    intro hfits
    rw [written.word?_text, Word.ofInt?, if_pos hfits] at hword
    cases hword
  · intro hno
    rw [Option.eq_none_iff_forall_ne_some]
    intro n hword
    obtain ⟨written, htext, hvalue⟩ := (word?_eq_some_iff hplain).mp hword
    have hfits := Word.fits_toInt n
    rw [← hvalue, hno written htext] at hfits
    cases hfits

end Stencil
