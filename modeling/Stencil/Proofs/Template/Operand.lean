import Stencil.Proofs.Number.Language
import Stencil.Proofs.Number.Truncation
import Stencil.Proofs.Render.LiteralValue

/-!
# What an operand is

An operand is classified twice: when its text is read, as a literal or a path, and when a literal is
given a value, from what was kept of its text. Both follow one grammar: `Operand.Means` says what
the text of a literal means, `Operand.literal_eq_iff` that this is the value of the literal.
-/

set_option autoImplicit false

namespace Stencil

/-! ## Quoted literals -/

namespace Quoted

/-- The letters that mean another byte behind a backslash, and what they mean. -/
def meanings : List (UInt8 × UInt8) :=
  [(0x6e, Byte.newline), (0x72, Byte.carriageReturn), (0x74, Byte.tab)]

/-- What the inside of a literal stands for: a backslash gives what the byte behind it means, or the
byte, and is kept where there is none. -/
inductive StandsFor : Bytes → Bytes → Prop
  | nil : StandsFor [] []
  | plain {b : UInt8} {inside text : Bytes} (hb : b ≠ Byte.backslash)
      (hinside : StandsFor inside text) : StandsFor (b :: inside) (b :: text)
  | letter {c b : UInt8} {inside text : Bytes} (hc : (c, b) ∈ meanings)
      (hinside : StandsFor inside text) :
      StandsFor (Byte.backslash :: c :: inside) (b :: text)
  | other {c : UInt8} {inside text : Bytes} (hc : ∀ b, (c, b) ∉ meanings)
      (hinside : StandsFor inside text) :
      StandsFor (Byte.backslash :: c :: inside) (c :: text)
  | trailing : StandsFor [Byte.backslash] [Byte.backslash]

/-- Whether a text is made up of two equal quotes around some bytes. -/
def IsEnclosed (t inside : Bytes) : Prop :=
  ∃ quote ∈ [Byte.doubleQuote, Byte.apostrophe], t = quote :: (inside ++ [quote])

variable {t inside text : Bytes}

/-- An escape with a meaning stands for it. -/
theorem unescapeByte_of_mem {c b : UInt8} (h : (c, b) ∈ meanings) : unescapeByte c = b := by
  simp only [meanings, List.mem_cons, Prod.mk.injEq, List.not_mem_nil, or_false] at h
  obtain ⟨rfl, rfl⟩ | ⟨rfl, rfl⟩ | ⟨rfl, rfl⟩ := h
  · rfl
  · rfl
  · rfl

/-- An escape without a meaning of its own stands for its byte. -/
theorem unescapeByte_of_notMem {c : UInt8} (h : ∀ b, (c, b) ∉ meanings) : unescapeByte c = c := by
  have hother : ∀ pair ∈ meanings, (c == pair.1) = false := by
    intro pair hmem
    rw [beq_eq_false_iff_ne]
    rintro rfl
    exact h pair.2 hmem
  simp only [meanings, List.forall_mem_cons] at hother
  obtain ⟨hn, hr, ht, -⟩ := hother
  simp only [unescapeByte, hn, hr, ht, Bool.false_eq_true, if_false]

/-- A byte that is no backslash stands for itself. -/
theorem unescape_cons {b : UInt8} (hb : b ≠ Byte.backslash) (inside : Bytes) :
    unescape (b :: inside) = b :: unescape inside := by
  cases inside with
  | nil => rfl
  | cons c rest => rw [unescape, if_neg (by simpa using hb)]

/-- The inside of a literal stands for what it is read as. -/
theorem standsFor_unescape (inside : Bytes) : StandsFor inside (unescape inside) := by
  induction inside using unescape.induct with
  | case1 => exact .nil
  | case2 b =>
    rw [unescape]
    by_cases hb : b = Byte.backslash
    · rw [hb]
      exact .trailing
    · exact .plain hb .nil
  | case3 b c rest hb ih =>
    rw [unescape, if_pos hb, beq_iff_eq.mp hb]
    by_cases hletter : ∃ d, (c, d) ∈ meanings
    · obtain ⟨d, hd⟩ := hletter
      rw [unescapeByte_of_mem hd]
      exact .letter hd ih
    · have hother := not_exists.mp hletter
      rw [unescapeByte_of_notMem hother]
      exact .other hother ih
  | case4 b c rest hb ih =>
    rw [unescape, if_neg hb]
    exact .plain (by simpa using hb) ih

/-- The content of a literal is the one text that its inside stands for. -/
theorem standsFor_iff : StandsFor inside text ↔ unescape inside = text := by
  constructor
  · intro h
    induction h with
    | nil => rfl
    | plain hb _ ih => rw [unescape_cons hb, ih]
    | letter hc _ ih =>
      rw [unescape, if_pos (beq_self_eq_true _), unescapeByte_of_mem hc, ih]
    | other hc _ ih =>
      rw [unescape, if_pos (beq_self_eq_true _), unescapeByte_of_notMem hc, ih]
    | trailing => rfl
  · rintro rfl
    exact standsFor_unescape inside

/-- A text is read as a literal exactly when it is enclosed and its inside stands for what is
read. -/
theorem decode?_iff_standsFor :
    decode? t = some text ↔ ∃ inside, IsEnclosed t inside ∧ StandsFor inside text := by
  rw [decode?_eq_some_iff]
  constructor
  · rintro ⟨quote, hquote, inside, ht, hinside⟩
    exact ⟨inside, ⟨quote, hquote, ht⟩, standsFor_iff.mpr hinside⟩
  · rintro ⟨inside, ⟨quote, hquote, ht⟩, hinside⟩
    exact ⟨quote, hquote, inside, ht, standsFor_iff.mp hinside⟩

/-- A text is a literal exactly when it is enclosed. -/
theorem isSome_decode?_iff : (decode? t).isSome = true ↔ ∃ inside, IsEnclosed t inside := by
  rw [Option.isSome_iff_exists]
  constructor
  · rintro ⟨text, htext⟩
    obtain ⟨inside, henclosed, -⟩ := decode?_iff_standsFor.mp htext
    exact ⟨inside, henclosed⟩
  · rintro ⟨inside, henclosed⟩
    exact ⟨_, decode?_iff_standsFor.mpr ⟨inside, henclosed, standsFor_unescape inside⟩⟩

end Quoted

/-! ## The values of literals -/

namespace Operand

/-- What the text of a literal means: its content when it is quoted, what it says when it is one of
four words, and otherwise a number: the integer when it is the writing of one that has a word, and
else the number that it is rounded to. -/
inductive Means : Bytes → Json → Prop
  | quoted {t inside text : Bytes} (ht : Quoted.IsEnclosed t inside)
      (hinside : Quoted.StandsFor inside text) : Means t (.str text)
  | true : Means (ascii "true") (.bool true)
  | false : Means (ascii "false") (.bool false)
  | nil : Means (ascii "nil") .null
  | null : Means (ascii "null") .null
  | integer (written : WrittenInteger) (hrange : -2 ^ 63 ≤ written.value ∧ written.value < 2 ^ 63) :
      Means written.text (.int written.value)
  | number {t : Bytes} (hplain : t ∈ Numeral.plain.matches')
      (hno : ∀ written : WrittenInteger, written.text = t →
        ¬ (-2 ^ 63 ≤ written.value ∧ written.value < 2 ^ 63)) :
      Means t (.float (Numeral.rounded t))

variable {s t : Bytes} {value : Json}

/-- The literal of a plain numeral is the word that it holds, and else the number it is rounded
to. -/
theorem literal_decimal (written : WrittenDecimal) (h : written.text = s.strip) :
    (∀ n, Numeral.word? written.text = some n → (parse s).literal = .int n.toInt) ∧
      (Numeral.word? written.text = none →
        (parse s).literal = .float (Numeral.rounded written.text)) := by
  have hdecode : Quoted.decode? s.strip = none := by
    rw [← h]
    exact Numeral.decode?_signed written.exists_body_eq_cons written.negative
  have htext : (parse s).text = written.text := by rw [parse_of_decode?_eq_none hdecode, h]
  have hquoted : (parse s).isQuoted = false := by rw [parse_of_decode?_eq_none hdecode]
  have hplain : Numeral.isPlain (parse s).text = true := by
    rw [htext]
    exact written.isPlain_text
  rw [← htext]
  exact literal_of_isPlain hquoted hplain

/-- An operand is static exactly when it is a literal, a numeral or a constant word. -/
theorem isStatic_parse_iff :
    (parse s).isStatic = true ↔ (∃ inside, Quoted.IsEnclosed s.strip inside) ∨
      s.strip ∈ Numeral.plain.matches' ∨
        s.strip ∈ [ascii "true", ascii "false", ascii "nil", ascii "null"] := by
  rw [← Quoted.isSome_decode?_iff, ← Numeral.isPlain_iff, ← isConstantWord_iff]
  cases hdecode : Quoted.decode? s.strip with
  | some text => simp [parse_of_decode?_eq_some hdecode]
  | none => simp [parse_of_decode?_eq_none hdecode]

/-! ### The value is what the text means -/

/-- A numeral means what it is read as. -/
theorem means_literal_of_isPlain {operand : Operand} (hquoted : operand.isQuoted = false)
    (hplain : Numeral.isPlain operand.text = true) : Means operand.text operand.literal := by
  obtain ⟨hinteger, hfloat⟩ := literal_of_isPlain hquoted hplain
  cases hword : Numeral.word? operand.text with
  | some n =>
    obtain ⟨written, htext, hvalue⟩ := (Numeral.word?_eq_some_iff hplain).mp hword
    have hrange := (Word.fits_iff _).mp (Word.fits_toInt n)
    rw [hinteger n hword, ← htext, ← hvalue]
    exact .integer written (by rwa [hvalue])
  | none =>
    rw [hfloat hword]
    refine .number (Numeral.isPlain_iff.mp hplain) fun written htext hrange => ?_
    have hfits := (Numeral.word?_eq_none_iff hplain).mp hword written htext
    rw [(Word.fits_iff _).mpr hrange] at hfits
    cases hfits

/-- A constant word means what it is read as. -/
theorem means_literal_of_isConstantWord {operand : Operand} (hquoted : operand.isQuoted = false)
    (hword : isConstantWord operand.text = true) : Means operand.text operand.literal := by
  have hcases := isConstantWord_iff.mp hword
  obtain ⟨text, isStatic, isQuoted⟩ := operand
  subst hquoted
  simp only [List.mem_cons, List.not_mem_nil, or_false] at hcases
  obtain rfl | rfl | rfl | rfl := hcases
  · exact .true
  · exact .false
  · exact .nil
  · exact .null

/-- A static operand means its literal. -/
theorem means_literal (hstatic : (parse s).isStatic = true) : Means s.strip (parse s).literal := by
  cases hdecode : Quoted.decode? s.strip with
  | some text =>
    obtain ⟨inside, henclosed, hinside⟩ := Quoted.decode?_iff_standsFor.mp hdecode
    rw [parse_of_decode?_eq_some hdecode]
    exact .quoted henclosed hinside
  | none =>
    rw [parse_of_decode?_eq_none hdecode] at hstatic ⊢
    obtain hplain | hword := Bool.or_eq_true_iff.mp hstatic
    · exact @means_literal_of_isPlain ⟨s.strip, _, false⟩ rfl hplain
    · exact @means_literal_of_isConstantWord ⟨s.strip, _, false⟩ rfl hword

/-- What a static operand means is its literal. -/
theorem literal_of_means (h : Means s.strip value) : (parse s).literal = value := by
  generalize ht : s.strip = t at h
  cases h with
  | quoted henclosed hinside =>
    rw [← ht] at henclosed
    rw [parse_of_decode?_eq_some (Quoted.decode?_iff_standsFor.mpr ⟨_, henclosed, hinside⟩)]
    rfl
  | true | false | nil | null =>
    rw [parse, ht]
    rfl
  | integer written hrange =>
    have hfits := (Word.fits_iff _).mpr hrange
    have hword : Numeral.word? written.text = some (Int64.ofInt written.value) := by
      rw [written.word?_text, Word.ofInt?, if_pos hfits]
    rw [← written.text_toDecimal] at ht hword
    rw [(literal_decimal written.toDecimal ht.symm).1 _ hword, Word.toInt_ofInt_of_fits hfits]
  | number hplain hno =>
    obtain ⟨written, rfl⟩ := Numeral.mem_plain.mp hplain
    have hword : Numeral.word? written.text = none := by
      refine (Numeral.word?_eq_none_iff written.isPlain_text).mpr fun integer htext => ?_
      rw [Bool.eq_false_iff, ne_eq, Word.fits_iff]
      exact hno integer htext
    exact (literal_decimal written ht.symm).2 hword

/-- The literal of a static operand is the one value that it means. -/
theorem literal_eq_iff (hstatic : (parse s).isStatic = true) :
    (parse s).literal = value ↔ Means s.strip value := by
  constructor
  · rintro rfl
    exact means_literal hstatic
  · exact literal_of_means

/-- Operands are classified by their grammar. What passes for a plain numeral is a regular language.
An operand is a literal when its text, without the blanks around it, is enclosed in quotes, is a
plain numeral or is one of four words, and is else the path that its text is. The value of a literal
is what its text means and nothing else: a string for a text in quotes only, a truth value or null
for a word only, an integer for the writing of one in range only, and a floating point number for
every other plain numeral. -/
theorem parse_by_grammar (s : Bytes) :
    (Numeral.isPlain s.strip = true ↔ s.strip ∈ Numeral.plain.matches') ∧
    ((parse s).isStatic = true ↔ (∃ inside, Quoted.IsEnclosed s.strip inside) ∨
      s.strip ∈ Numeral.plain.matches' ∨
        s.strip ∈ [ascii "true", ascii "false", ascii "nil", ascii "null"]) ∧
    ((parse s).isStatic = false → parse s = { text := s.strip }) ∧
    ((parse s).isStatic = true → ∀ value, (parse s).literal = value ↔ Means s.strip value) := by
  refine ⟨Numeral.isPlain_iff, isStatic_parse_iff, parse_of_isStatic_eq_false, ?_⟩
  intro hstatic value
  exact literal_eq_iff hstatic

/-- A literal with a quote of its kind in it, an integer below the least word, and a path. -/
theorem parse_by_grammar_kinds :
    ((parse (ascii " 'it\\'s'")).isStatic = true ∧
      Means (ascii "'it\\'s'") (.str (ascii "it's"))) ∧
    ((parse (ascii "-9223372036854775809 ")).isStatic = true ∧
      Means (ascii "-9223372036854775809") (.float ⟨0xc3e0000000000000⟩)) ∧
    ((parse (ascii " x.y ")).isStatic = false ∧
      parse (ascii " x.y ") = { text := ascii "x.y" }) := by
  obtain ⟨-, -, -, hquoted⟩ := parse_by_grammar (ascii " 'it\\'s'")
  obtain ⟨-, -, -, hnumber⟩ := parse_by_grammar (ascii "-9223372036854775809 ")
  obtain ⟨-, -, hpath, -⟩ := parse_by_grammar (ascii " x.y ")
  refine ⟨⟨rfl, ?_⟩, ⟨rfl, ?_⟩, rfl, hpath rfl⟩
  · exact (hquoted rfl _).mp rfl
  · exact (hnumber rfl _).mp rfl

end Operand

end Stencil
