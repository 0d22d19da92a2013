import Stencil.Builtins
import Stencil.Proofs.Json.Strict
import Stencil.Proofs.Render.Literal
import Stencil.Proofs.Render.Sides
import Stencil.Proofs.Render.Twin

/-!
# Literals and their values

A condition compares a variable with the text of a literal; a variable that is bound to the literal
is compared by the text of its value. The two texts are the same for a quoted literal, for the words
for truth values, and for a number that is written as its value is. Otherwise it takes a side that
does not see the difference (`Comparison.evaluate_literal`): the text of the value of a word for
null is empty, and that of a number has another form.
-/

set_option autoImplicit false

namespace Stencil

/-! ## Texts on one side of two others -/

/-- Whether a text is neither of two texts, when it is asked for equality with them, or stands
before both or behind both, when it is put in order with them. -/
def Operator.IsBeside (op : Operator) (p s t : Bytes) : Prop :=
  if op.IsEquality then p ≠ s ∧ p ≠ t
  else (s.precedes p = true ∧ t.precedes p = true) ∨ (p.precedes s = true ∧ p.precedes t = true)

namespace Operator

variable {op : Operator} {p s t : Bytes}

/-- Whether the sides are equal does not matter to an order. -/
theorem holds_congr (hop : ¬ op.IsEquality) (same same' before after : Bool) :
    op.holds same before after = op.holds same' before after := by
  cases op with
  | equal => exact absurd (.inl rfl) hop
  | notEqual => exact absurd (.inr rfl) hop
  | _ => rfl

/-- Beside both texts a text compares alike with either. -/
theorem IsBeside.holdsText_eq (h : op.IsBeside p s t) : op.holdsText p s = op.holdsText p t := by
  rw [IsBeside] at h
  by_cases hop : op.IsEquality
  · rw [if_pos hop] at h
    have hs : (p == s) = false := beq_eq_false_iff_ne.mpr h.1
    have ht : (p == t) = false := beq_eq_false_iff_ne.mpr h.2
    obtain rfl | rfl := hop <;> simp only [holdsText, holds, hs, ht]
  · rw [if_neg hop] at h
    obtain ⟨hbefore, hafter⟩ :
        p.precedes s = p.precedes t ∧ s.precedes p = t.precedes p := by
      obtain ⟨hs, ht⟩ | ⟨hs, ht⟩ := h
      · exact ⟨by rw [Bytes.precedes_asymm hs, Bytes.precedes_asymm ht], by rw [hs, ht]⟩
      · exact ⟨by rw [hs, ht], by rw [Bytes.precedes_asymm hs, Bytes.precedes_asymm ht]⟩
    rw [holdsText, holdsText, hbefore, hafter]
    exact holds_congr hop _ _ _ _

/-- A text is beside two texts when its first byte is behind theirs. -/
theorem isBeside_of_lt (op : Operator) {first a b : UInt8} {rest : Bytes} (ha : a < first)
    (hb : b < first) : op.IsBeside (first :: rest) (a :: s) (b :: t) := by
  rw [IsBeside]
  split
  · constructor
    · intro heq
      exact UInt8.ne_of_lt ha (List.cons.inj heq).1.symm
    · intro heq
      exact UInt8.ne_of_lt hb (List.cons.inj heq).1.symm
  · left
    simp [Bytes.precedes, ha, hb]

end Operator

/-! ## Literals -/

namespace Operand

/-- The text of the value of a literal. -/
def valueText [JsonLibrary] (operand : Operand) : Bytes := operand.literal.toText.toOption.getD []

/-- The text of a literal's value is what it is called. -/
theorem toText_literal [JsonLibrary] (operand : Operand) :
    operand.literal.toText = .ok operand.valueText := by
  obtain ⟨t, htext⟩ : ∃ t, operand.literal.toText = .ok t := by
    rw [literal]
    split_ifs
    · exact ⟨_, rfl⟩
    · exact ⟨_, rfl⟩
    · exact ⟨_, rfl⟩
    · exact ⟨_, rfl⟩
    · split <;> exact ⟨_, rfl⟩
    · exact ⟨_, rfl⟩
  rw [valueText, htext]
  rfl

variable {s : Bytes}

/-- A literal is quoted, a plain numeral, or a word. -/
theorem parse_cases (hstatic : (parse s).isStatic = true) :
    (parse s).isQuoted = true ∨ (parse s).isQuoted = false ∧
      (Numeral.isPlain (parse s).text = true ∨ isConstantWord (parse s).text = true) := by
  cases hdecode : Quoted.decode? s.strip with
  | some text =>
    rw [parse_of_decode?_eq_some hdecode]
    exact .inl rfl
  | none =>
    rw [parse_of_decode?_eq_none hdecode] at hstatic ⊢
    exact .inr ⟨rfl, Bool.or_eq_true_iff.mp hstatic⟩

/-- A quoted literal stands for its own text. -/
theorem valueText_of_isQuoted [JsonLibrary] {operand : Operand}
    (hquoted : operand.isQuoted = true) :
    operand.valueText = operand.text := by
  rw [valueText, literal, if_pos hquoted]
  rfl

/-- The words for truth values are their texts. The text of null is empty. -/
theorem valueText_of_isConstantWord [JsonLibrary] {operand : Operand}
    (hquoted : operand.isQuoted = false) (hword : isConstantWord operand.text = true) :
    operand.valueText = operand.text ∨
      (operand.text ∈ [ascii "nil", ascii "null"] ∧ operand.valueText = []) := by
  have hcases : operand.text = ascii "true" ∨ operand.text = ascii "false" ∨
      operand.text = ascii "nil" ∨ operand.text = ascii "null" := by
    simpa using isConstantWord_iff.mp hword
  rw [valueText, literal, if_neg (by simp [hquoted])]
  obtain htext | htext | htext | htext := hcases
  · rw [htext]
    exact .inl rfl
  · rw [htext]
    exact .inl rfl
  · rw [htext]
    exact .inr ⟨by decide, rfl⟩
  · rw [htext]
    exact .inr ⟨by decide, rfl⟩

section Numeral

variable {operand : Operand} (hquoted : operand.isQuoted = false)
  (hplain : Numeral.isPlain operand.text = true)
include hplain

/-- No blank stands at an end of a numeral. -/
theorem strip_of_isPlain : operand.text.strip = operand.text := by
  obtain ⟨written, htext⟩ := WrittenDecimal.exists_of_isPlain hplain
  rw [← htext]
  exact written.strip_text

/-- What a plain numeral is rounded to is what it is read as, unless that is out of the range. -/
theorem rounded_of_real? {y : Binary64} (hread : Numeral.real? operand.text = some y) :
    Numeral.rounded operand.text = y := by
  rw [Numeral.real?, strip_of_isPlain hplain] at hread
  rw [Numeral.rounded]
  split at hread
  · rename_i reading hreal
    rw [hreal]
    split at hread
    · cases hread
    · exact Option.some.inj hread
  · cases hread

include hquoted

/-- The value of a plain numeral is its integer, or the number it is rounded to. -/
theorem literal_of_isPlain :
    (∀ n, Numeral.word? operand.text = some n → operand.literal = .int n.toInt) ∧
      (Numeral.word? operand.text = none →
        operand.literal = .float (Numeral.rounded operand.text)) := by
  have hother : ∀ word, Numeral.isPlain word = false → (operand.text == word) = false := by
    intro word hword
    rw [beq_eq_false_iff_ne]
    rintro rfl
    rw [hplain] at hword
    cases hword
  have hnumeral : ∀ found, (Numeral.integer? operand.text >>= Word.ofInt?) = found →
      operand.literal =
        found.elim (.float (Numeral.rounded operand.text)) (fun n => .int n.toInt) := by
    intro found hfound
    cases found <;>
      rw [literal, if_neg (by simp [hquoted]), if_neg (by simp [hother (ascii "true") rfl]),
        if_neg (by simp [hother (ascii "false") rfl]),
        if_neg (by simp [hother (ascii "nil") rfl, hother (ascii "null") rfl]), if_pos hplain,
        hfound] <;>
      rfl
  rw [Numeral.word?, strip_of_isPlain hplain]
  exact ⟨fun n hword => hnumeral (some n) hword, fun hword => hnumeral none hword⟩

/-- A plain numeral in the range is the number that its text holds. -/
theorem exists_number?_literal {y : Binary64} (hread : Numeral.real? operand.text = some y) :
    ∃ x, operand.literal.number? = some x ∧ x.key = y.key := by
  obtain ⟨hinteger, hfloat⟩ := literal_of_isPlain hquoted hplain
  cases hword : Numeral.word? operand.text with
  | some n =>
    obtain ⟨z, hread', -, hkey⟩ := Numeral.real?_of_word? hword
    cases hread.symm.trans hread'
    exact ⟨Binary64.ofInt n.toInt, by rw [hinteger n hword]; rfl, hkey.symm⟩
  | none =>
    exact ⟨Numeral.rounded operand.text, by rw [hfloat hword]; rfl,
      congrArg Binary64.key (rounded_of_real? hplain hread)⟩

end Numeral

end Operand

/-! ## Texts of one number -/

/-- Whether a text begins as numbers do: its first byte is no letter, bracket or brace. -/
def Numeral.Begins (t : Bytes) : Prop := ∃ first rest, t = first :: rest ∧ first < 0x3a

namespace Numeral

/-- A text that begins with a minus sign or a digit begins as numbers do. -/
theorem begins_of_sign_or_digit {t : Bytes}
    (h : ∃ first rest, t = first :: rest ∧ (first = Byte.minus ∨ Byte.isDigit first = true)) :
    Begins t := by
  obtain ⟨first, rest, htext, rfl | hdigit⟩ := h
  · exact ⟨_, rest, htext, by decide⟩
  · exact ⟨first, rest, htext, Byte.forall_of_isDigit (fun b => b < 0x3a) (by decide) hdigit⟩

/-- Whether two texts hold the same number, and the same integer if the numbers nearest to the
integers that they hold do not tell. -/
structure SameNumber (s t : Bytes) : Prop where
  real : ∃ x y, real? s = some x ∧ real? t = some y ∧ x.key = y.key
  word : word? s = word? t ∨
    word? s = none ∧ ∀ value : Json, value.IsToldFrom t
  begins : Begins s ∧ Begins t

end Numeral

/-- The text of a number that is read back begins as numbers do. -/
theorem Json.begins_toText [JsonLibrary] [LawfulFloatText] {value : Json} {x : Binary64} {t : Bytes}
    (hnumber : value.number? = some x) (hreadable : value.IsReadable)
    (htext : value.toText = .ok t) : Numeral.Begins t := by
  have hinteger : ∀ n, Numeral.Begins (Decimal.ofInt n) := by
    intro n
    rw [← WrittenInteger.text_ofInt]
    exact Numeral.begins_of_sign_or_digit (WrittenInteger.exists_text_eq_cons _)
  cases value with
  | int n =>
    cases htext
    exact hinteger n
  | float x =>
    cases htext
    rw [floatText]
    split
    · exact hinteger _
    · obtain ⟨written, hwritten, -⟩ := LawfulFloatText.exists_printFloat hreadable.1
      rw [← hwritten]
      exact Numeral.begins_of_sign_or_digit written.exists_text_eq_cons
  | _ => cases hnumber

/-- The text of a plain numeral in the range and the text of its value hold the same number. -/
theorem Operand.sameNumber_valueText [JsonLibrary] [LawfulFloatText] {operand : Operand}
    (hquoted : operand.isQuoted = false) (hplain : Numeral.isPlain operand.text = true)
    (hread : Numeral.real? operand.text ≠ none) (hreadable : operand.literal.IsReadable) :
    Numeral.SameNumber operand.text operand.valueText := by
  obtain ⟨y, hy⟩ := Option.ne_none_iff_exists'.mp hread
  obtain ⟨x, hx, hkey⟩ := exists_number?_literal hquoted hplain hy
  have htext := operand.toText_literal
  obtain ⟨z, hz, -, hkey'⟩ := Json.exists_real?_toText hx hreadable htext
  refine ⟨⟨y, z, hy, hz, by rw [hkey', hkey]⟩, ?_, ?_, Json.begins_toText hx hreadable htext⟩
  · obtain ⟨hinteger, hfloat⟩ := literal_of_isPlain hquoted hplain
    cases hword : Numeral.word? operand.text with
    | some n =>
      rw [hinteger n hword] at htext
      have hvalue : Decimal.ofInt n.toInt = operand.valueText := Except.ok.inj htext
      rw [← hvalue, Json.word?_ofInt, Word.ofInt?_eq_some_iff.mpr rfl]
      exact .inl rfl
    | none =>
      rw [hfloat hword] at htext
      have hvalue : Json.floatText _ = operand.valueText := Except.ok.inj htext
      rw [← hvalue]
      exact .inr ⟨rfl, fun value => Json.isToldFrom_floatText value _⟩
  · obtain ⟨written, hwritten⟩ := WrittenDecimal.exists_of_isPlain hplain
    rw [← hwritten]
    exact Numeral.begins_of_sign_or_digit written.exists_text_eq_cons

namespace Json

variable [JsonLibrary] {value : Json} {s t : Bytes} {op : Operator}

/-- Null is compared with two texts alike when it equals both or neither. -/
theorem compareScalar_null_congr (h : op.IsEquality →
    (s ∈ [[], ascii "nil", ascii "null"] ↔ t ∈ [[], ascii "nil", ascii "null"])) :
    compareScalar .null op s = compareScalar .null op t := by
  have hmem : ∀ t : Bytes, (t.isEmpty || t == ascii "nil" || t == ascii "null") =
      decide (t ∈ [[], ascii "nil", ascii "null"]) := by
    intro t
    rw [Bool.eq_iff_iff]
    simp [or_assoc]
  by_cases hop : op.IsEquality
  · have hsame := h hop
    obtain rfl | rfl := hop
    · simp only [compareScalar, hmem, hsame]
    · simp only [compareScalar, hmem, hsame]
  · cases op with
    | equal => exact absurd (.inl rfl) hop
    | notEqual => exact absurd (.inr rfl) hop
    | _ => rfl

/-- A number is compared alike with two texts of one number. -/
theorem compareScalar_congr_of_number? {x : Binary64} (hnumber : value.number? = some x)
    (h : Numeral.SameNumber s t) (op : Operator) :
    value.compareScalar op s = value.compareScalar op t := by
  obtain ⟨y, z, hs, ht, hkey⟩ := h.real
  obtain hword | ⟨hword, htold⟩ := h.word
  · have hcompare : ∀ p, compareNumber x p op s = compareNumber x p op t := by
      intro p
      rw [compareNumber, compareNumber, hs, ht]
      exact op.holdsReal_congr rfl hkey
    cases value with
    | int n =>
      cases hnumber
      rw [compareScalar, compareScalar, hword, hcompare]
    | float y =>
      cases hnumber
      rw [compareScalar, compareScalar, hcompare]
    | _ => cases hnumber
  · have htold' : value.IsToldFrom s := by
      intro n m _ _ hm
      rw [hword] at hm
      cases hm
    rw [compareScalar_of_real? hnumber hs htold', compareScalar_of_real? hnumber ht (htold value),
      op.holdsReal_congr rfl hkey]

/-- The text of a truth value or of a container begins behind all numbers. -/
theorem exists_toText_eq_cons (hvalue : (∃ truth, value = .bool truth) ∨ value.shape ≠ .scalar)
    (htext : value.toText = .ok t) : ∃ first rest, t = first :: rest ∧ 0x3a < first := by
  cases value with
  | bool truth =>
    cases htext
    cases truth
    · exact ⟨_, _, rfl, by decide⟩
    · exact ⟨_, _, rfl, by decide⟩
  | arr items =>
    cases hitems : printItems items with
    | error fault => simp [toText, print, hitems, bind, Except.bind] at htext
    | ok text =>
      simp only [toText, print, hitems] at htext
      cases htext
      exact ⟨_, _, rfl, by decide⟩
  | obj fields =>
    cases hfields : printFields fields with
    | error fault => simp [toText, print, hfields, bind, Except.bind] at htext
    | ok text =>
      simp only [toText, print, hfields] at htext
      cases htext
      exact ⟨_, _, rfl, by decide⟩
  | _ => simp [shape] at hvalue

/-- Such a text is beside two texts of one number. -/
theorem isBeside_of_sameNumber {p : Bytes}
    (hvalue : (∃ truth, value = .bool truth) ∨ value.shape ≠ .scalar)
    (htext : value.toText = .ok p) (h : Numeral.SameNumber s t) (op : Operator) :
    op.IsBeside p s t := by
  obtain ⟨first, rest, rfl, hfirst⟩ := exists_toText_eq_cons hvalue htext
  obtain ⟨⟨a, s, rfl, ha⟩, b, t, rfl, hb⟩ := h.begins
  exact op.isBeside_of_lt (UInt8.lt_trans ha hfirst) (UInt8.lt_trans hb hfirst)

end Json

/-- A side that is compared as a text with two texts is compared with them alike when its text is
beside them. -/
theorem Variable.IsTextual.congr [JsonLibrary] {a : Variable} {op : Operator} {s t : Bytes}
    (hs : a.IsTextual op s) (ht : a.IsTextual op t)
    (hbeside : ∀ p, a.value.toText = .ok p → op.IsBeside p s t) :
    a.inspector.compare a.value op s = a.inspector.compare a.value op t := by
  rw [IsTextual] at hs ht
  rw [hs, ht]
  cases htext : a.value.toText with
  | error fault => rfl
  | ok p => exact congrArg Except.ok (hbeside p htext).holdsText_eq

/-! ## Sides that do not see the difference -/

/-- Whether a value is compared with numbers as a number: a number always, and a string that holds
one when it is put in order. -/
def Json.IsNumeric (value : Json) (op : Operator) : Prop :=
  value.number? ≠ none ∨ ¬ op.IsEquality ∧ ∃ s, value = .str s ∧ Numeral.real? s ≠ none

/-- Whether a side is compared with the text of a literal as it is with the text of its value,
though the two differ. -/
structure Variable.IsIndifferent [JsonLibrary] (op : Operator) (a : Variable) (literal : Operand) :
    Prop where
  builtin : ∃ kind, (kind, a.inspector) ∈ Inspector.builtins
  /-- A scalar is not counted as a container. -/
  fitting : a.IsFitting
  /-- The text of the value of a number is read back. -/
  readable : Numeral.real? literal.text ≠ none → literal.literal.IsReadable
  /-- Of a literal that holds no number, the text of the value holds none either, when that matters
  to the side. -/
  unread : Numeral.real? literal.text = none → a.value.IsNumeric op →
    Numeral.real? literal.valueText = none
  /-- Null does not equal one of the two texts only. -/
  null : a.value = .null → op.IsEquality →
    (literal.text ∈ [[], ascii "nil", ascii "null"] ↔
      literal.valueText ∈ [[], ascii "nil", ascii "null"])
  /-- A string is compared with a number as a number, or it is beside the two texts. -/
  string : Numeral.real? literal.text ≠ none → ∀ s, a.value = .str s →
    a.value.IsNumeric op ∨ op.IsBeside s literal.text literal.valueText
  /-- A container is not compared by its size with one of the two texts only. -/
  container : a.value.shape ≠ .scalar → a.inspector.name ≠ Shape.scalar.name →
    Numeral.word? literal.text = none → Numeral.word? literal.valueText = none
  /-- What is compared as a text is beside the two texts. -/
  text : Numeral.real? literal.text = none → a.value ≠ .null → ∀ p, a.value.toText = .ok p →
    op.IsBeside p literal.text literal.valueText

/-- A scalar that is neither null nor numeric is compared as a text with every text. -/
theorem Json.comparesAsText_of_not_isNumeric [JsonLibrary] {value : Json} {op : Operator}
    (hshape : value.shape = .scalar) (hnull : value ≠ .null) (hnumeric : ¬ value.IsNumeric op)
    (t : Bytes) : value.ComparesAsText op t := by
  obtain hvalue | (⟨truth, rfl⟩ | hcontainer) | ⟨x, hx⟩ | ⟨s, rfl⟩ := value.kind_cases
  · exact absurd hvalue hnull
  · exact comparesAsText_bool truth op t
  · exact absurd hshape hcontainer
  · refine absurd (.inl ?_) hnumeric
    rw [hx]
    exact Option.some_ne_none x
  · by_cases hop : op.IsEquality
    · exact comparesAsText_str (.inr (.inr hop))
    · refine comparesAsText_str (.inl ?_)
      by_contra hread
      exact hnumeric (.inr ⟨hop, s, rfl, hread⟩)

namespace Variable.IsIndifferent

variable [JsonLibrary] {op : Operator} {a : Variable} {literal : Operand}

/-- Null does not tell the literal from its value. -/
theorem compare_eq_of_null (h : a.IsIndifferent op literal) (hnull : a.value = .null) :
    a.inspector.compare a.value op literal.text =
      a.inspector.compare a.value op literal.valueText := by
  have hscalar : ∀ t, a.inspector.compare a.value op t =
      Failure.ofJson (Json.compareScalar .null op t) := by
    intro t
    rw [compare_of_scalar h.builtin h.fitting (by rw [hnull]; rfl), hnull]
  rw [hscalar, hscalar, Json.compareScalar_null_congr (h.null hnull)]

/-- A literal that holds no number is a text, and so is the text of its value to the side. -/
theorem compare_eq_of_real?_eq_none (h : a.IsIndifferent op literal)
    (hread : Numeral.real? literal.text = none) :
    a.inspector.compare a.value op literal.text =
      a.inspector.compare a.value op literal.valueText := by
  by_cases hnull : a.value = .null
  · exact h.compare_eq_of_null hnull
  have hnone : ∀ {t}, Numeral.real? t = none → a.IsTextual op t :=
    fun hread => isTextual_of_real?_eq_none h.builtin h.fitting hnull hread
  have hvalue : a.IsTextual op literal.valueText := by
    by_cases hnumeric : a.value.IsNumeric op
    · exact hnone (h.unread hread hnumeric)
    by_cases hshape : a.value.shape = .scalar
    · exact isTextual_of_comparesAsText h.builtin h.fitting hshape
        (Json.comparesAsText_of_not_isNumeric hshape hnull hnumeric _)
    · exact isTextual_of_container h.builtin hshape fun hname =>
        h.container hshape hname (Json.word?_eq_none_of_real? hread)
  exact (hnone hread).congr hvalue (h.text hread hnull)

/-- A container is compared with both texts by its size or with both as a text. -/
theorem compare_eq_of_container (h : a.IsIndifferent op literal)
    (hshape : a.value.shape ≠ .scalar)
    (hsame : Numeral.SameNumber literal.text literal.valueText) :
    a.inspector.compare a.value op literal.text =
      a.inspector.compare a.value op literal.valueText := by
  have hbeside : ∀ p, a.value.toText = .ok p → op.IsBeside p literal.text literal.valueText :=
    fun p htext => Json.isBeside_of_sameNumber (.inr hshape) htext hsame op
  cases hword : Numeral.word? literal.text with
  | none =>
    exact (isTextual_of_container h.builtin hshape fun _ => hword).congr
      (isTextual_of_container h.builtin hshape fun hname => h.container hshape hname hword) hbeside
  | some n =>
    have hword' : Numeral.word? literal.valueText = some n := by
      obtain heq | ⟨hnone, -⟩ := hsame.word
      · rw [← heq, hword]
      · rw [hword] at hnone
        cases hnone
    by_cases hname : a.inspector.name = Shape.scalar.name
    · exact (isTextual_of_container h.builtin hshape fun hother => absurd hname hother).congr
        (isTextual_of_container h.builtin hshape fun hother => absurd hname hother) hbeside
    · have hsize : ∀ t, a.inspector.compare a.value op t =
          Failure.ofJson (a.value.compareContainer op t) := fun t =>
        ((compare_of_container h.builtin hshape).resolve_left fun hscalar => hname hscalar.1).2
      rw [hsize, hsize, Json.compareContainer, Json.compareContainer, hword, hword']

/-- A string does not tell a number from the text of its value. -/
theorem compare_eq_of_str (h : a.IsIndifferent op literal) {s : Bytes} (hs : a.value = .str s)
    (hread : Numeral.real? literal.text ≠ none)
    (hsame : Numeral.SameNumber literal.text literal.valueText) :
    a.inspector.compare a.value op literal.text =
      a.inspector.compare a.value op literal.valueText := by
  have hshape : a.value.shape = .scalar := by
    rw [hs]
    rfl
  by_cases hnumeric : a.value.IsNumeric op
  · obtain ⟨hop, l, hl⟩ : ¬ op.IsEquality ∧ ∃ l, Numeral.real? s = some l := by
      rw [hs] at hnumeric
      obtain hnumber | ⟨hop, _, heq, hl⟩ := hnumeric
      · exact absurd rfl hnumber
      · cases heq
        exact ⟨hop, Option.ne_none_iff_exists'.mp hl⟩
    obtain ⟨x, y, hx, hy, hkey⟩ := hsame.real
    rw [compare_of_scalar h.builtin h.fitting hshape, compare_of_scalar h.builtin h.fitting hshape,
      hs, Json.compareScalar_str_of_real? hl hx hop, Json.compareScalar_str_of_real? hl hy hop,
      op.holdsReal_congr rfl hkey]
  · have hnull : a.value ≠ .null := by
      rw [hs]
      intro hnull
      cases hnull
    have htext : ∀ t, a.IsTextual op t := fun t =>
      isTextual_of_comparesAsText h.builtin h.fitting hshape
        (Json.comparesAsText_of_not_isNumeric hshape hnull hnumeric t)
    refine (htext _).congr (htext _) fun p hp => ?_
    rw [hs] at hp
    cases hp
    exact (h.string hread s hs).resolve_left hnumeric

/-- A literal that is a number is the number that the text of its value holds. -/
theorem compare_eq_of_sameNumber (h : a.IsIndifferent op literal)
    (hread : Numeral.real? literal.text ≠ none)
    (hsame : Numeral.SameNumber literal.text literal.valueText) :
    a.inspector.compare a.value op literal.text =
      a.inspector.compare a.value op literal.valueText := by
  obtain hnull | (⟨truth, htruth⟩ | hshape) | ⟨x, hx⟩ | ⟨s, hs⟩ := a.value.kind_cases
  · exact h.compare_eq_of_null hnull
  · have htext : ∀ t, a.IsTextual op t := by
      intro t
      refine isTextual_of_comparesAsText h.builtin h.fitting (by rw [htruth]; rfl) ?_
      rw [htruth]
      exact Json.comparesAsText_bool truth op t
    exact (htext _).congr (htext _) fun p htext =>
      Json.isBeside_of_sameNumber (.inl ⟨truth, htruth⟩) htext hsame op
  · exact h.compare_eq_of_container hshape hsame
  · have hshape := Json.shape_of_number? hx
    rw [compare_of_scalar h.builtin h.fitting hshape, compare_of_scalar h.builtin h.fitting hshape,
      Json.compareScalar_congr_of_number? hx hsame]
  · exact h.compare_eq_of_str hs hread hsame

/-- A side that is indifferent to a literal is compared with it as with the text of its value. -/
theorem compare_eq [LawfulFloatText] {s : Bytes} (hstatic : (Operand.parse s).isStatic = true)
    (h : a.IsIndifferent op (Operand.parse s)) :
    a.inspector.compare a.value op (Operand.parse s).text =
      a.inspector.compare a.value op (Operand.parse s).valueText := by
  by_cases hread : Numeral.real? (Operand.parse s).text = none
  · exact h.compare_eq_of_real?_eq_none hread
  obtain hquoted | ⟨hquoted, hplain | hword⟩ := Operand.parse_cases hstatic
  · rw [Operand.valueText_of_isQuoted hquoted]
  · exact h.compare_eq_of_sameNumber hread
      (Operand.sameNumber_valueText hquoted hplain hread (h.readable hread))
  · obtain hsame | ⟨hmem, -⟩ := Operand.valueText_of_isConstantWord hquoted hword
    · rw [hsame]
    · have hnone : ∀ word ∈ [ascii "nil", ascii "null"], Numeral.real? word = none := by decide
      exact absurd (hnone _ hmem) hread

end Variable.IsIndifferent

/-! ## Binding a literal -/

/-- A variable that is bound under another name leaves a side as it was. -/
theorem Context.side_assign_of_ne [JsonLibrary] (context : Context) {name path : Bytes}
    (value : Json) (inspector : Inspector) (h : name ≠ Variable.rootName path) :
    (context.assign name value inspector).side path = context.side path := by
  have hlookUp : Variable.lookUp (context.assign name value inspector).bindings path =
      Variable.lookUp context.bindings path :=
    Variable.lookUp_congr (Table.find?_insert_of_ne _ _ (Ne.symm h))
  rw [side, side, hlookUp]

/-- A variable that was assigned is the side that its name stands for. -/
theorem Context.side_assign_self [JsonLibrary] (context : Context) {name : Bytes} (value : Json)
    (inspector : Inspector) (hname : Byte.dot ∉ name) :
    (context.assign name value inspector).side name = { value, inspector } := by
  have hfind : (context.assign name value inspector).bindings.find? name =
      some { value, inspector } := Table.find?_insert_self _ _ _
  rw [side, Variable.lookUp_of_notMem _ hname, hfind]
  rfl

/-- A comparison with a literal means the comparison with a variable that is bound to it, when the
value of the literal is written as the literal is, or when the side that it is compared with does
not see the difference. -/
theorem Comparison.evaluate_literal [JsonLibrary] [LawfulFloatText] {registry : Registry}
    {context : Context}
    (hjson : registry.inspectors.find? Inspector.json.name = some Inspector.json) {x : Operand}
    (hdynamic : x.isStatic = false) {s : Bytes} (hstatic : (Operand.parse s).isStatic = true)
    {op : Operator} (hop : op ∈ Operator.comparisons) {y : Bytes} (hname : Byte.dot ∉ y)
    (hfresh : y ≠ Variable.rootName x.text)
    (h : (Operand.parse s).valueText = (Operand.parse s).text ∨
      (context.side x.text).IsIndifferent op (Operand.parse s)) :
    let rendered := Binding.render registry { target := y, source := Operand.parse s } context
    rendered.result = .ok .done ∧
      evaluate rendered.context { left := x, op, right := { text := y } } =
        evaluate context { left := x, op, right := Operand.parse s } := by
  have hknown : ∀ op ∈ Operator.comparisons, op ≠ .unknown := by decide
  have hcompare : (context.side x.text).inspector.compare (context.side x.text).value op
        (Operand.parse s).text =
      (context.side x.text).inspector.compare (context.side x.text).value op
        (Operand.parse s).valueText := by
    obtain hsame | hindifferent := h
    · rw [hsame]
    · exact hindifferent.compare_eq hstatic
  intro rendered
  have hrendered : rendered = _ := Binding.render_literal hjson context y hstatic
  rw [hrendered]
  refine ⟨rfl, ?_⟩
  rw [evaluate_of_isStatic hop hdynamic hstatic, hcompare, evaluate]
  simp only [hknown op hop, false_and, if_false, hdynamic, Bool.false_and, Bool.false_eq_true]
  rw [sideText_eq rfl, Context.side_assign_self context _ _ hname, Operand.toText_literal]
  show holdsAgainst (context.assign y (Operand.parse s).literal Inspector.json) x.text op
    (Operand.parse s).valueText = _
  rw [holdsAgainst_eq, Context.side_assign_of_ne context _ _ hfresh]

/-- A context in which `x` is a string. -/
def Context.ofString [JsonLibrary] (s : String) : Context :=
  { bindings := [(ascii "x", { value := .str (ascii s), inspector := .json })] }

open scoped JsonLibrary.Strict

/-- A string is put in order with a number in another writing than that of its value. -/
theorem Comparison.evaluate_literal_exponent :
    let context := Context.ofString "10"
    let literal := Operand.parse (ascii "1e2")
    let rendered :=
      Binding.render Registry.standard { target := ascii "y", source := literal } context
    (literal.isStatic = true ∧ (context.side (ascii "x")).IsIndifferent .less literal) ∧
      evaluate context { left := { text := ascii "x" }, op := .less, right := literal } = .ok true ∧
      evaluate rendered.context
        { left := { text := ascii "x" }, op := .less, right := { text := ascii "y" } } =
          .ok true := by
  intro context literal rendered
  have hten : Numeral.real? (ascii "10") = some ⟨0x4024000000000000⟩ := by decide +kernel
  have hhundred : Numeral.real? literal.text = some ⟨0x4059000000000000⟩ := by decide +kernel
  have hread : Numeral.real? literal.text ≠ none := by
    rw [hhundred]
    exact Option.some_ne_none _
  have hreadable : literal.literal.IsReadable := by
    refine ⟨?_, .inr ?_⟩
    · decide +kernel
    · decide +kernel
  have hindifferent : (context.side (ascii "x")).IsIndifferent .less literal := by
    refine ⟨⟨Inspector.json.name, .head _⟩, fun _ => ⟨by decide, by decide⟩, fun _ => hreadable,
      fun hnone => absurd hnone hread, fun hnull => ?_, fun _ s hs => ?_, fun hshape => ?_,
      fun hnone => absurd hnone hread⟩
    · cases hnull
    · cases hs
      exact .inl (.inr ⟨by decide, _, rfl, by rw [hten]; exact Option.some_ne_none _⟩)
    · exact absurd rfl hshape
  have hop : Operator.less ∈ Operator.comparisons := by decide
  have hliteral : evaluate context
      { left := { text := ascii "x" }, op := .less, right := literal } = .ok true := by
    have hcompare : (context.side (ascii "x")).value.compareScalar .less literal.text =
        .ok (Operator.less.holdsReal ⟨0x4024000000000000⟩ ⟨0x4059000000000000⟩) :=
      Json.compareScalar_str_of_real? hten hhundred (by decide)
    rw [evaluate_of_isStatic hop rfl rfl,
      Variable.compare_of_scalar hindifferent.builtin hindifferent.fitting rfl, hcompare]
    rfl
  have hname : Byte.dot ∉ ascii "y" := by decide
  have hfresh : ascii "y" ≠ Variable.rootName (ascii "x") := by decide
  have hjson : Registry.standard.inspectors.find? Inspector.json.name = some Inspector.json := rfl
  have hdynamic : ({ text := ascii "x" } : Operand).isStatic = false := rfl
  have hstatic : (Operand.parse (ascii "1e2")).isStatic = true := rfl
  have hvalue := evaluate_literal hjson hdynamic hstatic hop hname hfresh (.inr hindifferent)
  exact ⟨⟨hstatic, hindifferent⟩, hliteral, hvalue.2.trans hliteral⟩

/-- A string that is a word for null equals the word, but not the value of the word, whose text is
empty. -/
theorem Comparison.evaluate_literal_ne :
    let context := Context.ofString "nil"
    let literal := Operand.parse (ascii "nil")
    let rendered :=
      Binding.render Registry.standard { target := ascii "y", source := literal } context
    literal.isStatic = true ∧ Operator.equal ∈ Operator.comparisons ∧
      rendered.result = .ok .done ∧
      evaluate context { left := { text := ascii "x" }, op := .equal, right := literal } =
        .ok true ∧
      evaluate rendered.context
        { left := { text := ascii "x" }, op := .equal, right := { text := ascii "y" } } =
          .ok false := by
  intro context literal rendered
  exact ⟨rfl, by decide, rfl, rfl, rfl⟩

end Stencil
