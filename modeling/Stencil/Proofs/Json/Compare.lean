import Stencil.Inspector
import Stencil.Proofs.Json.FloatText
import Stencil.Proofs.Number.Comparison

/-!
# Values compared with texts

A number is compared with a text as a number when the text holds one
(`Json.compareScalar_of_real?`), and as a text otherwise (`Json.compareScalar_of_real?_eq_none`).
The text of a number holds the number, unless it is an infinity, what is not a number, or below the
normal numbers (`Json.exists_real?_toText`).
-/

set_option autoImplicit false

namespace Stencil

namespace Operator

/-- A swapped comparison holds of two things exactly when the comparison holds of them in the other
order. -/
theorem holds_swap (op : Operator) (same before after : Bool) :
    op.swap.holds same after before = op.holds same before after := by
  cases op <;> rfl

/-- A comparison of integers may be swapped. -/
theorem holdsInt_swap (op : Operator) (l r : Int) : op.swap.holdsInt r l = op.holdsInt l r := by
  rw [holdsInt, holdsInt, BEq.comm, holds_swap]

/-- A comparison of floating point numbers may be swapped. -/
theorem holdsReal_swap (op : Operator) (l r : Binary64) :
    op.swap.holdsReal r l = op.holdsReal l r := by
  have hsame : r.eq l = l.eq r := by
    rw [Binary64.eq, Binary64.eq, Bool.and_comm (!r.isNaN), BEq.comm (a := r.key)]
  rw [holdsReal, holdsReal, hsame, holds_swap]

/-- A comparison of texts may be swapped. -/
theorem holdsText_swap (op : Operator) (l r : Bytes) :
    op.swap.holdsText r l = op.holdsText l r := by
  rw [holdsText, holdsText, BEq.comm, holds_swap]

/-- A comparison of numbers depends on their places alone. -/
theorem holdsReal_congr (op : Operator) {x x' y y' : Binary64} (hx : x.key = x'.key)
    (hy : y.key = y'.key) : op.holdsReal x y = op.holdsReal x' y' := by
  have hnan : ∀ {z z' : Binary64}, z.key = z'.key → z.isNaN = z'.isNaN := by
    intro z z' hkey
    have hmagnitude : ∀ z : Binary64, z.key.natAbs = z.magnitude := by
      intro z
      rw [Binary64.key]
      split <;> simp
    rw [Binary64.isNaN, Binary64.isNaN, ← hmagnitude z, ← hmagnitude z', hkey]
  simp only [holdsReal, Binary64.eq, Binary64.lt, hx, hy, hnan hx, hnan hy]

/-- Whether an operator asks whether two things are equal. -/
def IsEquality (op : Operator) : Prop := op = .equal ∨ op = .notEqual

/-- It can be decided whether an operator asks for equality. -/
instance (op : Operator) : Decidable op.IsEquality := inferInstanceAs (Decidable (_ ∨ _))

/-- Swapping neither makes nor spoils a question of equality. -/
theorem isEquality_swap (op : Operator) : op.swap.IsEquality ↔ op.IsEquality := by
  cases op <;> decide

end Operator

/-! ## Texts that hold integers -/

namespace Numeral

/-- What a text is read as depends on what follows its sign. -/
theorem readReal?_congr {s t : Bytes}
    (h : readSign (Bytes.skipBlanks s) = readSign (Bytes.skipBlanks t)) :
    readReal? s = readReal? t := by
  rw [readReal?, readReal?, h]

/-- A text that holds an integer holds the number nearest to it, but for the sign of zero. -/
theorem real?_of_word? {t : Bytes} {n : Int64} (h : word? t = some n) :
    ∃ y, real? t = some y ∧ y.isNaN = false ∧ y.key = (Binary64.ofInt n.toInt).key := by
  obtain ⟨k, hinteger, hword⟩ := Option.bind_eq_some_iff.mp h
  have hn : n.toInt = k := Word.ofInt?_eq_some_iff.mp hword
  obtain ⟨written, hsign, hvalue⟩ : ∃ written : WrittenInteger,
      readSign (Bytes.skipBlanks t.strip) = (written.negative, written.digits) ∧
        written.value = k := by
    simp only [integer?] at hinteger
    split at hinteger
    · rename_i digits hread
      obtain ⟨hdigits, hnonempty, hdecimal⟩ := eq_append_of_readDigits? hread
      rw [List.append_nil] at hdigits
      exact ⟨⟨_, digits, hnonempty, hdecimal⟩, Prod.ext rfl hdigits, Option.some.inj hinteger⟩
    · cases hinteger
  have hfinite : (Binary64.ofInt written.value).isFinite = true := by
    rw [hvalue, ← hn]
    have hlow := n.le_toInt
    have hhigh := n.toInt_lt
    exact Binary64.isFinite_ofInt (by omega)
  obtain ⟨y, hread, hnumber, hkey⟩ := written.exists_real?_text hfinite
  refine ⟨y, ?_, hnumber, by rw [hkey, hvalue, hn]⟩
  rw [real?, written.strip_text] at hread
  rw [real?, readReal?_congr (hsign.trans written.readSign_text.symm)]
  exact hread

end Numeral

namespace Json

/-- The number that an integer is rounded to, or that a floating point number is. -/
def number? : Json → Option Binary64
  | .int n => some (Binary64.ofInt n)
  | .float x => some x
  | _ => none

/-- A value is null, has a text that holds no number, is a number, or is a string. -/
theorem kind_cases (value : Json) :
    value = .null ∨ ((∃ truth, value = .bool truth) ∨ value.shape ≠ .scalar) ∨
      (∃ x, value.number? = some x) ∨ ∃ s, value = .str s := by
  cases value with
  | null => exact .inl rfl
  | bool truth => exact .inr (.inl (.inl ⟨truth, rfl⟩))
  | int n => exact .inr (.inr (.inl ⟨_, rfl⟩))
  | float x => exact .inr (.inr (.inl ⟨_, rfl⟩))
  | str s => exact .inr (.inr (.inr ⟨s, rfl⟩))
  | arr items | obj fields => exact .inr (.inl (.inr fun hshape => by cases hshape))

/-! ## Numbers and their texts -/

/-- Whether a value is, unless it is no number at all, one that is read back from its text: an
integer that is not too large, zero, or a normal number. -/
def IsReadable : Json → Prop
  | .int n => (Binary64.ofInt n).isFinite = true
  | .float x => x.isFinite = true ∧ (x.isZero = true ∨ Binary64.hiddenBit ≤ x.magnitude)
  | _ => True

variable {value : Json} {x y : Binary64} {t : Bytes}

/-- Numbers are scalars. -/
theorem shape_of_number? (hnumber : value.number? = some x) : value.shape = .scalar := by
  cases value with
  | arr items => cases hnumber
  | obj fields => cases hnumber
  | _ => rfl

/-- Every number has a text. -/
theorem exists_toText_of_number? [JsonLibrary] (hnumber : value.number? = some x) :
    ∃ p, value.toText = .ok p := by
  cases value with
  | int n => exact ⟨_, rfl⟩
  | float x => exact ⟨_, rfl⟩
  | _ => cases hnumber

/-- The text of a number holds the number. -/
theorem exists_real?_toText [JsonLibrary] [LawfulFloatText] (hnumber : value.number? = some x)
    (hreadable : value.IsReadable) (htext : value.toText = .ok t) :
    ∃ y, Numeral.real? t = some y ∧ y.isNaN = false ∧ y.key = x.key := by
  cases value with
  | int n =>
    cases htext
    cases hnumber
    have hfinite : (Binary64.ofInt (WrittenInteger.ofInt n).value).isFinite = true := by
      rw [WrittenInteger.value_ofInt]
      exact hreadable
    have hread := (WrittenInteger.ofInt n).exists_real?_text hfinite
    rwa [WrittenInteger.text_ofInt, WrittenInteger.value_ofInt] at hread
  | float x =>
    cases htext
    cases hnumber
    exact real?_floatText hreadable.1 hreadable.2
  | _ => cases hnumber

/-- Whether a value is compared with a text as its own text would be. -/
def ComparesAsText [JsonLibrary] (value : Json) (op : Operator) (t : Bytes) : Prop :=
  value.compareScalar op t = (do return op.holdsText (← value.toText) t)

/-! ## Comparisons of numbers -/

/-- Whether a value is not an integer that shares its nearest number with another one which a text
holds. -/
def IsToldFrom (value : Json) (t : Bytes) : Prop :=
  ∀ n m, value = .int n → Word.fits n = true → Numeral.word? t = some m →
    n = m.toInt ∨ (Binary64.ofInt n).key ≠ (Binary64.ofInt m.toInt).key

/-- A number is compared with a text that holds one as numbers are. -/
theorem compareScalar_of_real? [JsonLibrary] (hnumber : value.number? = some x)
    (hread : Numeral.real? t = some y) (htold : value.IsToldFrom t) (op : Operator) :
    value.compareScalar op t = .ok (op.holdsReal x y) := by
  cases value with
  | int n =>
    cases hnumber
    rw [compareScalar]
    split
    · rename_i l r hl hr
      obtain ⟨z, hread', -, hkey⟩ := Numeral.real?_of_word? hr
      cases hread.symm.trans hread'
      have hn := Word.ofInt?_eq_some_iff.mp hl
      have hapart := htold n r rfl (hn ▸ Word.fits_toInt l) hr
      rw [hn, ← op.holdsReal_ofInt_of_key_ne hapart, op.holdsReal_congr rfl hkey]
    · rw [compareNumber, hread]
  | float x =>
    cases hnumber
    rw [compareScalar, compareNumber, hread]
  | _ => cases hnumber

/-- A number is compared with a text that holds none as texts are. -/
theorem compareScalar_of_real?_eq_none [JsonLibrary] (hnumber : value.number? = some x) {p : Bytes}
    (htext : value.toText = .ok p) (hread : Numeral.real? t = none) (op : Operator) :
    value.compareScalar op t = .ok (op.holdsText p t) := by
  cases value with
  | int n =>
    cases htext
    rw [compareScalar]
    split
    · rename_i l r hl hr
      obtain ⟨z, hread', -, -⟩ := Numeral.real?_of_word? hr
      rw [hread] at hread'
      cases hread'
    · rw [compareNumber, hread]
  | float x =>
    cases htext
    rw [compareScalar, compareNumber, hread]
  | _ => cases hnumber

/-- An integer is told from the integer that is the text of a floating point number. -/
theorem isToldFrom_floatText [JsonLibrary] [LawfulFloatText] (value : Json) (x : Binary64) :
    value.IsToldFrom (floatText x) := by
  intro n m _ _ hword
  obtain ⟨hsmall, -⟩ := key_of_word?_floatText hword
  by_cases hn : n = m.toInt
  · exact .inl hn
  · exact .inr fun hkey => hn ((Binary64.key_ofInt_inj (.inr hsmall)).mp hkey)

/-- The word in the text of an integer is the integer. -/
theorem word?_ofInt (n : Int) : Numeral.word? (Decimal.ofInt n) = Word.ofInt? n := by
  rw [← WrittenInteger.text_ofInt, WrittenInteger.word?_text, WrittenInteger.value_ofInt]

/-- An integer is told from what is in its own text. -/
theorem isToldFrom_toText [JsonLibrary] (htext : value.toText = .ok t) : value.IsToldFrom t := by
  rintro n m rfl _ hword
  cases htext
  rw [word?_ofInt] at hword
  exact .inl (Word.ofInt?_eq_some_iff.mp hword).symm

/-- A word is compared with the text of a word as the two integers are. -/
theorem compareScalar_ofInt [JsonLibrary] {n m : Int} (hn : Word.fits n = true)
    (hm : Word.fits m = true) (op : Operator) :
    (int n).compareScalar op (Decimal.ofInt m) = .ok (op.holdsInt n m) := by
  rw [compareScalar, word?_ofInt, Word.ofInt?, Word.ofInt?, if_pos hn, if_pos hm]
  simp only [Word.toInt_ofInt_of_fits hn, Word.toInt_ofInt_of_fits hm]

/-- Two numbers that are not both words are told from each other by the numbers nearest to them. -/
theorem isToldFrom_of_number? [JsonLibrary] [LawfulFloatText] {other : Json}
    (hother : other.number? = some y) (htext : other.toText = .ok t)
    (hwords : ∀ n m, value = .int n → other = .int m →
      ¬ (Word.fits n = true ∧ Word.fits m = true)) : value.IsToldFrom t := by
  cases other with
  | int m =>
    cases htext
    intro n r hvalue hn hword
    rw [word?_ofInt] at hword
    have hm := Word.ofInt?_eq_some_iff.mp hword
    exact absurd ⟨hn, hm ▸ Word.fits_toInt r⟩ (hwords n m hvalue rfl)
  | float z =>
    cases htext
    exact isToldFrom_floatText value z
  | _ => cases hother

/-- A number equals its own text. -/
theorem compareScalar_equal_toText [JsonLibrary] [LawfulFloatText]
    (hnumber : value.number? = some x) (hreadable : value.IsReadable)
    (htext : value.toText = .ok t) :
    value.compareScalar .equal t = .ok true := by
  obtain ⟨y, hread, hvalid, hkey⟩ := exists_real?_toText hnumber hreadable htext
  rw [compareScalar_of_real? hnumber hread (isToldFrom_toText htext),
    Operator.holdsReal_congr .equal hkey.symm rfl,
    Operator.equal.holdsReal_eq_holdsInt_key hvalid hvalid]
  simp [Operator.holdsInt, Operator.holds]

/-- Comparing a number with a text comes to three answers, from which every operator takes its
own. -/
theorem exists_compareNumber_eq_holds (x : Binary64) (p t : Bytes) :
    ∃ same before after : Bool, ∀ op : Operator,
      compareNumber x p op t = op.holds same before after := by
  unfold compareNumber
  cases Numeral.real? t with
  | none => exact ⟨_, _, _, fun _ => rfl⟩
  | some y => exact ⟨_, _, _, fun _ => rfl⟩

/-- The six comparisons of a number with a text follow from three answers. -/
theorem exists_compareScalar_eq_holds [JsonLibrary] (hnumber : value.number? = some x) (t : Bytes) :
    ∃ same before after : Bool, ∀ op : Operator,
      value.compareScalar op t = .ok (op.holds same before after) := by
  cases value with
  | int n =>
    obtain ⟨same, before, after, hholds⟩ :=
      exists_compareNumber_eq_holds (Binary64.ofInt n) (Decimal.ofInt n) t
    simp only [compareScalar]
    split
    · exact ⟨_, _, _, fun _ => rfl⟩
    · exact ⟨same, before, after, fun op => congrArg Except.ok (hholds op)⟩
  | float x =>
    obtain ⟨same, before, after, hholds⟩ := exists_compareNumber_eq_holds x (floatText x) t
    exact ⟨same, before, after, fun op => congrArg Except.ok (hholds op)⟩
  | _ => cases hnumber

/-- A number that equals a string only as a text is asked for equality with it as texts are. -/
theorem comparesAsText_of_isEquality [JsonLibrary] [LawfulFloatText] {op : Operator}
    (hop : op.IsEquality) (hnumber : value.number? = some x) (hreadable : value.IsReadable)
    (hequal : value.compareScalar .equal t = .ok true → value.toText = .ok t) :
    value.ComparesAsText op t := by
  obtain ⟨p, htext⟩ := exists_toText_of_number? hnumber
  obtain ⟨same, before, after, hholds⟩ := exists_compareScalar_eq_holds hnumber t
  have hsame : same = (p == t) := by
    rw [Bool.eq_iff_iff, beq_iff_eq]
    constructor
    · intro htrue
      have htext' := hequal ((hholds .equal).trans (congrArg Except.ok htrue))
      exact Except.ok.inj (htext.symm.trans htext')
    · rintro rfl
      exact Except.ok.inj ((hholds .equal).symm.trans
        (compareScalar_equal_toText hnumber hreadable htext))
  rw [ComparesAsText, hholds, htext, hsame]
  obtain rfl | rfl := hop <;> rfl

/-! ## Comparisons of texts -/

/-- A truth value is compared by its text. -/
theorem comparesAsText_bool [JsonLibrary] (truth : Bool) (op : Operator) (t : Bytes) :
    (bool truth).ComparesAsText op t := by
  rw [ComparesAsText, compareScalar]
  by_cases hword : (t == ascii "true" || t == ascii "false") = true
  · -- The order of the two words is that of the truth values.
    have hholds : ∀ op : Operator, ∀ t ∈ [ascii "true", ascii "false"], ∀ truth : Bool,
        op.holdsInt truth.toNat (t == ascii "true").toNat =
          op.holdsText (ascii (if truth then "true" else "false")) t := by
      intro op
      cases op <;> decide
    have hmem : t ∈ [ascii "true", ascii "false"] := by
      simpa [beq_iff_eq] using hword
    rw [if_pos hword]
    exact congrArg Except.ok (hholds op t hmem truth)
  · rw [if_neg hword]
    rfl

/-- A string is compared by its text, unless it is put in order with a text that holds a number, as
it does itself. -/
theorem comparesAsText_str [JsonLibrary] {s : Bytes} {op : Operator}
    (h : Numeral.real? s = none ∨ Numeral.real? t = none ∨ op.IsEquality) :
    (str s).ComparesAsText op t := by
  rw [ComparesAsText, compareScalar]
  split
  · rename_i l r hl hr
    obtain hnone | hnone | hop := h
    · rw [hnone] at hl
      cases hl
    · rw [hnone] at hr
      cases hr
    · have hequality : (op == .equal || op == .notEqual) = true := by
        obtain rfl | rfl := hop <;> rfl
      rw [if_pos hequality]
      rfl
  · rfl

/-- Two texts that hold numbers are put in order as these are. -/
theorem compareScalar_str_of_real? [JsonLibrary] {s : Bytes} {op : Operator}
    (hs : Numeral.real? s = some x) (ht : Numeral.real? t = some y) (hop : ¬ op.IsEquality) :
    (str s).compareScalar op t = .ok (op.holdsReal x y) := by
  have horder : (op == .equal || op == .notEqual) = false := by
    rw [Bool.or_eq_false_iff, beq_eq_false_iff_ne, beq_eq_false_iff_ne]
    exact not_or.mp hop
  rw [compareScalar, hs, ht]
  simp only [horder, Bool.false_eq_true, if_false]

/-- A text that holds no number holds no integer. -/
theorem word?_eq_none_of_real? (h : Numeral.real? t = none) : Numeral.word? t = none := by
  cases hword : Numeral.word? t with
  | none => rfl
  | some n =>
    obtain ⟨y, hread, -⟩ := Numeral.real?_of_word? hword
    rw [h] at hread
    cases hread

/-- A scalar that is not null is compared as a text with a text that holds no number. -/
theorem comparesAsText_of_real?_eq_none [JsonLibrary] {op : Operator}
    (hshape : value.shape = .scalar) (hnull : value ≠ .null) (hread : Numeral.real? t = none) :
    value.ComparesAsText op t := by
  cases value with
  | null => exact absurd rfl hnull
  | bool truth => exact comparesAsText_bool truth op t
  | int n => exact compareScalar_of_real?_eq_none rfl rfl hread op
  | float x => exact compareScalar_of_real?_eq_none rfl rfl hread op
  | str s => exact comparesAsText_str (.inr (.inl hread))
  | arr items => cases hshape
  | obj fields => cases hshape

/-- Null is compared with a text as the empty text would be, unless the text is a word for null or
is asked to be after null. -/
theorem compareScalar_null [JsonLibrary] {op : Operator}
    (h : if op.IsEquality then t ≠ ascii "nil" ∧ t ≠ ascii "null" else op.holdsText [] t = false) :
    compareScalar .null op t = .ok (op.holdsText [] t) := by
  by_cases hop : op.IsEquality
  · rw [if_pos hop] at h
    have hempty : (t.isEmpty || t == ascii "nil" || t == ascii "null") = ([] == t) := by
      rw [beq_eq_false_iff_ne.mpr h.1, beq_eq_false_iff_ne.mpr h.2, Bool.or_false, Bool.or_false]
      cases t <;> rfl
    obtain rfl | rfl := hop
    · simp only [compareScalar, hempty]
      rfl
    · simp only [compareScalar, hempty]
      rfl
  · rw [if_neg hop] at h
    rw [h]
    cases op with
    | equal => exact absurd (.inl rfl) hop
    | notEqual => exact absurd (.inr rfl) hop
    | _ => rfl

/-! ## Texts that hold no number -/

/-- A text that begins with a bracket or a brace and ends with one holds no number. -/
theorem real?_eq_none_of_enclosed {first last : UInt8} (middle : Bytes)
    (hfirst : first ∈ [Byte.openBracket, Byte.openBrace])
    (hlast : last ∈ [Byte.closeBracket, Byte.closeBrace]) :
    Numeral.real? (first :: middle ++ [last]) = none := by
  have hopen : ∀ b ∈ [Byte.openBracket, Byte.openBrace], Bytes.isGap b = false := by
    decide +kernel
  have hclose : ∀ b ∈ [Byte.closeBracket, Byte.closeBrace], Bytes.isGap b = false := by
    decide +kernel
  have hstrip : Bytes.strip (first :: middle ++ [last]) = first :: middle ++ [last] := by
    have hends : Bytes.IsTrimmed ([first] ++ middle ++ [last]) := by
      refine Bytes.IsTrimmed.around (.of_forall (List.cons_ne_nil _ _) ?_)
        (.of_forall (List.cons_ne_nil _ _) ?_) middle
      · simpa using hopen first hfirst
      · simpa using hclose last hlast
    exact hends.strip_eq
  have hread : ∀ first ∈ [Byte.openBracket, Byte.openBrace], ∀ rest,
      Numeral.readReal? (first :: rest) = none := by
    intro first hfirst rest
    simp only [List.mem_cons, List.not_mem_nil, or_false] at hfirst
    obtain rfl | rfl := hfirst <;> rfl
  rw [Numeral.real?, hstrip, List.cons_append, hread first hfirst]

/-- The text of a truth value or of a container holds no number. -/
theorem real?_toText_eq_none [JsonLibrary]
    (hvalue : (∃ truth, value = .bool truth) ∨ value.shape ≠ .scalar)
    (htext : value.toText = .ok t) : Numeral.real? t = none := by
  cases value with
  | bool truth =>
    cases htext
    cases truth <;> rfl
  | arr items =>
    cases hitems : printItems items with
    | error fault => simp [toText, print, hitems, bind, Except.bind] at htext
    | ok text =>
      simp only [toText, print, hitems] at htext
      cases htext
      exact real?_eq_none_of_enclosed text (by decide) (by decide)
  | obj fields =>
    cases hfields : printFields fields with
    | error fault => simp [toText, print, hfields, bind, Except.bind] at htext
    | ok text =>
      simp only [toText, print, hfields] at htext
      cases htext
      exact real?_eq_none_of_enclosed text (by decide) (by decide)
  | _ => simp [shape] at hvalue

end Json

end Stencil
