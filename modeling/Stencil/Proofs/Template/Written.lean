import Stencil.Proofs.Bytes.Passing
import Stencil.Proofs.Template.Literal
import Stencil.Proofs.Template.Markup

/-!
# Operands in writing

An operand is written as the literal of a text or as the dotted path of a variable. Either is read
as the operand that it is the writing of (`WrittenOperand.parse_text`), wherever it stands: a
scanner that looks for neither a quote nor a byte of a path passes it, nothing is stripped from it,
and it may stand inside a region. A comparison operator is found where it is written, unless an
equals sign stands right behind it.
-/

set_option autoImplicit false

namespace Stencil

/-! ## Words -/

namespace Byte

/-- A byte of a dotted path. -/
def isOfPath (b : UInt8) : Bool := isWord b || b == dot

/-- A byte of a path is none of the bytes that mean something around it. -/
theorem notMem_of_isOfPath {b : UInt8} (h : isOfPath b = true) {marks : Bytes}
    (hmarks : marks.any isOfPath = false) : b ∉ marks :=
  fun hmem => List.any_eq_false.mp hmarks b hmem h

/-- The bytes of paths are neither quotes nor parentheses. -/
theorem isBracket_of_isOfPath {b : UInt8} (h : isOfPath b = true) : Scan.isBracket b = false := by
  have hmarks : b ∉ [doubleQuote, apostrophe, openParen, closeParen] :=
    notMem_of_isOfPath h rfl
  simpa [Scan.isBracket, and_assoc] using hmarks

/-- The bytes of paths are not blank. -/
theorem isGap_of_isOfPath {b : UInt8} (h : isOfPath b = true) : Bytes.isGap b = false := by
  have hmarks : b ∉ 0 :: (ascii " \t\n\r").untilNul := notMem_of_isOfPath h rfl
  rw [List.mem_cons, not_or] at hmarks
  simp [Bytes.isGap, Bytes.isStripped, hmarks]

end Byte

namespace Bytes

/-- A text of bytes of a path. -/
structure IsOfPath (s : Bytes) : Prop where
  nonempty : s ≠ []
  bytes : ∀ b ∈ s, Byte.isOfPath b = true

namespace IsOfPath

variable {s : Bytes}

/-- A word is made of the bytes of paths. -/
theorem of_isWord (h : s.isWord = true) : IsOfPath s := by
  obtain ⟨hnonempty, hbytes⟩ : s.isEmpty = false ∧ s.all Byte.isWord = true := by
    simpa [isWord] using h
  refine ⟨by simpa using hnonempty, fun b hb => ?_⟩
  rw [Byte.isOfPath, List.all_eq_true.mp hbytes b hb, Bool.true_or]

/-- No blank stands at an end of a path. -/
theorem isTrimmed (h : IsOfPath s) : IsTrimmed s :=
  .of_forall h.nonempty fun b hb => Byte.isGap_of_isOfPath (h.bytes b hb)

/-- A byte of another kind does not show in a path. -/
theorem passes (h : IsOfPath s) {b : UInt8} (hb : Byte.isOfPath b = false) (depth : Int) :
    Scan.Passes b depth s := by
  refine .of_plain (fun c hc => Byte.isBracket_of_isOfPath (h.bytes c hc)) fun hmem => ?_
  rw [h.bytes b hmem] at hb
  cases hb

/-- A path is plain. -/
theorem isPlain (h : IsOfPath s) : Source.IsPlain s := by
  have hnot : ∀ {b}, Byte.isOfPath b = false → b ∉ s := fun hb hmem => by
    rw [h.bytes _ hmem] at hb
    cases hb
  exact .of_notMem ⟨hnot rfl, hnot rfl, hnot rfl⟩

/-- A path is no quoted literal. -/
theorem decode?_eq_none (h : IsOfPath s) : Quoted.decode? s = none := by
  obtain ⟨first, rest, rfl⟩ := List.exists_cons_of_ne_nil h.nonempty
  have hquote : first ∉ [Byte.doubleQuote, Byte.apostrophe] :=
    Byte.notMem_of_isOfPath (h.bytes first (.head _)) rfl
  simp only [List.mem_cons, List.not_mem_nil, or_false, not_or] at hquote
  exact Quoted.decode?_cons_eq_none hquote rest

end IsOfPath

end Bytes

namespace Statement

variable {word rest : Bytes} (hword : word.isWord = true)
  (hrest : ∀ b, rest.head? = some b → Byte.isWord b = false)
include hword hrest

/-- A word is read to its end. -/
theorem readWord_append : readWord (word ++ rest) = (word, rest) := by
  rw [Bytes.isWord, Bool.and_eq_true, List.all_eq_true] at hword
  exact Bytes.readWhile_append rest hword.2 hrest

/-- A word is read up to what is behind it. -/
theorem readWord?_append : readWord? (word ++ rest) = some (word, rest) := by
  have hne : word.isEmpty = false := by simpa using (Bytes.IsOfPath.of_isWord hword).nonempty
  simp only [readWord?, readWord_append hword hrest, hne, Bool.false_eq_true, if_false]

end Statement

/-- Plain texts with a plain separator between them are plain. -/
theorem Source.IsPlain.intercalate {separator : Bytes} (hseparator : IsPlain separator)
    {parts : List Bytes} (hparts : ∀ part ∈ parts, IsPlain part) :
    IsPlain (separator.intercalate parts) :=
  Bytes.intercalate_induction IsPlain (.of_notMem (by decide)) (fun _ _ hs ht => hs.append ht)
    hseparator hparts

/-! ## Operands -/

/-- The dotted path of a variable: words with dots between them. -/
structure DottedPath where
  words : List Bytes
  nonempty : words ≠ []
  areWords : ∀ word ∈ words, Bytes.isWord word = true

namespace DottedPath

variable (path : DottedPath)

/-- A path as it is written. -/
def text : Bytes := [Byte.dot].intercalate path.words

/-- The text of a path is made of the bytes of paths. -/
theorem isOfPath_text : Bytes.IsOfPath path.text := by
  have hwords : ∀ word ∈ path.words, Bytes.IsOfPath word := fun word hword =>
    .of_isWord (path.areWords word hword)
  refine ⟨?_, ?_⟩
  · exact (Bytes.IsTrimmed.intercalate _ path.nonempty fun word hword =>
      (hwords word hword).isTrimmed).ne_nil
  · refine Bytes.intercalate_induction (fun s => ∀ b ∈ s, Byte.isOfPath b = true) ?_ ?_ ?_
      fun word hword => (hwords word hword).bytes
    · exact fun b hb => absurd hb List.not_mem_nil
    · exact fun s t hs ht b hb => (List.mem_append.mp hb).elim (hs b) (ht b)
    · exact fun b hb => by rw [List.mem_singleton.mp hb]; rfl

end DottedPath

/-- An operand as it is written: the literal of a text, or the path of a variable, which is none of
the numbers and words that stand for a value. -/
inductive WrittenOperand where
  | literal (s : Bytes)
  | dotted (path : DottedPath) (dynamic : (Operand.parse path.text).isStatic = false)

namespace WrittenOperand

/-- An operand as it is written. -/
def text : WrittenOperand → Bytes
  | literal s => Quoted.encode s
  | dotted path _ => path.text

/-- The operand that is written. -/
def operand : WrittenOperand → Operand
  | literal s => .ofText s
  | dotted path _ => { text := path.text }

variable (written : WrittenOperand)

/-- An operand is read as it is written. -/
theorem parse_text : Operand.parse written.text = written.operand := by
  cases written with
  | literal s => exact Operand.parse_encode s
  | dotted path hdynamic =>
    have hparse := Operand.parse_of_isStatic_eq_false hdynamic
    rwa [path.isOfPath_text.isTrimmed.strip_eq] at hparse

/-- An operand that is written is not empty. -/
theorem isEmpty_operand : written.operand.isEmpty = false := by
  cases written with
  | literal s => simp [operand, Operand.isEmpty, Operand.ofText]
  | dotted path _ => simpa [operand, Operand.isEmpty] using path.isOfPath_text.nonempty

/-- No blank stands at an end of an operand. -/
theorem isTrimmed_text : Bytes.IsTrimmed written.text := by
  cases written with
  | literal s => exact ⟨rfl, by rw [text, Quoted.getLast?_encode]; rfl⟩
  | dotted path _ => exact path.isOfPath_text.isTrimmed

/-- An operand is plain. -/
theorem isPlain_text : Source.IsPlain written.text := by
  cases written with
  | literal s => exact .encode s
  | dotted path _ => exact path.isOfPath_text.isPlain

/-- A byte that is no quote and of no path does not show in an operand. -/
theorem passes_text {b : UInt8} (hquote : b ≠ Byte.doubleQuote) (hb : Byte.isOfPath b = false)
    (depth : Int) : Scan.Passes b depth written.text := by
  cases written with
  | literal s => exact .encode hquote s
  | dotted path _ => exact path.isOfPath_text.passes hb depth

end WrittenOperand

/-! ## Operators -/

namespace Operator

/-- A comparison is looked for behind those that its text begins with none of, unless an equals sign
follows it. -/
theorem exists_comparisons_eq_append {op : Operator} (hop : op ∈ comparisons) {rest : Bytes}
    (hrest : rest.head? ≠ some Byte.equals) :
    ∃ before after, comparisons = before ++ op :: after ∧
      ∀ earlier ∈ before, earlier.text.isPrefixOf (op.text ++ rest) = false := by
  have hlonger : ∀ b : UInt8, ([b, Byte.equals] : Bytes).isPrefixOf (b :: rest) = false := by
    intro b
    cases rest with
    | nil => simp
    | cons next rest =>
      have hnext : Byte.equals ≠ next := fun h => hrest (congrArg some h.symm)
      simp [List.isPrefixOf, hnext]
  simp only [comparisons, List.mem_cons, List.not_mem_nil, or_false] at hop
  obtain rfl | rfl | rfl | rfl | rfl | rfl := hop
  · exact ⟨[], _, rfl, by simp⟩
  · exact ⟨[equal], _, rfl, by simp only [List.forall_mem_cons]; exact ⟨rfl, by simp⟩⟩
  · exact ⟨[equal, notEqual], _, rfl, by
      simp only [List.forall_mem_cons]; exact ⟨rfl, rfl, by simp⟩⟩
  · exact ⟨[equal, notEqual, greaterEqual], _, rfl, by
      simp only [List.forall_mem_cons]; exact ⟨rfl, rfl, rfl, by simp⟩⟩
  · exact ⟨[equal, notEqual, greaterEqual, lessEqual], _, rfl, by
      simp only [List.forall_mem_cons]; exact ⟨rfl, rfl, hlonger _, rfl, by simp⟩⟩
  · exact ⟨[equal, notEqual, greaterEqual, lessEqual, greater], _, rfl, by
      simp only [List.forall_mem_cons]; exact ⟨rfl, rfl, rfl, hlonger _, rfl, by simp⟩⟩

end Operator
end Stencil
