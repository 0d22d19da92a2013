import Mathlib.Data.List.TakeWhile
import Stencil.Template.Statement

/-!
# What a statement was read from

A statement that is read from a content comes from one reader, which `Statement.ReadAs` names: a
condition from an expression, the head of a loop from the whole content. The head of a counting loop
is proper: its test is a comparison, it counts up or down, and its step is not negative, since the
digits of the step have no sign. What a reader cuts off or cuts out lies in the content.
-/

set_option autoImplicit false

namespace Stencil

namespace Statement

/-- The reader that a statement comes from. -/
inductive ReadAs (content : Bytes) : Statement → Prop
  | print {statement : Print} (h : Print.parse? content = some (.ok statement)) :
    ReadAs content (.print statement)
  | bind {statement : Binding} (h : Binding.parse content = .ok statement) :
    ReadAs content (.bind statement)
  | counter {statement : Counter} (h : Counter.parse content = .ok statement) :
    ReadAs content (.counter statement)
  | loop {head : LoopHead} (h : LoopHead.parse content = .ok head) :
    ReadAs content (.forOpen head)
  | condition {test : Condition} {expression : Bytes} (h : Condition.parse expression = .ok test) :
    ReadAs content (.ifOpen test)
  | switch (subject : Bytes) :
    ReadAs content (.switchOpen (if subject.isEmpty then {} else Operand.parse subject))
  | case (expression : Bytes) : ReadAs content (.caseMark (Comparison.parse expression))
  | word {word : Bytes} {statement : Statement} (h : (word, statement) ∈ words) :
    ReadAs content statement

/-- A result with its value replaced is a value when it was one before. -/
theorem map_eq_ok_iff {α β : Type} {f : α → β} {result : Except TemplateFault α} {value : β} :
    result.map f = .ok value ↔ ∃ first, result = .ok first ∧ f first = value := by
  cases result <;> simp [Except.map]

/-- What is read as a mark is one of the statements that marks are. -/
theorem readAs_of_parseMark {content : Bytes} {statement : Statement}
    (h : parseMark content = .ok statement) : ReadAs content statement := by
  unfold parseMark at h
  split at h
  · obtain ⟨test, hcondition, rfl⟩ := map_eq_ok_iff.mp h
    exact .condition hcondition
  · cases h
    exact .switch _
  · cases h
    exact .case _
  · split at h
    · rename_i found hword
      cases h
      exact .word (Table.mem_of_find? hword)
    · cases h

/-- Every statement comes from one of the readers. -/
theorem readAs_of_parse {content : Bytes} {statement : Statement}
    (h : parse content = .ok statement) : ReadAs content statement := by
  unfold parse at h
  split at h
  · rename_i result hprint
    obtain ⟨found, rfl, rfl⟩ := map_eq_ok_iff.mp h
    exact .print hprint
  · split at h
    · obtain ⟨found, hbind, rfl⟩ := map_eq_ok_iff.mp h
      exact .bind hbind
    · split at h
      · obtain ⟨found, hcounter, rfl⟩ := map_eq_ok_iff.mp h
        exact .counter hcounter
      · split at h
        · obtain ⟨head, hloop, rfl⟩ := map_eq_ok_iff.mp h
          exact .loop hloop
        · exact readAs_of_parseMark h

/-- A loop is opened only when its head has been read. -/
theorem parse_loop_of_forOpen {content : Bytes} {head : LoopHead}
    (h : parse content = .ok (.forOpen head)) : LoopHead.parse content = .ok head := by
  cases readAs_of_parse h with
  | loop hloop => exact hloop
  | word hword => simp [words] at hword

end Statement

/-! ## Cuts -/

namespace Bytes

/-- Dropping at the end leaves a beginning of the text. -/
theorem isPrefix_dropEndWhile (p : UInt8 → Bool) (s : Bytes) : dropEndWhile p s <+: s := by
  rw [← List.reverse_suffix, dropEndWhile, List.reverse_reverse]
  exact List.dropWhile_suffix p

/-- What is left between two strips stands in the text. -/
theorem isInfix_stripWhile (p : UInt8 → Bool) (s : Bytes) : stripWhile p s <:+: s :=
  (isPrefix_dropEndWhile p _).isInfix.trans (List.dropWhile_suffix p).isInfix

/-- What is stripped stands in the text. -/
theorem isInfix_strip (s : Bytes) : s.strip <:+: s := isInfix_stripWhile _ s

end Bytes

/-! ## Numerals without a sign -/

namespace Numeral

/-- Without a minus sign a text holds no negative integer. -/
theorem integer?_nonneg {s : Bytes} {n : Int} (hsign : Byte.minus ∉ s)
    (h : integer? s = some n) : 0 ≤ n := by
  have hblanks : Byte.minus ∉ Bytes.skipBlanks s := fun hmem =>
    hsign ((List.dropWhile_sublist _).subset hmem)
  have hpositive : (readSign (Bytes.skipBlanks s)).1 = false := by
    unfold readSign
    split
    · rename_i rest heq
      simp [heq] at hblanks
    · rfl
    · rfl
  unfold integer? at h
  simp only [hpositive] at h
  split at h
  · obtain rfl := Option.some.inj h
    exact Int.natCast_nonneg _
  · cases h

/-- A text that is all blanks and digits has no sign. -/
theorem minus_notMem_of_readDigits? {s digits : Bytes}
    (h : readDigits? s.skipBlanks = some (digits, [])) : Byte.minus ∉ s := by
  intro hmem
  obtain ⟨-, -, hrest⟩ := readDigits?_eq_some_iff.mp h
  have hdigits : s.skipBlanks.dropWhile Byte.isDigit = [] := hrest.symm
  rw [← List.takeWhile_append_dropWhile (p := Byte.isBlank) (l := s), List.mem_append] at hmem
  obtain hblank | hdigit := hmem
  · exact absurd (List.mem_takeWhile_imp hblank) (by decide)
  · have hall := List.dropWhile_eq_nil_iff.mp hdigits _ hdigit
    exact absurd hall (by decide)

end Numeral

/-! ## Heads of counting loops -/

/-- Whether a counting loop compares, counts up or down, and has a step that is not negative. -/
def CountHead.isProper (head : CountHead) : Bool :=
  Operator.comparisons.contains head.test &&
    (head.direction == .increment || head.direction == .decrement) && decide (0 ≤ head.step.toInt)

namespace LoopHead

/-- The test of a loop holds a comparison. -/
theorem mem_comparisons_of_readTest? {s counter limit : Bytes} {op : Operator}
    (h : readTest? s = some (counter, op, limit)) : op ∈ Operator.comparisons := by
  simp only [readTest?, Option.bind_eq_bind, Option.bind_eq_some_iff] at h
  obtain ⟨⟨name, rest⟩, -, hfound⟩ := h
  obtain ⟨found, hmem, hop⟩ := List.exists_of_findSome?_eq_some hfound
  split at hop
  · obtain ⟨text, -, heq⟩ := Option.map_eq_some_iff.mp hop
    obtain ⟨-, rfl, -⟩ : name = counter ∧ found = op ∧ text = limit := by simpa using heq
    exact hmem
  · cases hop

/-- A step that has a size is the sign before it with that size, which has no sign. -/
theorem of_readSize {found direction : Operator} {rest : Bytes} {step : Option Bytes}
    (h : (match Numeral.readDigits? rest.skipBlanks with
        | some (_, []) => some (found, some rest.strip)
        | _ => none) = some (direction, step)) :
    found = direction ∧ ∀ size ∈ step, Byte.minus ∉ size := by
  split at h
  · rename_i digits hdigits
    obtain ⟨rfl, rfl⟩ : found = direction ∧ some rest.strip = step := by simpa using h
    refine ⟨rfl, ?_⟩
    rintro size ⟨⟩ hminus
    exact Numeral.minus_notMem_of_readDigits? hdigits ((Bytes.isInfix_strip rest).subset hminus)
  · cases h

/-- A step counts up or down, and the digits of its size have no sign. -/
theorem of_readStep? {s : Bytes} {direction : Operator} {step : Option Bytes}
    (h : readStep? s = some (direction, step)) :
    (direction = .increment ∨ direction = .decrement) ∧ ∀ size ∈ step, Byte.minus ∉ size := by
  unfold readStep? at h
  simp only at h
  split at h
  · cases h
    exact ⟨.inl rfl, by simp⟩
  · cases h
    exact ⟨.inr rfl, by simp⟩
  · obtain ⟨rfl, hsize⟩ := of_readSize h
    exact ⟨.inl rfl, hsize⟩
  · obtain ⟨rfl, hsize⟩ := of_readSize h
    exact ⟨.inr rfl, hsize⟩
  · cases h

/-- A counting loop that is made of the parts of its head is proper. -/
theorem isProper_of_ofParts {separator head : Bytes} {parts : CountParts} {found : CountHead}
    (hparts : readCount? head = some parts) (h : ofParts separator parts = .ok found) :
    found.isProper = true := by
  simp only [readCount?, Option.bind_eq_bind, Option.bind_eq_some_iff] at hparts
  obtain ⟨_, -, ⟨_, _⟩, -, _, -, ⟨_, _⟩, -, _, -, ⟨_, _⟩, -, ⟨_, test, _⟩, htest, ⟨_, _⟩, -,
    ⟨direction, step⟩, hstep, hfields⟩ := hparts
  cases hfields
  have hmem := mem_comparisons_of_readTest? htest
  obtain ⟨hdirection, hsign⟩ := of_readStep? hstep
  unfold ofParts at h
  simp only at h
  split at h
  · cases h
  · split at h
    · rename_i size hsize
      cases h
      have hnonneg : 0 ≤ size.toInt := by
        cases step with
        | none =>
          cases hsize
          decide
        | some digits =>
          obtain ⟨n, hn, hword⟩ := Option.bind_eq_some_iff.mp hsize
          rw [Word.ofInt?_eq_some_iff.mp hword]
          exact Numeral.integer?_nonneg (hsign digits rfl) hn
      simpa [CountHead.isProper, hmem, hnonneg] using hdirection
    · cases h

/-- A counting loop that is read comes from the parts of one reading of its content. -/
theorem exists_parts_of_parse {content : Bytes} {head : CountHead}
    (h : parse content = .ok (.count head)) :
    ∃ text separator parts, (text, separator) ∈ readings content ∧
      readCount? text = some parts ∧ ofParts separator parts = .ok head := by
  rw [parse, Option.getD_eq_iff] at h
  obtain hfound | ⟨-, hnone⟩ := h
  · obtain ⟨⟨text, separator⟩, hmem, hreading⟩ := List.exists_of_findSome?_eq_some hfound
    simp only [ofReading?] at hreading
    split at hreading
    · cases hreading
    · obtain ⟨parts, hparts, hhead⟩ := Option.map_eq_some_iff.mp hreading
      obtain ⟨found, hfound, heq⟩ := Statement.map_eq_ok_iff.mp hhead
      cases heq
      exact ⟨text, separator, parts, hmem, hparts, hfound⟩
  · cases hnone

/-- A counting loop that is read is proper. -/
theorem isProper_of_parse {content : Bytes} {head : CountHead}
    (h : parse content = .ok (.count head)) : head.isProper = true := by
  obtain ⟨_, _, _, -, hparts, hfound⟩ := exists_parts_of_parse h
  exact isProper_of_ofParts hparts hfound

end LoopHead

end Stencil
