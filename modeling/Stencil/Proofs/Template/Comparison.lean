import Stencil.Proofs.Template.Statement
import Stencil.Proofs.Template.Written

/-!
# Comparisons in writing

A comparison is written as two operands with an operator between them and blanks around it or none.
It is read as it is written wherever it stands (`WrittenComparison.parse_text`): the operator is
looked for outside of literals only. The case of a switch takes it whatever its literals hold. A
condition is looked over as a whole before it is read, and is refused when a literal in it holds a
connective or a parenthesis (`WrittenComparison.parse_condition`).
-/

set_option autoImplicit false

namespace Stencil

/-! ## Bytes that stand twice in a row -/

namespace Bytes

/-- Whether a byte stands twice in a row in a text, or begins it when the byte stands right before
it. -/
def doubles (b : UInt8) : Bool → Bytes → Bool
  | _, [] => false
  | prior, c :: rest => (prior && c == b) || doubles b (c == b) rest

/-- A byte stands twice in a row when the pair occurs, or when the text goes on with it. -/
theorem doubles_eq (b : UInt8) (prior : Bool) (s : Bytes) :
    doubles b prior s = ((prior && s.head? == some b) || occursIn [b, b] s) := by
  induction s generalizing prior with
  | nil => simp [doubles, occursIn, breakOn]
  | cons c rest ih =>
    have hoccurs : occursIn [b, b] (c :: rest) =
        ((c == b && rest.head? == some b) || occursIn [b, b] rest) := by
      have hprefix : ([b, b] : Bytes).isPrefixOf (c :: rest) =
          (c == b && rest.head? == some b) := by
        cases rest with
        | nil => simp [List.isPrefixOf]
        | cons d rest => simp [List.isPrefixOf, BEq.comm]
      rw [occursIn, breakOn, hprefix]
      split <;> simp_all [occursIn]
    rw [doubles, ih, hoccurs]
    simp

/-- The pair of a byte occurs when the byte stands twice in a row. -/
theorem occursIn_pair (b : UInt8) (s : Bytes) : occursIn [b, b] s = doubles b false s := by
  simp [doubles_eq]

variable {b : UInt8}

/-- Another byte parts a text in two. -/
theorem doubles_append_cons {c : UInt8} (hc : c ≠ b) (prior : Bool) (s rest : Bytes) :
    doubles b prior (s ++ c :: rest) = (doubles b prior s || doubles b false rest) := by
  induction s generalizing prior with
  | nil =>
    have hother : (c == b) = false := by simpa using hc
    simp [doubles, hother]
  | cons d s ih => simp [doubles, ih, Bool.or_assoc]

/-- A text without the byte parts what stands around it. -/
theorem doubles_append_of_notMem {s : Bytes} (hs : b ∉ s) (rest : Bytes) :
    doubles b false (s ++ rest) = doubles b false rest := by
  induction s with
  | nil => rfl
  | cons c s ih =>
    rw [List.mem_cons, not_or] at hs
    have hother : (c == b) = false := by simpa using Ne.symm hs.1
    simp [doubles, hother, ih hs.2]

end Bytes

/-- No parenthesis opens behind the word at the start of a text when a byte of another kind stands
before the first one. -/
theorem Statement.insideParens?_eq_none (lead : Bytes) (b : UInt8) (rest : Bytes)
    (hlead : Byte.openParen ∉ lead) (hword : Byte.isWord b = false)
    (hblank : Byte.isBlank b = false)
    (hb : b ≠ Byte.openParen) :
    insideParens? (Bytes.skipBlanks (readWord (lead ++ b :: rest)).2) = none := by
  have hdrop : ∀ (p : UInt8 → Bool) (s : Bytes), p b = false →
      (s ++ b :: rest).dropWhile p = s.dropWhile p ++ b :: rest := by
    intro p s hp
    rw [List.dropWhile_append, List.dropWhile_cons_of_neg (by simp [hp])]
    split
    · rename_i hempty
      rw [List.isEmpty_iff.mp hempty, List.nil_append]
    · rfl
  have hskipped : Byte.openParen ∉ (lead.dropWhile Byte.isWord).dropWhile Byte.isBlank := by
    intro hmem
    apply hlead
    exact ((List.dropWhile_suffix _).trans (List.dropWhile_suffix _)).subset hmem
  rw [readWord, Bytes.readWhile, Bytes.skipBlanks, hdrop _ _ hword, hdrop _ _ hblank, insideParens?]
  cases hkept : (lead.dropWhile Byte.isWord).dropWhile Byte.isBlank with
  | nil => simp [dropByte?, hb]
  | cons c kept =>
    have hc : c ≠ Byte.openParen := by
      rintro rfl
      exact hskipped (hkept ▸ .head _)
    simp [dropByte?, hc]

/-- A parenthesis stands in two texts when it stands in one of them. -/
theorem Condition.hasParens_append (s t : Bytes) :
    hasParens (s ++ t) = (hasParens s || hasParens t) :=
  List.any_append

namespace Quoted

/-- The bytes of a connective. -/
def isConnective (b : UInt8) : Bool := b == Byte.ampersand || b == Byte.bar

/-- A byte is written as itself, or as two bytes, of which neither is of a connective or a
parenthesis when the byte itself is not. -/
theorem escapeByte_cases (c : UInt8) :
    escapeByte c = [c] ∨ ∃ d, escapeByte c = [Byte.backslash, d] ∧
      isConnective c = false ∧ isConnective d = false ∧
        Condition.hasParens [c] = false ∧ Condition.hasParens [d] = false := by
  unfold escapeByte
  split
  · rename_i h
    obtain rfl := eq_of_beq h
    exact .inr ⟨_, rfl, by decide⟩
  split
  · rename_i h
    obtain rfl := eq_of_beq h
    exact .inr ⟨_, rfl, by decide⟩
  split
  · rename_i h
    obtain rfl := eq_of_beq h
    exact .inr ⟨_, rfl, by decide⟩
  split
  · rename_i h
    simp only [Bool.or_eq_true, beq_iff_eq] at h
    obtain ((rfl | rfl) | rfl) | rfl := h <;>
    exact .inr ⟨_, rfl, by decide⟩
  · exact .inl rfl

/-- The inside of a literal holds a connective where its text does. -/
theorem doubles_escape {b : UInt8} (hb : isConnective b = true) (prior : Bool) (s : Bytes) :
    Bytes.doubles b prior (escape s) = Bytes.doubles b prior s := by
  have hother : ∀ c, isConnective c = false → (c == b) = false := by
    intro c hc
    rw [beq_eq_false_iff_ne]
    rintro rfl
    rw [hb] at hc
    cases hc
  have hbackslash := hother Byte.backslash (by decide)
  induction s generalizing prior with
  | nil => rfl
  | cons c rest ih =>
    rw [escape, List.flatMap_cons]
    obtain hself | ⟨d, hescaped, hc, hd, -, -⟩ := escapeByte_cases c
    · rw [hself, List.singleton_append, Bytes.doubles, Bytes.doubles]
      exact congrArg _ (ih (c == b))
    · rw [hescaped]
      simp only [List.cons_append, List.nil_append, Bytes.doubles, hbackslash, hother c hc,
        hother d hd, Bool.and_false, Bool.false_or]
      exact ih false

/-- Escaping neither makes nor hides a parenthesis. -/
theorem hasParens_escape (s : Bytes) :
    Condition.hasParens (escape s) = Condition.hasParens s := by
  induction s with
  | nil => rfl
  | cons c rest ih =>
    have hbackslash : Condition.hasParens [Byte.backslash] = false := rfl
    rw [escape, List.flatMap_cons, Condition.hasParens_append, ← List.singleton_append,
      Condition.hasParens_append [c] rest, ← ih]
    obtain hself | ⟨d, hescaped, -, -, hc, hd⟩ := escapeByte_cases c
    · rw [hself, escape]
    · rw [hescaped, hc, ← List.singleton_append, Condition.hasParens_append, hbackslash, hd, escape]
      rfl

end Quoted

/-! ## Where the operator is found -/

namespace Comparison

/-- The bytes that the comparison operators begin with. -/
def openers : Bytes := Operator.comparisons.flatMap (·.text.take 1)

/-- No operator is found inside a literal. -/
theorem findOperator?_of_encloses {scan : Scan} {s : Bytes} (h : scan.Encloses s)
    (before rest : Bytes) :
    findOperator? scan before (s ++ rest) =
      findOperator? (s.foldl Scan.step scan) (s.reverse ++ before) rest := by
  induction s generalizing scan before with
  | nil => rfl
  | cons b s ih =>
    rw [List.cons_append, findOperator?, h.1]
    simp only [Bool.false_and, Bool.false_eq_true, if_false]
    rw [ih h.2, List.foldl_cons, List.reverse_cons, List.append_assoc]
    rfl

/-- Where a byte opens no operator, none is found. -/
theorem find?_of_notMem {b : UInt8} (hb : b ∉ openers) (rest : Bytes) :
    (Operator.comparisons.find? fun op => op.text.isPrefixOf (b :: rest)) = none := by
  rw [List.find?_eq_none]
  intro op hop hstarts
  apply hb
  obtain ⟨after, hafter⟩ := List.isPrefixOf_iff_prefix.mp hstarts
  have hne : op.text ≠ [] := by
    cases op <;> exact List.cons_ne_nil _ _
  obtain ⟨first, more, htext⟩ := List.exists_cons_of_ne_nil hne
  rw [htext, List.cons_append] at hafter
  refine List.mem_flatMap.mpr ⟨op, hop, ?_⟩
  rw [htext, (List.cons.inj hafter).1]
  exact List.mem_singleton.mpr rfl

/-- No operator is found among bytes that none begins with. -/
theorem findOperator?_of_plain {s : Bytes}
    (hbytes : ∀ b ∈ s, Scan.isBracket b = false ∧ b ∉ openers) (depth : Int)
    (before rest : Bytes) :
    findOperator? (Scan.outside depth) before (s ++ rest) =
      findOperator? (Scan.outside depth) (s.reverse ++ before) rest := by
  induction s generalizing before with
  | nil => rfl
  | cons b s ih =>
    rw [List.forall_mem_cons] at hbytes
    rw [List.cons_append, findOperator?, find?_of_notMem hbytes.1.2, ite_self]
    simp only [Scan.step_of_isBracket_eq_false hbytes.1.1]
    rw [ih hbytes.2, List.reverse_cons, List.append_assoc]
    rfl

end Comparison

namespace WrittenOperand

variable (written : WrittenOperand)

/-- No operator is found in an operand. -/
theorem findOperator?_text (before rest : Bytes) :
    Comparison.findOperator? (Scan.outside 0) before (written.text ++ rest) =
      Comparison.findOperator? (Scan.outside 0) (written.text.reverse ++ before) rest := by
  cases written with
  | literal s =>
    obtain ⟨hencloses, hreturns⟩ := Scan.encloses_rest_encode 0 s
    have hquote : Byte.doubleQuote ∉ Comparison.openers := by decide
    have hstep : (Scan.outside 0).step Byte.doubleQuote = Scan.inLiteral 0 := rfl
    have htext : (literal s).text =
        Byte.doubleQuote :: (Quoted.escape s ++ [Byte.doubleQuote]) := rfl
    rw [htext, List.cons_append, Comparison.findOperator?, Comparison.find?_of_notMem hquote,
      ite_self]
    simp only [hstep]
    rw [Comparison.findOperator?_of_encloses hencloses, hreturns]
    simp
  | dotted path _ =>
    refine Comparison.findOperator?_of_plain (fun b hb => ?_) 0 before rest
    have hpath := path.isOfPath_text.bytes b hb
    exact ⟨Byte.isBracket_of_isOfPath hpath, Byte.notMem_of_isOfPath hpath rfl⟩

/-- The text of the literal, if it is one. -/
def quoted : WrittenOperand → Bytes
  | literal s => s
  | dotted _ _ => []

/-- An operand holds a connective where its literal does. -/
theorem doubles_text {b : UInt8} (hb : Quoted.isConnective b = true) (rest : Bytes) :
    Bytes.doubles b false (written.text ++ rest) =
      (Bytes.doubles b false written.quoted || Bytes.doubles b false rest) := by
  cases written with
  | literal s =>
    have hquote : Byte.doubleQuote ≠ b := by
      rintro rfl
      cases hb
    have htext : (literal s).text ++ rest =
        [] ++ Byte.doubleQuote :: (Quoted.escape s ++ Byte.doubleQuote :: rest) := by
      simp [text, Quoted.encode]
    rw [htext, Bytes.doubles_append_cons hquote, Bytes.doubles_append_cons hquote,
      Quoted.doubles_escape hb]
    rfl
  | dotted path _ =>
    have hnotMem : b ∉ path.text := by
      intro hmem
      have hmarks : b ∉ [Byte.ampersand, Byte.bar] :=
        Byte.notMem_of_isOfPath (path.isOfPath_text.bytes b hmem) rfl
      apply hmarks
      simpa [Quoted.isConnective] using hb
    exact Bytes.doubles_append_of_notMem hnotMem rest

/-- Parentheses stand in an operand when they stand in what it quotes. -/
theorem hasParens_text : Condition.hasParens written.text = Condition.hasParens written.quoted := by
  cases written with
  | literal s =>
    have hquote : Condition.hasParens [Byte.doubleQuote] = false := rfl
    rw [text, Quoted.encode, ← List.singleton_append, Condition.hasParens_append,
      Condition.hasParens_append, hquote, Quoted.hasParens_escape, Bool.false_or, Bool.or_false]
    rfl
  | dotted path _ =>
    refine List.any_eq_false.mpr fun b hb => ?_
    have hmarks : b ∉ [Byte.openParen, Byte.closeParen] :=
      Byte.notMem_of_isOfPath (path.isOfPath_text.bytes b hb) rfl
    simpa using hmarks

/-- Whether an operand holds what no condition may hold: a connective or a parenthesis. -/
def isComplex : Bool := Condition.hasConnective written.quoted || Condition.hasParens written.quoted

end WrittenOperand

/-! ## Comparisons -/

/-- A comparison as it is written, with blanks around its operator or none. The blanks are spaces,
tabs and carriage returns: a newline belongs to the formatting of a template, which is folded away
before its statements are read unless it is to be kept. -/
structure WrittenComparison where
  left : WrittenOperand
  op : Operator
  isComparison : op ∈ Operator.comparisons
  right : WrittenOperand
  before : Bytes
  after : Bytes
  areBlank : ∀ b ∈ before ++ after, b ∈ [Byte.space, Byte.tab, Byte.carriageReturn]

namespace WrittenComparison

variable (written : WrittenComparison)

/-- A comparison as it is written. -/
def text : Bytes :=
  written.left.text ++ written.before ++ written.op.text ++ (written.after ++ written.right.text)

/-- The comparison that is written. -/
def comparison : Comparison where
  left := written.left.operand
  op := written.op
  right := written.right.operand

/-- Whether an operand holds what no condition may hold. -/
def isComplex : Bool := written.left.isComplex || written.right.isComplex

/-- The blanks around the operator are stripped off the operands. -/
theorem all_isGap :
    written.before.all Bytes.isGap = true ∧ written.after.all Bytes.isGap = true := by
  have hgap : ∀ b ∈ [Byte.space, Byte.tab, Byte.carriageReturn], Bytes.isGap b = true := by
    decide +kernel
  constructor <;> rw [List.all_eq_true] <;> intro b hb <;> apply hgap b <;>
    apply written.areBlank b <;> simp [hb]

/-- What is behind the operator does not go on with an equals sign. -/
theorem head?_behind : (written.after ++ written.right.text).head? ≠ some Byte.equals := by
  intro hhead
  cases hafter : written.after with
  | nil =>
    rw [hafter, List.nil_append] at hhead
    cases hright : written.right with
    | literal s =>
      rw [hright] at hhead
      cases hhead
    | dotted path _ =>
      rw [hright] at hhead
      have hpath := path.isOfPath_text.bytes _ (List.mem_of_mem_head? hhead)
      cases hpath
  | cons b rest =>
    rw [hafter, List.cons_append, List.head?_cons, Option.some.injEq] at hhead
    have hblank := written.areBlank b (by simp [hafter])
    rw [hhead] at hblank
    revert hblank
    decide

/-- The operator is found where it is written. -/
theorem findOperator?_text :
    Comparison.findOperator? Scan.start [] written.text =
      some (written.left.text ++ written.before, written.op,
        written.after ++ written.right.text) := by
  have hblank : ∀ b ∈ [Byte.space, Byte.tab, Byte.carriageReturn],
      Scan.isBracket b = false ∧ b ∉ Comparison.openers := by decide +kernel
  have hbefore : ∀ b ∈ written.before, Scan.isBracket b = false ∧ b ∉ Comparison.openers := by
    intro b hb
    apply hblank
    apply written.areBlank
    exact List.mem_append_left _ hb
  obtain ⟨first, more, hop⟩ : ∃ first more, written.op.text = first :: more := by
    apply List.exists_cons_of_ne_nil
    cases written.op <;> exact List.cons_ne_nil _ _
  obtain ⟨earlier, later, hcomparisons, hearlier⟩ :=
    Operator.exists_comparisons_eq_append written.isComparison written.head?_behind
  have hfind : (Operator.comparisons.find? fun op =>
      op.text.isPrefixOf (written.op.text ++ (written.after ++ written.right.text))) =
        some written.op := by
    rw [List.find?_eq_some_iff_append]
    refine ⟨by simp, earlier, later, hcomparisons, fun op hop => ?_⟩
    rw [hearlier op hop]
    rfl
  have hread : (written.before.reverse ++ (written.left.text.reverse ++ [])).isEmpty = false := by
    simpa using fun _ => written.left.isTrimmed_text.ne_nil
  rw [text, List.append_assoc, List.append_assoc, show Scan.start = Scan.outside 0 from rfl,
    written.left.findOperator?_text, Comparison.findOperator?_of_plain hbefore]
  rw [hop, List.cons_append] at hfind ⊢
  rw [Comparison.findOperator?, hread]
  simp only [show (Scan.outside 0).isOutside = true from rfl, Bool.not_false, Bool.and_self,
    if_true, hfind]
  rw [← List.cons_append, ← hop, List.drop_left]
  simp

/-- A comparison is read as it is written. -/
theorem parse_text : Comparison.parse written.text = written.comparison := by
  obtain ⟨hbefore, hafter⟩ := written.all_isGap
  have hleft : Bytes.strip (written.left.text ++ written.before) = written.left.text :=
    Bytes.strip_append [] written.left.text written.before rfl hbefore
      written.left.isTrimmed_text.first written.left.isTrimmed_text.last
  have hright : Bytes.strip (written.after ++ written.right.text) = written.right.text :=
    written.right.isTrimmed_text.strip_append written.after hafter
  have hne : ∀ operand : WrittenOperand, operand.text.isEmpty = false := by
    intro operand
    simpa using operand.isTrimmed_text.ne_nil
  have hsplit : Comparison.split? written.text =
      some (written.left.text, written.op, written.right.text) := by
    rw [Comparison.split?, written.findOperator?_text]
    simp only [hleft, hright, hne, Bool.or_self, Bool.false_eq_true, if_false]
  rw [Comparison.parse, hsplit]
  simp only [WrittenOperand.parse_text]
  rfl

/-! ### What a condition may not hold -/

/-- What stands between the operands. -/
theorem notMem_between {b : UInt8}
    (hb : b ∉ Byte.space :: Byte.tab :: Byte.carriageReturn :: ascii "=!<>") :
    b ∉ written.before ++ written.op.text ++ written.after := by
  have hblank : b ∉ [Byte.space, Byte.tab, Byte.carriageReturn] := fun hmem =>
    hb (List.mem_append_left (ascii "=!<>") hmem)
  have hop : ∀ op ∈ Operator.comparisons, ∀ c ∈ op.text, c ∈ ascii "=!<>" := by decide +kernel
  simp only [List.mem_append, not_or]
  refine ⟨⟨fun hmem => ?_, fun hmem => ?_⟩, fun hmem => ?_⟩
  · exact hblank (written.areBlank b (List.mem_append_left _ hmem))
  · exact hb (List.mem_append_right [Byte.space, Byte.tab, Byte.carriageReturn]
      (hop written.op written.isComparison b hmem))
  · exact hblank (written.areBlank b (List.mem_append_right _ hmem))

/-- The text of a comparison, with what stands between the operands as one part. -/
theorem text_eq : written.text =
    written.left.text ++ ((written.before ++ written.op.text ++ written.after) ++
      written.right.text) := by
  simp [text]

/-- A connective stands in a comparison when one of its operands holds it. -/
theorem hasConnective_text : Condition.hasConnective written.text =
    (Condition.hasConnective written.left.quoted ||
      Condition.hasConnective written.right.quoted) := by
  have hdoubles : ∀ b, Quoted.isConnective b = true →
      b ∉ Byte.space :: Byte.tab :: Byte.carriageReturn :: ascii "=!<>" →
      Bytes.occursIn [b, b] written.text =
        (Bytes.occursIn [b, b] written.left.quoted ||
          Bytes.occursIn [b, b] written.right.quoted) := by
    intro b hb hbetween
    have hright := written.right.doubles_text hb []
    rw [List.append_nil] at hright
    simp only [Bytes.occursIn_pair]
    rw [text_eq, written.left.doubles_text hb,
      Bytes.doubles_append_of_notMem (written.notMem_between hbetween), hright]
    simp [Bytes.doubles]
  have hand := hdoubles Byte.ampersand rfl (by decide)
  have hor := hdoubles Byte.bar rfl (by decide)
  simp only [Condition.hasConnective, show ascii "&&" = [Byte.ampersand, Byte.ampersand] from rfl,
    show ascii "||" = [Byte.bar, Byte.bar] from rfl, hand, hor]
  simp only [Bool.or_assoc, Bool.or_left_comm]

/-- A parenthesis stands in a comparison when one of its operands holds it. -/
theorem hasParens_text : Condition.hasParens written.text =
    (Condition.hasParens written.left.quoted || Condition.hasParens written.right.quoted) := by
  have hbetween : Condition.hasParens (written.before ++ written.op.text ++ written.after) =
      false := by
    rw [Condition.hasParens, List.any_eq_false]
    intro b hb hparen
    have hopen := written.notMem_between (b := Byte.openParen) (by decide)
    have hclose := written.notMem_between (b := Byte.closeParen) (by decide)
    simp only [Bool.or_eq_true, beq_iff_eq] at hparen
    obtain rfl | rfl := hparen
    · exact hopen hb
    · exact hclose hb
  rw [text_eq, Condition.hasParens_append, Condition.hasParens_append, hbetween,
    written.left.hasParens_text, written.right.hasParens_text, Bool.false_or]

/-- A comparison is no call of a helper: there is no parenthesis behind its first word. -/
theorem helperCall?_text : Condition.helperCall? written.text = none := by
  have hinside : Statement.insideParens?
      (Bytes.skipBlanks (Statement.readWord written.text).2) = none := by
    rw [text_eq]
    cases written.left with
    | literal s =>
      exact Statement.insideParens?_eq_none [] _ _ (by simp) rfl rfl (by decide)
    | dotted path _ =>
      have hop : ∀ op ∈ Operator.comparisons, ∃ first more, op.text = first :: more ∧
          Byte.isWord first = false ∧ Byte.isBlank first = false ∧ first ≠ Byte.openParen := by
        intro op hop
        simp only [Operator.comparisons, List.mem_cons, List.not_mem_nil, or_false] at hop
        obtain rfl | rfl | rfl | rfl | rfl | rfl := hop <;> exact ⟨_, _, rfl, by decide⟩
      obtain ⟨first, more, hfirst, hword, hblank, hparen⟩ := hop written.op written.isComparison
      have hlead : Byte.openParen ∉ path.text ++ written.before := by
        rw [List.mem_append, not_or]
        constructor
        · intro hmem
          have hpath := path.isOfPath_text.bytes _ hmem
          cases hpath
        · intro hmem
          have hblank := written.areBlank _ (List.mem_append_left _ hmem)
          revert hblank
          decide
      have hnone := Statement.insideParens?_eq_none (path.text ++ written.before) first
        (more ++ written.after ++ written.right.text) hlead hword hblank hparen
      rw [hfirst]
      simpa [WrittenOperand.text] using hnone
  rw [Condition.helperCall?]
  simp only [hinside]

/-- A condition is read as the comparison that is written, unless an operand holds what no condition
may hold. -/
theorem parse_condition : Condition.parse written.text =
    if written.isComplex then .error (.complexCondition written.text)
    else .ok { comparison := written.comparison } := by
  rw [Condition.parse, written.helperCall?_text, written.hasConnective_text,
    written.hasParens_text, isComplex, WrittenOperand.isComplex, WrittenOperand.isComplex,
    written.parse_text]
  cases Condition.hasConnective written.left.quoted <;>
  cases Condition.hasConnective written.right.quoted <;>
  cases Condition.hasParens written.left.quoted <;>
  cases Condition.hasParens written.right.quoted <;> rfl

/-! ### In a region -/

/-- No blank stands at an end of a comparison. -/
theorem isTrimmed_text : Bytes.IsTrimmed written.text := by
  have haround := written.left.isTrimmed_text.around written.right.isTrimmed_text
    (written.before ++ written.op.text ++ written.after)
  rwa [List.append_assoc, ← text_eq] at haround

/-- A comparison holds no end of a region, and nothing that preparing would change. -/
theorem isPlain_text : Source.IsPlain written.text := by
  have hbetween : Source.IsPlain (written.before ++ written.op.text ++ written.after) :=
    .of_notMem ⟨written.notMem_between (by decide), written.notMem_between (by decide),
      written.notMem_between (by decide)⟩
  rw [text_eq]
  exact written.left.isPlain_text.append (hbetween.append written.right.isPlain_text)

/-- What stands behind a keyword and a space. -/
theorem afterKeyword?_text (keyword : Bytes) :
    Statement.afterKeyword? keyword (keyword ++ Byte.space :: written.text) =
      some written.text := by
  have hstrip : Bytes.strip (Byte.space :: written.text) = written.text :=
    written.isTrimmed_text.strip_append [Byte.space] rfl
  have hstarts : Bytes.startsWith (keyword ++ Byte.space :: written.text) keyword = true := by
    simp [Bytes.startsWith]
  have hblank : Byte.isBlank Byte.space = true := rfl
  rw [Statement.afterKeyword?, if_pos hstarts, List.drop_left]
  simp only [hblank, if_true, hstrip]

/-- Behind its keyword a condition is read. -/
theorem parse_if : Statement.parse (ascii "if" ++ Byte.space :: written.text) =
    (Condition.parse written.text).map .ifOpen := by
  obtain ⟨b, rest, htext⟩ := List.exists_cons_of_ne_nil written.isTrimmed_text.ne_nil
  have hafter := written.afterKeyword?_text (ascii "if")
  have hmark : Statement.parse (ascii "if" ++ Byte.space :: written.text) =
      Statement.parseMark (ascii "if" ++ Byte.space :: written.text) := rfl
  rw [hmark, Statement.parseMark, hafter, htext]

/-- Behind its keyword the test of a case is read. -/
theorem parse_case : Statement.parse (ascii "case" ++ Byte.space :: written.text) =
    .ok (.caseMark written.comparison) := by
  obtain ⟨b, rest, htext⟩ := List.exists_cons_of_ne_nil written.isTrimmed_text.ne_nil
  have hafter := written.afterKeyword?_text (ascii "case")
  have hmark : Statement.parse (ascii "case" ++ Byte.space :: written.text) =
      Statement.parseMark (ascii "case" ++ Byte.space :: written.text) := rfl
  have hif : Statement.afterKeyword? (ascii "if")
      (ascii "case" ++ Byte.space :: written.text) = none := rfl
  have hswitch : Statement.afterKeyword? (ascii "switch")
      (ascii "case" ++ Byte.space :: written.text) = none := rfl
  rw [hmark, Statement.parseMark, hif, hswitch, hafter, ← written.parse_text, htext]

/-- The inside of a region that a keyword opens. -/
def inside (keyword : Bytes) : Bytes :=
  Byte.space :: (keyword ++ Byte.space :: written.text) ++ [Byte.space]

/-- The spaces around the inside of a region are stripped. -/
theorem strip_inside {keyword : Bytes} (hkeyword : Bytes.IsTrimmed keyword) :
    (written.inside keyword).strip = keyword ++ Byte.space :: written.text := by
  have haround := hkeyword.around written.isTrimmed_text [Byte.space]
  rw [List.append_assoc] at haround
  exact Bytes.strip_append [Byte.space] _ [Byte.space] rfl rfl haround.first haround.last

/-- The inside of a region is plain when its keyword is. -/
theorem isPlain_inside {keyword : Bytes} (hkeyword : Source.IsPlain keyword) :
    Source.IsPlain (written.inside keyword) := by
  have hspace : Source.IsPlain [Byte.space] := .of_notMem (by decide)
  exact (hspace.append (hkeyword.append (hspace.append written.isPlain_text))).append hspace

/-- A condition without a body. -/
def inIf : Bytes :=
  Source.markup (written.inside (ascii "if")) ++ Source.markup (ascii " endif ")

/-- A switch of one case without a body. -/
def inCase : Bytes :=
  Source.markup (ascii " switch ") ++
    (Source.markup (written.inside (ascii "case")) ++ Source.markup (ascii " endswitch "))

/-- A condition in a template is what is written, or is refused where it opens. -/
theorem parse_inIf (keepFormatting : Bool) :
    Tree.parse keepFormatting written.inIf =
      if written.isComplex then
        .error { fault := .complexCondition written.text, source := written.inIf, offset := 0 }
      else .ok ⟨[.cond { comparison := written.comparison } [.onTrue []]]⟩ := by
  have hplain : Source.IsPlain (written.inside (ascii "if")) :=
    written.isPlain_inside (.of_notMem (by decide))
  have hplainEnd : Source.IsPlain (ascii " endif ") := .of_notMem (by decide)
  have hparse := written.parse_if
  rw [← written.strip_inside ⟨rfl, rfl⟩, written.parse_condition] at hparse
  cases hcomplex : written.isComplex with
  | true =>
    simp only [hcomplex, if_true] at hparse ⊢
    exact Tree.parse_markup_append_error hplain keepFormatting
      (.append (.markup hplain) (.markup hplainEnd)) hparse
  | false =>
    simp only [hcomplex, Bool.false_eq_true, if_false] at hparse ⊢
    exact Tree.parse_construct (.condition { comparison := written.comparison })
      hplain (.markup hplainEnd) hparse
      (.ends (.markup rfl (List.append_nil _).symm hplainEnd) rfl rfl) rfl rfl keepFormatting

/-- A case in a template is what is written. -/
theorem parse_inCase (keepFormatting : Bool) :
    Tree.parse keepFormatting written.inCase =
      .ok ⟨[.switch {} [.case written.comparison []]]⟩ := by
  have hplain : Source.IsPlain (ascii " switch ") := .of_notMem (by decide)
  have hplainCase : Source.IsPlain (written.inside (ascii "case")) :=
    written.isPlain_inside (.of_notMem (by decide))
  have hplainEnd : Source.IsPlain (ascii " endswitch ") := .of_notMem (by decide)
  have hparse := written.parse_case
  rw [← written.strip_inside ⟨rfl, rfl⟩] at hparse
  exact Tree.parse_construct (.switch {}) hplain
    (.append (.markup hplainCase) (.markup hplainEnd)) rfl
    (.markup_node rfl rfl hplainCase hparse rfl
      (.ends (.markup rfl (List.append_nil _).symm hplainEnd) rfl rfl)) rfl rfl keepFormatting

end WrittenComparison

/-- A comparison is read as it is written, whatever its literals hold, in the case of a switch; so
it is in a condition, unless a literal holds a connective or a parenthesis, for which the condition
is refused. -/
theorem Tree.parse_writtenComparison (written : WrittenComparison) (keepFormatting : Bool) :
    parse keepFormatting written.inCase = .ok ⟨[.switch {} [.case written.comparison []]]⟩ ∧
      parse keepFormatting written.inIf =
        if written.isComplex then
          .error { fault := .complexCondition written.text, source := written.inIf, offset := 0 }
        else .ok ⟨[.cond { comparison := written.comparison } [.onTrue []]]⟩ :=
  ⟨written.parse_inCase keepFormatting, written.parse_inIf keepFormatting⟩

/-- A comparison with a literal that holds parentheses. -/
def WrittenComparison.parenthesized : WrittenComparison where
  left := .dotted ⟨[ascii "x"], by simp, by decide⟩ rfl
  op := .equal
  isComparison := by decide
  right := .literal (ascii "(a)")
  before := [Byte.space]
  after := [Byte.space]
  areBlank := by decide +kernel

/-- A literal with parentheses is read in a case, and refused in a condition. -/
theorem WrittenComparison.parse_parenthesized :
    parenthesized.text = ascii "x == \"(a)\"" ∧
      Tree.parse false parenthesized.inCase =
        .ok ⟨[.switch {} [.case ⟨{ text := ascii "x" }, .equal, .ofText (ascii "(a)")⟩ []]]⟩ ∧
      Tree.parse false parenthesized.inIf =
        .error { fault := .complexCondition (ascii "x == \"(a)\""),
                 source := parenthesized.inIf, offset := 0 } :=
  ⟨rfl, parenthesized.parse_inCase false, parenthesized.parse_inIf false⟩

end Stencil
