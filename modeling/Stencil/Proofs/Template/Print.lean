import Stencil.Proofs.Template.Clause

/-!
# Print statements in writing

A print statement is written as a value with its modifiers behind bars and a prefix and a suffix
clause around literals. The clauses are looked for from the end of the statement, by their words
between spaces, so that a value which is itself one of these words seems to open a clause when a
clause follows it. The statement is read as it is written all the same (`Tree.parse_written`), with
one exception: a value that is a word for a prefix, with a suffix clause right behind it, is taken
for the prefix clause, and nothing is left for the value.
-/

set_option autoImplicit false

namespace Stencil

/-! ## Statements from their parts -/

namespace Print

/-- A print statement without an output mode, from its clauses and its value. -/
theorem parse_of_parts {expression rest before after : Bytes} {value : Operand}
    {modifiers : List ModifierCall} (hclauses : splitClauses expression = (rest, before, after))
    (hvalue : parseValue rest = .ok (value, modifiers)) :
    Statement.parse (Byte.equals :: expression) =
      .ok (.print { value, before, after, modifiers }) := by
  have hmode : readMode? (Byte.equals :: expression) = some ([], expression) := rfl
  rw [Statement.parse, parse?, hmode]
  simp only [Option.map_some, hclauses, hvalue]
  rfl

/-- A print statement without an output mode whose clauses leave nothing for the value. -/
theorem parse_of_empty {expression before after : Bytes}
    (hclauses : splitClauses expression = ([], before, after)) :
    Statement.parse (Byte.equals :: expression) = .error .emptyPrint := by
  have hmode : readMode? (Byte.equals :: expression) = some ([], expression) := rfl
  have hvalue : parseValue [] = .error .emptyPrint := rfl
  rw [Statement.parse, parse?, hmode]
  simp only [Option.map_some, hclauses, hvalue]
  rfl

/-- A value with its modifiers. -/
theorem parseValue_of_parts {expression first : Bytes} {parts : List Bytes}
    {modifiers : List ModifierCall}
    (hsplit : Bytes.splitTopLevel Byte.bar expression.strip = (first, parts))
    (hvalue : (Operand.parse first).isEmpty = false)
    (hmodifiers : parts.mapM parseModifier = .ok modifiers) :
    parseValue expression = .ok (Operand.parse first, modifiers) := by
  rw [parseValue]
  simp only [hsplit, hvalue, hmodifiers]
  rfl

end Print

/-! ## Modifiers in writing -/

/-- A modifier call as it is written: a word, and its arguments in parentheses if there are any. -/
structure WrittenModifier where
  name : Bytes
  isWord : name.isWord = true
  args : List WrittenOperand

namespace WrittenModifier

variable (written : WrittenModifier)

/-- What stands between the parentheses. -/
def inside : Bytes := [Byte.comma].intercalate (written.args.map WrittenOperand.text)

/-- A modifier call as it is written. -/
def text : Bytes :=
  if written.args = [] then written.name
  else written.name ++ Byte.openParen :: (written.inside ++ [Byte.closeParen])

/-- The call that is written. -/
def call : ModifierCall := { name := written.name, args := written.args.map WrittenOperand.operand }

/-- The name of a modifier is a word. -/
theorem isOfPath_name : Bytes.IsOfPath written.name := .of_isWord written.isWord

/-- What stands between the commas are the arguments. -/
theorem exists_arg_of_mem {part : Bytes} (h : part ∈ written.args.map WrittenOperand.text) :
    ∃ arg : WrittenOperand, part = arg.text := by
  obtain ⟨arg, -, rfl⟩ := List.mem_map.mp h
  exact ⟨arg, rfl⟩

/-- No blank stands at an end of the arguments. -/
theorem isTrimmed_inside (h : written.args ≠ []) : Bytes.IsTrimmed written.inside := by
  refine .intercalate _ (by simpa using h) fun part hpart => ?_
  obtain ⟨arg, rfl⟩ := written.exists_arg_of_mem hpart
  exact arg.isTrimmed_text

/-- No blank stands at an end of a modifier call. -/
theorem isTrimmed_text : Bytes.IsTrimmed written.text := by
  have hclose : Bytes.IsTrimmed [Byte.closeParen] := ⟨rfl, rfl⟩
  rw [text]
  split
  · exact written.isOfPath_name.isTrimmed
  · have haround := written.isOfPath_name.isTrimmed.around hclose (Byte.openParen :: written.inside)
    rwa [List.append_assoc] at haround

/-- A modifier call is plain. -/
theorem isPlain_text : Source.IsPlain written.text := by
  have hinside : Source.IsPlain written.inside := by
    refine .intercalate (.of_notMem (by decide)) fun part hpart => ?_
    obtain ⟨arg, rfl⟩ := written.exists_arg_of_mem hpart
    exact arg.isPlain_text
  have hopen : Source.IsPlain [Byte.openParen] := .of_notMem (by decide)
  have hclose : Source.IsPlain [Byte.closeParen] := .of_notMem (by decide)
  rw [text]
  split
  · exact written.isOfPath_name.isPlain
  · exact written.isOfPath_name.isPlain.append (hopen.append (hinside.append hclose))

/-- A scanner that looks for a space or a bar passes a modifier. -/
theorem passes_text {b : UInt8} (hb : b = Byte.space ∨ b = Byte.bar) :
    Scan.Passes b 0 written.text := by
  obtain ⟨hquote, hpath, hbracket, hcomma⟩ : b ≠ Byte.doubleQuote ∧ Byte.isOfPath b = false ∧
      Scan.isBracket b = false ∧ b ≠ Byte.comma := by
    obtain rfl | rfl := hb <;> decide
  have hinside : Scan.Passes b 1 written.inside := by
    refine .intercalate (.singleton rfl hcomma) fun part hpart => ?_
    obtain ⟨arg, rfl⟩ := written.exists_arg_of_mem hpart
    exact arg.passes_text hquote hpath 1
  rw [text]
  split
  · exact written.isOfPath_name.passes hpath 0
  · exact (written.isOfPath_name.passes hpath 0).append (.parens hbracket hinside)

/-- The arguments are read as they are written. -/
theorem parseArgs_inside (h : written.args ≠ []) :
    Statement.parseArgs written.inside = written.args.map WrittenOperand.operand := by
  have htrimmed := written.isTrimmed_inside h
  have hpresent : written.inside.isEmpty = false := by simpa using htrimmed.ne_nil
  have hsplit : Bytes.topLevelParts Byte.comma written.inside =
      written.args.map WrittenOperand.text := by
    refine Bytes.topLevelParts_intercalate rfl (by simpa using h) fun part hpart => ?_
    obtain ⟨arg, rfl⟩ := written.exists_arg_of_mem hpart
    exact arg.passes_text (by decide) rfl 0
  have hparse : Operand.parse ∘ WrittenOperand.text = WrittenOperand.operand :=
    funext WrittenOperand.parse_text
  rw [Statement.parseArgs, htrimmed.strip_eq, hpresent, hsplit, List.map_map, hparse]
  rfl

/-- A modifier call is read as the call that is written. -/
theorem parseModifier_text : Print.parseModifier written.text = .ok written.call := by
  have hname : written.name.isEmpty = false := by simpa using written.isOfPath_name.nonempty
  rw [Print.parseModifier, written.isTrimmed_text.strip_eq, text]
  by_cases hargs : written.args = []
  · have hword : Statement.readWord written.name = (written.name, []) := by
      have hend : ∀ b, ([] : Bytes).head? = some b → Byte.isWord b = false := by simp
      have happend := Statement.readWord_append written.isWord hend
      rwa [List.append_nil] at happend
    simp [hargs, hword, hname, Bytes.skipBlanks, call]
  · let parens := Byte.openParen :: (written.inside ++ [Byte.closeParen])
    have hword : Statement.readWord (written.name ++ parens) = (written.name, parens) :=
      Statement.readWord_append written.isWord (by rintro b ⟨⟩; rfl)
    have hblanks : Bytes.skipBlanks parens = parens := rfl
    have hparens : Statement.insideParens? parens = some written.inside := by
      simp [Statement.insideParens?, Statement.dropByte?, parens]
    simp only [hargs, if_false]
    rw [hword]
    simp only [hblanks, hname, hparens, written.parseArgs_inside hargs]
    rfl

/-- Modifier calls are read as they are written. -/
theorem mapM_parseModifier (modifiers : List WrittenModifier) :
    (modifiers.map text).mapM Print.parseModifier = .ok (modifiers.map call) := by
  induction modifiers with
  | nil => rfl
  | cons first rest ih =>
    rw [List.map_cons, List.mapM_cons, first.parseModifier_text, ih]
    rfl

end WrittenModifier

/-! ## Print statements in writing -/

/-- A print statement as it is written: a value with modifiers, and the texts of the clauses. -/
structure WrittenPrint where
  value : WrittenOperand
  modifiers : List WrittenModifier := []
  before : Option Bytes := none
  after : Option Bytes := none

namespace WrittenPrint

variable (written : WrittenPrint)

/-- The value and its modifiers behind bars. -/
def core : Bytes :=
  [Byte.bar].intercalate (written.value.text :: written.modifiers.map WrittenModifier.text)

/-- The clauses as they are written. -/
def clauses : Bytes :=
  Print.clause (ascii "prefix") written.before ++ Print.clause (ascii "suffix") written.after

/-- What stands behind the equals sign. -/
def expression : Bytes := Byte.space :: (written.core ++ written.clauses)

/-- The statement that is written. -/
def statement : Print where
  value := written.value.operand
  before := written.before.getD []
  after := written.after.getD []
  modifiers := written.modifiers.map WrittenModifier.call

/-- What holds of the value and of every modifier holds of all parts between the bars. -/
theorem forall_mem_parts (property : Bytes → Prop) (hvalue : property written.value.text)
    (hmodifiers : ∀ modifier : WrittenModifier, property modifier.text) :
    ∀ part ∈ written.value.text :: written.modifiers.map WrittenModifier.text, property part := by
  intro part hpart
  obtain rfl | hpart := List.mem_cons.mp hpart
  · exact hvalue
  · obtain ⟨modifier, -, rfl⟩ := List.mem_map.mp hpart
    exact hmodifiers modifier

/-- No blank stands at an end of the value with its modifiers. -/
theorem isTrimmed_core : Bytes.IsTrimmed written.core :=
  .intercalate _ (by simp) (written.forall_mem_parts _ written.value.isTrimmed_text
    WrittenModifier.isTrimmed_text)

/-- The value with its modifiers is plain. -/
theorem isPlain_core : Source.IsPlain written.core :=
  .intercalate (.of_notMem (by decide)) (written.forall_mem_parts _ written.value.isPlain_text
    WrittenModifier.isPlain_text)

/-- No space shows in the value with its modifiers. -/
theorem passes_core : Scan.Passes Byte.space 0 written.core :=
  .intercalate (.singleton rfl (by decide)) (written.forall_mem_parts _
    (written.value.passes_text (by decide) rfl 0) fun modifier => modifier.passes_text (.inl rfl))

/-- The value and its modifiers are read as they are written. -/
theorem parseValue_core :
    Print.parseValue (Byte.space :: written.core) =
      .ok (written.value.operand, written.modifiers.map WrittenModifier.call) := by
  have hstrip : Bytes.strip (Byte.space :: written.core) = written.core :=
    written.isTrimmed_core.strip_append [Byte.space] rfl
  have hparts : Bytes.topLevelParts Byte.bar written.core =
      written.value.text :: written.modifiers.map WrittenModifier.text :=
    Bytes.topLevelParts_intercalate rfl (by simp) (written.forall_mem_parts _
      (written.value.passes_text (by decide) rfl 0) fun modifier => modifier.passes_text (.inr rfl))
  have hsplit : Bytes.splitTopLevel Byte.bar written.core =
      (written.value.text, written.modifiers.map WrittenModifier.text) := by
    rw [Bytes.topLevelParts] at hparts
    obtain ⟨hfirst, hrest⟩ := List.cons.inj hparts
    exact Prod.ext hfirst hrest
  rw [← written.value.parse_text]
  refine Print.parseValue_of_parts (by rw [hstrip, hsplit]) ?_
    (WrittenModifier.mapM_parseModifier written.modifiers)
  rw [written.value.parse_text]
  exact written.value.isEmpty_operand

/-! ### The clauses -/

/-- What stands before the clauses. -/
def lead : Bytes := Byte.space :: written.core

/-- What stands before the suffix clause. -/
def leadBefore : Bytes := written.lead ++ Print.clause (ascii "prefix") written.before

/-- The expression with the suffix clause at its end. -/
theorem expression_eq :
    written.expression = written.leadBefore ++ Print.clause (ascii "suffix") written.after := by
  simp [expression, clauses, leadBefore, lead]

/-- Where a clause word stands at top level: at the start, when the expression begins with it, and
where its clause opens. -/
theorem findTopLevel_expression {word : Bytes} (hword : Bytes.IsOfPath word) :
    Bytes.findTopLevel (Print.clauseMark word) written.expression =
      (if (Print.clauseMark word).isPrefixOf written.expression then [0] else []) ++
        ((if word = ascii "prefix" ∧ written.before.isSome then [written.lead.length] else []) ++
          (if word = ascii "suffix" ∧ written.after.isSome then [written.leadBefore.length]
            else [])) := by
  have hopening : Bytes.IsOfPath (ascii "prefix") := .of_isWord (by decide)
  have hsuffix : Bytes.IsOfPath (ascii "suffix") := .of_isWord (by decide)
  have hlead : 1 + written.core.length = written.lead.length := Nat.add_comm 1 _
  have hleadBefore : written.lead.length + (Print.clause (ascii "prefix") written.before).length =
      written.leadBefore.length := List.length_append.symm
  have hafter := Print.findTopLevelFrom_clause hword hsuffix written.after
    written.leadBefore.length []
  rw [List.append_nil, Bytes.findTopLevelFrom, List.append_nil] at hafter
  rw [Bytes.findTopLevel_eq, show Scan.start = Scan.outside 0 from rfl, expression,
    Print.findTopLevelFrom_space, Nat.zero_add,
    Print.findTopLevelFrom_of_passes word 1 written.passes_core, clauses, hlead,
    Print.findTopLevelFrom_clause hword hopening written.before, hleadBefore, hafter]

/-- Clauses begin with a space, unless there are none. -/
theorem clauses_eq_nil_or_cons :
    written.clauses = [] ∨ ∃ rest, written.clauses = Byte.space :: rest := by
  rw [clauses]
  cases written.before with
  | some s => exact .inr ⟨_, rfl⟩
  | none =>
    cases written.after with
    | some s => exact .inr ⟨_, rfl⟩
    | none => exact .inl rfl

/-- What follows the value: nothing, its modifiers, or at once a clause. -/
theorem exists_expression_eq : ∃ rest,
    written.expression = Byte.space :: (written.value.text ++ rest) ∧
      (rest.head? = none ∨ rest.head? = some Byte.bar ∨
        rest.head? = some Byte.space ∧ written.modifiers = [] ∧ written.clauses ≠ []) := by
  by_cases hmodifiers : written.modifiers = []
  · have hcore : written.core = written.value.text := by simp [core, hmodifiers]
    refine ⟨written.clauses, by rw [expression, hcore], ?_⟩
    obtain hnone | ⟨rest, hclauses⟩ := written.clauses_eq_nil_or_cons
    · exact .inl (by rw [hnone]; rfl)
    · exact .inr (.inr (by simp [hclauses, hmodifiers]))
  · let parts := written.modifiers.map WrittenModifier.text
    have hparts : parts ≠ [] := by simpa [parts] using hmodifiers
    refine ⟨Byte.bar :: ([Byte.bar].intercalate parts ++ written.clauses), ?_, .inr (.inl rfl)⟩
    rw [expression, core, List.intercalate_cons_of_ne_nil hparts]
    simp [parts]

/-- An expression begins with a clause word only when the word is its value and a clause follows. -/
theorem of_isPrefixOf_expression {word : Bytes} (hword : Bytes.IsOfPath word)
    (h : (Print.clauseMark word).isPrefixOf written.expression = true) :
    written.value.text = word ∧ written.modifiers = [] ∧ written.clauses ≠ [] := by
  obtain ⟨rest, hexpression, hrest⟩ := written.exists_expression_eq
  rw [hexpression] at h
  cases hvalue : written.value with
  | literal s =>
    rw [hvalue, WrittenOperand.text, Print.isPrefixOf_clauseMark_encode hword] at h
    cases h
  | dotted path hdynamic =>
    have hstop : ∀ b, rest.head? = some b → Byte.isOfPath b = false := by
      intro b hb
      obtain hnone | hbar | ⟨hspace, -⟩ := hrest
      · cases hnone.symm.trans hb
      · cases hbar.symm.trans hb
        rfl
      · cases hspace.symm.trans hb
        rfl
    rw [hvalue] at h
    obtain ⟨rfl, hspace⟩ := (Print.isPrefixOf_clauseMark hword path.isOfPath_text hstop).mp h
    obtain hnone | hbar | ⟨-, hbehind⟩ := hrest
    · cases hnone.symm.trans hspace
    · cases hbar.symm.trans hspace
    · exact ⟨rfl, hbehind⟩

/-- The words that open a clause before and behind a value. -/
def prefixWords : List Bytes := [ascii "prefix", ascii "pfx"]

/-- The words that open a clause behind a value. -/
def suffixWords : List Bytes := [ascii "suffix", ascii "sfx"]

/-- The words that open clauses are words. -/
theorem areWords : (∀ word ∈ prefixWords, word.isWord = true) ∧
    ∀ word ∈ suffixWords, word.isWord = true := by decide

/-- Where a clause may be found: where one is written, or at the start for one that the value is
taken for, which ends behind the space after the value. -/
theorem cases_of_isClause {words : List Bytes} (hwords : ∀ word ∈ words, word.isWord = true)
    {limit : Nat} {place : Nat × Nat} (h : Print.IsClause words limit written.expression place) :
    (place = (written.lead.length, 8) ∧ ascii "prefix" ∈ words ∧ written.before.isSome) ∨
      (place = (written.leadBefore.length, 8) ∧ ascii "suffix" ∈ words ∧ written.after.isSome) ∨
      (place = (0, written.lead.length + 1) ∧ written.value.text ∈ words ∧
        written.modifiers = [] ∧ written.clauses ≠ []) := by
  obtain ⟨⟨word, hmem, hfound, hlength⟩, -⟩ := h
  have hword : Bytes.IsOfPath word := .of_isWord (hwords word hmem)
  rw [written.findTopLevel_expression hword, List.mem_append, List.mem_append] at hfound
  obtain hfound | hfound | hfound := hfound
  · split at hfound
    · rename_i hstarts
      obtain ⟨rfl, hmodifiers, hclauses⟩ := written.of_isPrefixOf_expression hword hstarts
      refine .inr (.inr ⟨Prod.ext (List.mem_singleton.mp hfound) ?_, hmem, hmodifiers, hclauses⟩)
      rw [hlength]
      simp [Print.clauseMark, lead, core, hmodifiers]
    · cases hfound
  · split at hfound
    · rename_i hclause
      obtain ⟨rfl, hsome⟩ := hclause
      exact .inl ⟨Prod.ext (List.mem_singleton.mp hfound) hlength, hmem, hsome⟩
    · cases hfound
  · split at hfound
    · rename_i hclause
      obtain ⟨rfl, hsome⟩ := hclause
      exact .inr (.inl ⟨Prod.ext (List.mem_singleton.mp hfound) hlength, hmem, hsome⟩)
    · cases hfound

/-- A prefix clause is the one that is written, or one that the value is taken for. -/
theorem cases_of_prefixClause {limit : Nat} {place : Nat × Nat}
    (h : Print.IsClause prefixWords limit written.expression place) :
    (place = (written.lead.length, 8) ∧ written.before.isSome) ∨
      (place = (0, written.lead.length + 1) ∧ written.value.text ∈ prefixWords ∧
        written.modifiers = [] ∧ written.clauses ≠ []) := by
  obtain ⟨hplace, -, hsome⟩ | ⟨-, hother, -⟩ | htaken := written.cases_of_isClause areWords.1 h
  · exact .inl ⟨hplace, hsome⟩
  · exact absurd hother (by decide)
  · exact .inr htaken

/-- A suffix clause is the one that is written, or the value taken for one. -/
theorem cases_of_suffixClause {limit : Nat} {place : Nat × Nat}
    (h : Print.IsClause suffixWords limit written.expression place) :
    (place = (written.leadBefore.length, 8) ∧ written.after.isSome) ∨
      (place = (0, written.lead.length + 1) ∧ written.value.text ∈ suffixWords ∧
        written.modifiers = [] ∧ written.clauses ≠ []) := by
  obtain ⟨-, hother, -⟩ | ⟨hplace, -, hsome⟩ | htaken := written.cases_of_isClause areWords.2 h
  · exact absurd hother (by decide)
  · exact .inl ⟨hplace, hsome⟩
  · exact .inr htaken

/-- The prefix clause that is written is one. -/
theorem isClause_before {s : Bytes} (h : written.before = some s) {limit : Nat}
    (hlimit : written.lead.length + 8 ≤ limit) :
    Print.IsClause prefixWords limit written.expression (written.lead.length, 8) := by
  refine ⟨⟨ascii "prefix", .head _, ?_, rfl⟩, hlimit⟩
  rw [written.findTopLevel_expression (.of_isWord (by decide))]
  simp [h]

/-- The suffix clause that is written is one. -/
theorem isClause_after {s : Bytes} (h : written.after = some s) {limit : Nat}
    (hlimit : written.leadBefore.length + 8 ≤ limit) :
    Print.IsClause suffixWords limit written.expression (written.leadBefore.length, 8) := by
  refine ⟨⟨ascii "suffix", .head _, ?_, rfl⟩, hlimit⟩
  rw [written.findTopLevel_expression (.of_isWord (by decide))]
  simp [h]

/-- A clause word as the value, with a clause behind it, seems to open a clause. -/
theorem isClause_value {words : List Bytes} (hwords : ∀ word ∈ words, word.isWord = true)
    (hvalue : written.value.text ∈ words) (hmodifiers : written.modifiers = [])
    (hclauses : written.clauses ≠ []) {limit : Nat} (hlimit : written.lead.length + 1 ≤ limit) :
    Print.IsClause words limit written.expression (0, written.lead.length + 1) := by
  have hword : Bytes.IsOfPath written.value.text := .of_isWord (hwords _ hvalue)
  have hcore : written.core = written.value.text := by simp [core, hmodifiers]
  have hspace : written.clauses.head? = some Byte.space := by
    obtain hnone | ⟨rest, hcons⟩ := written.clauses_eq_nil_or_cons
    · exact absurd hnone hclauses
    · rw [hcons]
      rfl
  have hstarts : (Print.clauseMark written.value.text).isPrefixOf written.expression = true := by
    rw [expression, hcore]
    refine (Print.isPrefixOf_clauseMark hword hword fun b hb => ?_).mpr ⟨rfl, hspace⟩
    cases hspace.symm.trans hb
    rfl
  refine ⟨⟨written.value.text, hvalue, ?_, ?_⟩, by simpa using hlimit⟩
  · rw [written.findTopLevel_expression hword, hstarts]
    simp
  · simp [Print.clauseMark, lead, hcore]

/-- The last suffix clause is the one that is written. -/
theorem lastSuffix?_of_after {s : Bytes} (h : written.after = some s) :
    Print.lastSuffix? written.expression = some (written.leadBefore.length, 8) := by
  have hlimit : written.leadBefore.length + 8 ≤ written.expression.length := by
    rw [expression_eq, h]
    simp [Print.clause, Print.clauseMark, ascii]
  refine Print.lastClause?_eq_some (written.isClause_after h hlimit) fun other hother => ?_
  obtain ⟨rfl, -⟩ | ⟨rfl, -⟩ := written.cases_of_suffixClause hother
  · exact .inl rfl
  · exact .inr (by simp [leadBefore, lead])

/-- Without a suffix clause the only one to be found is one that the value is taken for. -/
theorem fst_of_lastSuffix? (h : written.after = none) {place : Nat × Nat}
    (hplace : Print.lastSuffix? written.expression = some place) :
    place.1 = 0 ∧ written.clauses ≠ [] := by
  obtain ⟨-, hsome⟩ | ⟨rfl, -, -, hclauses⟩ :=
    written.cases_of_suffixClause (Print.isClause_of_lastClause? hplace)
  · simp [h] at hsome
  · exact ⟨rfl, hclauses⟩

/-- The last prefix clause is the one that is written. -/
theorem lastPrefix?_of_before {s : Bytes} (h : written.before = some s) {limit : Nat}
    (hlimit : written.lead.length + 8 ≤ limit) :
    Print.lastPrefix? limit written.expression = some (written.lead.length, 8) := by
  refine Print.lastClause?_eq_some (written.isClause_before h hlimit) fun other hother => ?_
  obtain ⟨rfl, -⟩ | ⟨rfl, -⟩ := written.cases_of_prefixClause hother
  · exact .inl rfl
  · exact .inr (by simp [lead])

/-- A limit that leaves no room for the prefix clause nor for one that the value is taken for. -/
theorem lastPrefix?_eq_none {limit : Nat}
    (hbefore : written.before = none ∨ limit < written.lead.length + 8)
    (hvalue : limit ≤ written.lead.length ∨ written.value.text ∉ prefixWords ∨
      written.modifiers ≠ [] ∨ written.clauses = []) :
    Print.lastPrefix? limit written.expression = none := by
  refine Print.lastClause?_eq_none fun place hplace => ?_
  have hends := hplace.ends
  obtain ⟨rfl, hsome⟩ | ⟨rfl, hmem, hmodifiers, hclauses⟩ := written.cases_of_prefixClause hplace
  · obtain hnone | hless := hbefore
    · simp [hnone] at hsome
    · exact absurd hends (by omega)
  · obtain hless | hother | hother | hother := hvalue
    · exact absurd hends (by simp only; omega)
    · exact hother hmem
    · exact hother hmodifiers
    · exact hclauses hother

/-- Whether the value is taken for a prefix clause: it is a word for one, and the suffix clause
comes right behind it. -/
def isMistaken : Bool :=
  prefixWords.contains written.value.text && written.modifiers.isEmpty && written.before.isNone &&
    written.after.isSome

section Split

variable {written}

/-- What stands before the clauses is the beginning of the expression. -/
theorem take_lead : written.expression.take written.lead.length = written.lead := by
  rw [expression_eq, leadBefore, List.append_assoc, List.take_left]

/-- What stands before the suffix clause is the beginning of the expression. -/
theorem take_leadBefore :
    written.expression.take written.leadBefore.length = written.leadBefore := by
  rw [expression_eq, List.take_left]

/-- The text of the suffix clause is what is quoted there. -/
theorem clauseText_after {t : Bytes} (h : written.after = some t) :
    Print.clauseText (written.leadBefore.length, 8) written.expression = t := by
  rw [expression_eq, h]
  exact Print.clauseText_clause written.leadBefore (ascii "suffix") t

/-- The text of the prefix clause is what is quoted there. -/
theorem clauseText_before {s : Bytes} (h : written.before = some s) :
    Print.clauseText (written.lead.length, 8) written.leadBefore = s := by
  rw [leadBefore, h]
  exact Print.clauseText_clause written.lead (ascii "prefix") s

/-- The suffix clause stands behind the mark of the prefix clause. -/
theorem length_leadBefore_of_some {s : Bytes} (h : written.before = some s) :
    written.lead.length + 8 ≤ written.leadBefore.length := by
  rw [leadBefore, h]
  simp [Print.clause, Print.clauseMark, ascii]

/-- Without a prefix clause the suffix clause stands behind the value. -/
theorem leadBefore_of_none (h : written.before = none) : written.leadBefore = written.lead := by
  rw [leadBefore, h]
  exact List.append_nil _

/-- Both clauses are split off the value. -/
theorem splitClauses_both {s t : Bytes} (hbefore : written.before = some s)
    (hafter : written.after = some t) :
    Print.splitClauses written.expression = (written.lead, s, t) := by
  have hsuffix := written.lastSuffix?_of_after hafter
  have hopening := written.lastPrefix?_of_before hbefore (length_leadBefore_of_some hbefore)
  rw [Print.splitClauses]
  simp only [hsuffix, hopening, take_lead, take_leadBefore, clauseText_before hbefore,
    clauseText_after hafter]

/-- A prefix clause alone is split off the value. -/
theorem splitClauses_before {s : Bytes} (hbefore : written.before = some s)
    (hafter : written.after = none) :
    Print.splitClauses written.expression = (written.lead, s, []) := by
  have hexpression : written.expression = written.leadBefore := by
    rw [expression_eq, hafter]
    exact List.append_nil _
  have hopening : Print.lastPrefix? written.expression.length written.expression =
      some (written.lead.length, 8) :=
    written.lastPrefix?_of_before hbefore
      (by rw [hexpression]; exact length_leadBefore_of_some hbefore)
  have htext : Print.clauseText (written.lead.length, 8) written.expression = s := by
    rw [hexpression, clauseText_before hbefore]
  rw [Print.splitClauses]
  cases hsuffix : Print.lastSuffix? written.expression with
  | none => simp only [hopening, take_lead, htext]
  | some place =>
    -- The value is a word for a suffix, and no prefix clause ends before it.
    have hstart := (written.fst_of_lastSuffix? hafter hsuffix).1
    have hnone : Print.lastPrefix? place.1 written.expression = none :=
      written.lastPrefix?_eq_none (.inr (by omega)) (.inl (by omega))
    simp only [hnone, hopening, take_lead, htext]

/-- A suffix clause alone is split off the value, unless the value is taken for a prefix clause. -/
theorem splitClauses_after {t : Bytes} (hbefore : written.before = none)
    (hafter : written.after = some t) :
    Print.splitClauses written.expression =
      if written.isMistaken then
        ([], Print.clauseText (0, written.lead.length + 1) written.expression, [])
      else (written.lead, [], t) := by
  have hlead := leadBefore_of_none hbefore
  have hsuffix := written.lastSuffix?_of_after hafter
  have htext := clauseText_after hafter
  have hclauses : written.clauses ≠ [] := by
    rw [clauses, hbefore, hafter]
    simp [Print.clause, Print.clauseMark]
  have hnone : Print.lastPrefix? written.lead.length written.expression = none :=
    written.lastPrefix?_eq_none (.inl hbefore) (.inl (Nat.le_refl _))
  rw [hlead] at hsuffix htext
  rw [Print.splitClauses]
  simp only [hsuffix, hnone, htext, take_lead]
  cases hmistaken : written.isMistaken with
  | false =>
    have hother : written.value.text ∉ prefixWords ∨ written.modifiers ≠ [] := by
      by_cases hvalue : written.value.text ∈ prefixWords
      · refine .inr fun hmodifiers => ?_
        simp [isMistaken, hvalue, hmodifiers, hbefore, hafter] at hmistaken
      · exact .inl hvalue
    have hopening : Print.lastPrefix? written.expression.length written.expression = none :=
      written.lastPrefix?_eq_none (.inl hbefore) (.inr (hother.imp_right .inl))
    simp only [hopening]
    rfl
  | true =>
    obtain ⟨hvalue, hmodifiers⟩ : written.value.text ∈ prefixWords ∧ written.modifiers = [] := by
      simpa [isMistaken, hbefore, hafter] using hmistaken
    have hlimit : written.lead.length + 1 ≤ written.expression.length := by
      rw [expression_eq, hlead, hafter]
      simp [Print.clause, Print.clauseMark]
    have hopening : Print.lastPrefix? written.expression.length written.expression =
        some (0, written.lead.length + 1) := by
      refine Print.lastClause?_eq_some
        (written.isClause_value areWords.1 hvalue hmodifiers hclauses hlimit) fun other hother => ?_
      obtain ⟨-, hsome⟩ | ⟨rfl, -⟩ := written.cases_of_prefixClause hother
      · simp [hbefore] at hsome
      · exact .inl rfl
    simp only [hopening]
    rfl

/-- Without clauses nothing is split off. -/
theorem splitClauses_none (hbefore : written.before = none) (hafter : written.after = none) :
    Print.splitClauses written.expression = (written.lead, [], []) := by
  have hclauses : written.clauses = [] := by
    rw [clauses, hbefore, hafter]
    rfl
  have hopening : Print.lastPrefix? written.expression.length written.expression = none :=
    written.lastPrefix?_eq_none (.inl hbefore) (.inr (.inr (.inr hclauses)))
  have hexpression : written.expression = written.lead := by
    rw [expression, hclauses, List.append_nil]
    rfl
  rw [Print.splitClauses]
  cases hsuffix : Print.lastSuffix? written.expression with
  | none =>
    simp only [hopening]
    rw [hexpression]
  | some place => exact absurd hclauses (written.fst_of_lastSuffix? hafter hsuffix).2

end Split

/-- The clauses are told from the value as they are written, unless the value is taken for one. -/
theorem splitClauses_expression (h : written.isMistaken = false) :
    Print.splitClauses written.expression =
      (written.lead, written.before.getD [], written.after.getD []) := by
  cases hbefore : written.before with
  | none =>
    cases hafter : written.after with
    | none => exact splitClauses_none hbefore hafter
    | some t => rw [splitClauses_after hbefore hafter, h]; rfl
  | some s =>
    cases hafter : written.after with
    | none => exact splitClauses_before hbefore hafter
    | some t => exact splitClauses_both hbefore hafter

/-! ### The statement -/

/-- The clauses are plain. -/
theorem isPlain_clauses : Source.IsPlain written.clauses := by
  have hclause : ∀ (word : Bytes) (s : Option Bytes), word.isWord = true →
      Source.IsPlain (Print.clause word s) := by
    intro word s hword
    cases s with
    | none => exact .of_notMem (by simp [Print.clause])
    | some s =>
      have hspace : Source.IsPlain [Byte.space] := .of_notMem (by decide)
      have hmark : Source.IsPlain ([Byte.space] ++ word ++ [Byte.space]) :=
        (hspace.append (Bytes.IsOfPath.of_isWord hword).isPlain).append hspace
      exact hmark.append (.encode s)
  exact (hclause _ _ (by decide)).append (hclause _ _ (by decide))

/-- What stands inside the region. -/
def inside : Bytes := Byte.equals :: (written.expression ++ [Byte.space])

/-- A value with modifiers and both clauses. -/
example : inside
    { value := .dotted ⟨[ascii "a", ascii "b"], by decide, by decide⟩ rfl
      modifiers := [⟨ascii "def", rfl, [.literal (ascii "x"), .literal (ascii "y")]⟩,
        ⟨ascii "je", rfl, []⟩]
      before := some (ascii "P")
      after := some (ascii "S") } =
    ascii "= a.b|def(\"x\",\"y\")|je prefix \"P\" suffix \"S\" " := rfl

/-- The inside of the region is plain. -/
theorem isPlain_inside : Source.IsPlain written.inside := by
  have hspace : Source.IsPlain [Byte.space] := .of_notMem (by decide)
  have hequals : Source.IsPlain [Byte.equals] := .of_notMem (by decide)
  have hexpression : Source.IsPlain written.expression :=
    hspace.append (written.isPlain_core.append written.isPlain_clauses)
  exact hequals.append (hexpression.append hspace)

/-- No blank stands at an end of the statement. -/
theorem isTrimmed_expression : Bytes.IsTrimmed (Byte.equals :: written.expression) := by
  have hclause : ∀ (lead word : Bytes) (s : Option Bytes), Bytes.IsTrimmed lead →
      Bytes.IsTrimmed (lead ++ Print.clause word s) := by
    intro lead word s hlead
    cases s with
    | none => simpa [Print.clause] using hlead
    | some s =>
      have haround := hlead.around (WrittenOperand.literal s).isTrimmed_text (Print.clauseMark word)
      rwa [List.append_assoc] at haround
  have hequals : Bytes.IsTrimmed [Byte.equals] := ⟨rfl, rfl⟩
  have hlead : Bytes.IsTrimmed (Byte.equals :: written.lead) :=
    hequals.around written.isTrimmed_core [Byte.space]
  have hexpression := hclause _ (ascii "suffix") written.after
    (hclause _ (ascii "prefix") written.before hlead)
  rw [expression_eq]
  exact hexpression

/-- What is read of the statement, and what becomes of a value that is taken for a clause. -/
theorem parse_expression :
    Statement.parse (Byte.equals :: written.expression) =
      if written.isMistaken then .error .emptyPrint else .ok (.print written.statement) := by
  cases hmistaken : written.isMistaken with
  | false =>
    exact Print.parse_of_parts (written.splitClauses_expression hmistaken) written.parseValue_core
  | true =>
    obtain ⟨⟨-, hbefore⟩, hafter⟩ : (_ ∧ written.before = none) ∧ written.after.isSome = true := by
      simpa [isMistaken] using hmistaken
    obtain ⟨t, hafter⟩ := Option.isSome_iff_exists.mp hafter
    have hclauses := splitClauses_after hbefore hafter
    rw [hmistaken] at hclauses
    exact Print.parse_of_empty hclauses

/-- The statement is read as it is written, unless its value is taken for a clause. -/
theorem parse_inside :
    Statement.parse written.inside.strip =
      if written.isMistaken then .error .emptyPrint else .ok (.print written.statement) := by
  have htrimmed := written.isTrimmed_expression
  have hstrip : written.inside.strip = Byte.equals :: written.expression :=
    Bytes.strip_append [] (Byte.equals :: written.expression) [Byte.space] rfl rfl htrimmed.first
      htrimmed.last
  rw [hstrip, parse_expression]

end WrittenPrint

/-- A print statement in a region is read as the one node that it is the writing of, whether the
formatting is kept or not. The value is lost when it is one of the words for a prefix and the suffix
clause comes right behind it: the word is taken for an empty value's prefix clause. -/
theorem Tree.parse_written (written : WrittenPrint) (keepFormatting : Bool) :
    parse keepFormatting (Source.markup written.inside) =
      if written.isMistaken then
        .error { fault := .emptyPrint, source := Source.markup written.inside, offset := 0 }
      else .ok ⟨[.print written.statement]⟩ := by
  have hparse := written.parse_inside
  cases hmistaken : written.isMistaken with
  | false =>
    rw [hmistaken] at hparse
    exact parse_markup written.isPlain_inside keepFormatting hparse rfl
  | true =>
    rw [hmistaken] at hparse
    exact parse_markup_error written.isPlain_inside keepFormatting hparse

/-- The value is refused as empty where the suffix clause follows a variable of the name `prefix`. A
variable of the name `suffix` before a prefix clause is printed. -/
theorem Tree.parse_written_ne :
    let mistaken : WrittenPrint :=
      { value := .dotted ⟨[ascii "prefix"], by decide, by decide⟩ rfl, after := some (ascii "S") }
    let taken : WrittenPrint :=
      { value := .dotted ⟨[ascii "suffix"], by decide, by decide⟩ rfl, before := some (ascii "P") }
    mistaken.inside = ascii "= prefix suffix \"S\" " ∧
      (∀ tree, parse false (Source.markup mistaken.inside) ≠ .ok tree) ∧
      taken.inside = ascii "= suffix prefix \"P\" " ∧
      parse false (Source.markup taken.inside) = .ok ⟨[.print taken.statement]⟩ := by
  intro mistaken taken
  have hrefused : parse false (Source.markup mistaken.inside) = .error _ :=
    parse_markup_error mistaken.isPlain_inside false mistaken.parse_inside
  have hread : parse false (Source.markup taken.inside) = .ok _ :=
    parse_markup taken.isPlain_inside false taken.parse_inside rfl
  refine ⟨rfl, fun tree htree => ?_, rfl, hread⟩
  cases hrefused.symm.trans htree

/-! ## Statements with literals -/

namespace Print

/-- A literal as the value. -/
theorem parse_literal (s : Bytes) :
    Statement.parse (ascii "= " ++ Quoted.encode s) =
      .ok (.print { value := Operand.ofText s }) := by
  let written : WrittenPrint := { value := .literal s }
  have htext : ascii "= " ++ Quoted.encode s = Byte.equals :: written.expression := by
    rw [WrittenPrint.expression, WrittenPrint.core, List.map_nil, List.intercalate_singleton]
    exact congrArg (ascii "= " ++ ·) (List.append_nil _).symm
  have hmistaken : written.isMistaken = false := by simp [WrittenPrint.isMistaken, written]
  rw [htext, written.parse_expression, hmistaken]
  rfl

/-- A literal as the argument of a modifier. -/
theorem parse_default (s : Bytes) :
    Statement.parse (ascii "= x|default(" ++ Quoted.encode s ++ ascii ")") =
      .ok (.print
        { value := Operand.parse (ascii "x")
          modifiers := [{ name := ascii "default", args := [Operand.ofText s] }] }) := by
  let modifier : WrittenModifier := ⟨ascii "default", rfl, [.literal s]⟩
  let written : WrittenPrint :=
    { value := .dotted ⟨[ascii "x"], by decide, by decide⟩ rfl, modifiers := [modifier] }
  have hmodifier : modifier.text = ascii "default(" ++ (Quoted.encode s ++ ascii ")") := by
    have hinside : modifier.inside = Quoted.encode s := List.intercalate_singleton
    rw [WrittenModifier.text, if_neg (by simp [modifier]), hinside]
    rfl
  have hcore : written.core = ascii "x|default(" ++ (Quoted.encode s ++ ascii ")") := by
    rw [WrittenPrint.core, List.map_cons, List.map_nil, hmodifier, List.intercalate_cons_cons,
      List.intercalate_singleton]
    rfl
  have htext : ascii "= x|default(" ++ Quoted.encode s ++ ascii ")" =
      Byte.equals :: written.expression := by
    rw [WrittenPrint.expression, hcore, List.append_assoc]
    exact congrArg (ascii "= x|default(" ++ ·) (List.append_nil _).symm
  have hmistaken : written.isMistaken = false := by simp [WrittenPrint.isMistaken, written]
  rw [htext, written.parse_expression, hmistaken]
  rfl

/-- Literals as the texts around a value. -/
theorem parse_clauses (s t : Bytes) :
    Statement.parse
        (ascii "= x prefix " ++ (Quoted.encode s ++ (ascii " suffix " ++ Quoted.encode t))) =
      .ok (.print { value := Operand.parse (ascii "x"), before := s, after := t }) :=
  let written : WrittenPrint :=
    { value := .dotted ⟨[ascii "x"], by decide, by decide⟩ rfl, before := some s, after := some t }
  written.parse_expression

end Print

end Stencil
