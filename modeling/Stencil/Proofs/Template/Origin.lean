import Stencil.Proofs.Bytes.Walk
import Stencil.Proofs.Template.Content
import Stencil.Proofs.Template.Statement

/-!
# Where operands come from

The operands whose values a template takes are read from stretches of its prepared source
(`Tree.isReadFrom_of_parse`), since a region is one, and every part of a statement is cut out of its
region. The sides of comparisons are left out: of a literal there only the text counts.
-/

set_option autoImplicit false

namespace Stencil

/-! ## Cuts -/

namespace Bytes

/-- Skipping blanks leaves an end of a text. -/
theorem isSuffix_skipBlanks (s : Bytes) : s.skipBlanks <:+ s := List.dropWhile_suffix _

/-- What stands before a mark is a beginning of the text. -/
theorem isPrefix_of_breakOn {mark s before after : Bytes}
    (h : breakOn mark s = some (before, after)) : before <+: s := by
  rw [eq_append_of_breakOn h, List.append_assoc]
  exact List.prefix_append _ _

/-- What stands behind a mark is an end of the text. -/
theorem isSuffix_of_breakOn {mark s before after : Bytes}
    (h : breakOn mark s = some (before, after)) : after <:+ s := by
  rw [eq_append_of_breakOn h]
  exact List.suffix_append _ _

/-- The first part stands at the start, and every part somewhere in the text. -/
theorem isInfix_splitTopLevelFrom (delimiter : UInt8) (scan : Scan) (s : Bytes) :
    (splitTopLevelFrom delimiter scan s).1 <+: s ∧
      ∀ part ∈ (splitTopLevelFrom delimiter scan s).2, part <:+: s := by
  induction s generalizing scan with
  | nil => simp [splitTopLevelFrom]
  | cons b rest ih =>
    obtain ⟨hfirst, hparts⟩ := ih (scan.step b)
    have hlater : ∀ part ∈ (splitTopLevelFrom delimiter (scan.step b) rest).2,
        part <:+: b :: rest := fun part hmem => List.infix_cons (hparts part hmem)
    simp only [splitTopLevelFrom]
    split
    · exact ⟨List.nil_prefix, List.forall_mem_cons.mpr ⟨List.infix_cons hfirst.isInfix, hlater⟩⟩
    · exact ⟨List.cons_prefix_cons.mpr ⟨rfl, hfirst⟩, hlater⟩

/-- The first part of a text is its beginning, and every other part stands in it. -/
theorem isInfix_splitTopLevel (delimiter : UInt8) (s : Bytes) :
    (splitTopLevel delimiter s).1 <+: s ∧ ∀ part ∈ (splitTopLevel delimiter s).2, part <:+: s := by
  rw [splitTopLevel_eq]
  exact isInfix_splitTopLevelFrom delimiter Scan.start s

/-- Every part of a text stands in it. -/
theorem isInfix_topLevelParts (delimiter : UInt8) (s : Bytes) :
    ∀ part ∈ topLevelParts delimiter s, part <:+: s := by
  obtain ⟨hfirst, hparts⟩ := isInfix_splitTopLevel delimiter s
  exact List.forall_mem_cons.mpr ⟨hfirst.isInfix, hparts⟩

end Bytes

/-- The inside of a region stands in the source. -/
theorem Segment.isInfix_of_region {offset start : Nat} {s inside : Bytes}
    (h : .region start inside ∈ scanFrom offset s) : inside <:+: s := by
  have htext : ∀ raw, .region start inside ∉ ofText raw := by
    intro raw hmem
    unfold ofText at hmem
    split at hmem <;> simp at hmem
  induction hn : s.length using Nat.strongRecOn generalizing offset s with
  | ind n ih =>
    cases hopen : Bytes.breakOn opener s with
    | none =>
      rw [scanFrom_of_none hopen] at h
      exact absurd h (htext s)
    | some parts =>
      obtain ⟨raw, afterOpener⟩ := parts
      have hrest := (Bytes.isSuffix_of_breakOn hopen).isInfix
      cases hclose : Bytes.breakOn closer afterOpener with
      | none =>
        rw [scanFrom_of_unclosed hopen hclose, List.mem_append] at h
        exact absurd h (by simpa using htext raw)
      | some parts =>
        obtain ⟨found, after⟩ := parts
        rw [scanFrom_of_region hopen hclose, List.mem_append, List.mem_cons] at h
        obtain htextual | hhere | hlater := h
        · exact absurd htextual (htext raw)
        · cases hhere
          exact (Bytes.isPrefix_of_breakOn hclose).isInfix.trans hrest
        · have hshort := Bytes.length_after_lt (by decide) hopen
          have hshorter := Bytes.length_after_lt (by decide) hclose
          exact (ih after.length (by omega) hlater rfl).trans
            ((Bytes.isSuffix_of_breakOn hclose).isInfix.trans hrest)

/-! ## Operands of a statement -/

/-- An operand that is read from a stretch of a text. -/
def Operand.IsReadFrom (text : Bytes) (operand : Operand) : Prop :=
  ∃ part, part <:+: text ∧ operand = parse part

/-- What is read from a text is read from every text around it. -/
theorem Operand.IsReadFrom.mono {text larger : Bytes} {operand : Operand}
    (h : operand.IsReadFrom text) (htext : text <:+: larger) : operand.IsReadFrom larger := by
  obtain ⟨part, hpart, rfl⟩ := h
  exact ⟨part, hpart.trans htext, rfl⟩

namespace Statement

/-- The operands whose values a statement takes. -/
def operands : Statement → List Operand
  | print statement => statement.value :: statement.modifiers.flatMap ModifierCall.args
  | bind statement => [statement.source]
  | ifOpen condition => condition.args
  | forOpen (.count head) => [head.init, head.limit]
  | counter _ | elseMark | endIf | forOpen (.range _) | endFor | breakLoop | continueLoop
  | switchOpen _ | caseMark _ | defaultMark | endSwitch | exit => []

/-- Reading a word leaves an end of the text. -/
theorem isSuffix_readWord (s : Bytes) : (readWord s).2 <:+ s := List.dropWhile_suffix _

/-- A word that is read leaves an end of the text. -/
theorem isSuffix_of_readWord? {s word rest : Bytes} (h : readWord? s = some (word, rest)) :
    rest <:+ s := by
  unfold readWord? at h
  simp only at h
  split at h
  · cases h
  · cases h
    exact isSuffix_readWord s

/-- A byte that is dropped leaves an end of the text. -/
theorem isSuffix_of_dropByte? {expected : UInt8} {s rest : Bytes}
    (h : dropByte? expected s = some rest) : rest <:+ s := by
  cases s with
  | nil => cases h
  | cons b tail =>
    rw [dropByte?] at h
    split at h
    · cases h
      exact List.suffix_cons b _
    · cases h

/-- What stands in parentheses stands in the text. -/
theorem isInfix_of_insideParens? {s inside : Bytes} (h : insideParens? s = some inside) :
    inside <:+: s := by
  unfold insideParens? at h
  split at h
  · rename_i found hfound
    split at h
    · cases h
      exact (List.dropLast_prefix found).isInfix.trans (isSuffix_of_dropByte? hfound).isInfix
    · cases h
  · cases h

/-- Arguments are read from what the parentheses hold. -/
theorem isReadFrom_parseArgs (inside : Bytes) :
    ∀ operand ∈ parseArgs inside, operand.IsReadFrom inside := by
  intro operand hmem
  unfold parseArgs at hmem
  split at hmem
  · cases hmem
  · obtain ⟨part, hpart, rfl⟩ := List.mem_map.mp hmem
    exact ⟨part, Bytes.isInfix_topLevelParts Byte.comma inside part hpart, rfl⟩

end Statement

namespace Print

/-- The expression of a print statement ends its content, and the places of its output mode stand
before it. -/
theorem isReadFrom_of_readMode? {content rest : Bytes} {modifiers : List ModifierCall}
    (h : readMode? content = some (modifiers, rest)) :
    rest <:+ content ∧
      ∀ operand ∈ modifiers.flatMap ModifierCall.args, operand.IsReadFrom content := by
  have hfinish : ∀ {mode : List ModifierCall} {s : Bytes},
      ((Statement.dropByte? Byte.equals s).map fun rest => (mode, rest)) = some (modifiers, rest) →
        rest <:+ s ∧ modifiers = mode := by
    intro mode s hs
    obtain ⟨found, hfound, heq⟩ := Option.map_eq_some_iff.mp hs
    cases heq
    exact ⟨Statement.isSuffix_of_dropByte? hfound, rfl⟩
  unfold readMode? at h
  simp only at h
  split at h
  · cases h
  · rename_i letter tail
    have htail : tail <:+ letter :: tail := List.suffix_cons letter tail
    split at h
    · split at h
      · rename_i digits
        split at h
        · rename_i places after hplaces
          obtain ⟨hsuffix, rfl⟩ := hfinish h
          obtain ⟨-, rfl, rfl⟩ := Numeral.readDigits?_eq_some_iff.mp hplaces
          have hwhole : digits <:+ letter :: Byte.dot :: digits :=
            (List.suffix_cons _ _).trans (List.suffix_cons _ _)
          refine ⟨hsuffix.trans ((List.dropWhile_suffix _).trans hwhole), ?_⟩
          simp only [List.flatMap_cons, List.flatMap_nil, List.append_nil, placeRounding,
            List.forall_mem_singleton]
          exact ⟨_, (List.takeWhile_prefix _).isInfix.trans hwhole.isInfix, rfl⟩
        · cases h
      · obtain ⟨hsuffix, rfl⟩ := hfinish h
        exact ⟨hsuffix.trans htail, by simp [wholeRounding]⟩
    · obtain ⟨hsuffix, rfl⟩ := hfinish h
      exact ⟨hsuffix.trans htail, by simp⟩
    · obtain ⟨hsuffix, rfl⟩ := hfinish h
      exact ⟨hsuffix, by simp⟩

/-- The clauses stand at the end of an expression. -/
theorem isPrefix_splitClauses (expression : Bytes) :
    (splitClauses expression).1 <+: expression := by
  unfold splitClauses
  split
  · split
    · exact List.take_prefix _ _
    · split <;> exact List.take_prefix _ _
  · split
    · exact List.take_prefix _ _
    · exact List.prefix_rfl

/-- The arguments of a modifier are read from it. -/
theorem isReadFrom_of_parseModifier {text : Bytes} {call : ModifierCall}
    (h : parseModifier text = .ok call) : ∀ operand ∈ call.args, operand.IsReadFrom text := by
  unfold parseModifier at h
  simp only at h
  split at h
  · cases h
  · split at h
    · cases h
      simp
    · split at h
      · rename_i inside hinside
        cases h
        intro operand hmem
        refine (Statement.isReadFrom_parseArgs inside operand hmem).mono ?_
        exact (Statement.isInfix_of_insideParens? hinside).trans
          ((Bytes.isSuffix_skipBlanks _).isInfix.trans
            ((Statement.isSuffix_readWord _).isInfix.trans (Bytes.isInfix_strip text)))
      · cases h

/-- The modifiers of a value are read from the parts after it. -/
theorem isReadFrom_of_mapM {parts : List Bytes} {calls : List ModifierCall}
    (h : parts.mapM parseModifier = .ok calls) :
    ∀ operand ∈ calls.flatMap ModifierCall.args, ∃ part ∈ parts, operand.IsReadFrom part := by
  induction parts generalizing calls with
  | nil =>
    cases h
    simp
  | cons part rest ih =>
    rw [List.mapM_cons] at h
    cases hpart : parseModifier part with
    | error fault => simp [hpart, bind, Except.bind] at h
    | ok call =>
      cases hrest : rest.mapM parseModifier with
      | error fault => simp [hpart, hrest, bind, Except.bind] at h
      | ok others =>
        simp only [hpart, hrest, bind, Except.bind, pure, Except.pure, Except.ok.injEq] at h
        subst h
        rw [List.flatMap_cons, List.forall_mem_append]
        refine ⟨fun operand hmem => ⟨part, .head _, isReadFrom_of_parseModifier hpart operand hmem⟩,
          fun operand hmem => ?_⟩
        obtain ⟨found, hfound, hread⟩ := ih hrest operand hmem
        exact ⟨found, .tail _ hfound, hread⟩

/-- The value and the arguments of its modifiers are read from the expression. -/
theorem isReadFrom_of_parseValue {expression : Bytes} {value : Operand}
    {modifiers : List ModifierCall} (h : parseValue expression = .ok (value, modifiers)) :
    ∀ operand ∈ value :: modifiers.flatMap ModifierCall.args, operand.IsReadFrom expression := by
  obtain ⟨hfirst, hparts⟩ :=
    Bytes.isInfix_splitTopLevel Byte.bar expression.strip
  have hstrip := Bytes.isInfix_strip expression
  unfold parseValue at h
  simp only at h
  split at h
  · cases h
  · cases hcalls : (Bytes.splitTopLevel Byte.bar expression.strip).2.mapM parseModifier with
    | error fault => simp [hcalls, bind, Except.bind] at h
    | ok calls =>
      simp only [hcalls, bind, Except.bind, pure, Except.pure, Except.ok.injEq,
        Prod.mk.injEq] at h
      obtain ⟨rfl, rfl⟩ := h
      rw [List.forall_mem_cons]
      refine ⟨⟨_, hfirst.isInfix.trans hstrip, rfl⟩, fun operand hmem => ?_⟩
      obtain ⟨part, hpart, hread⟩ := isReadFrom_of_mapM hcalls operand hmem
      exact hread.mono ((hparts part hpart).trans hstrip)

/-- The operands of a print statement are read from its content. -/
theorem isReadFrom_of_parse? {content : Bytes} {statement : Print}
    (h : parse? content = some (.ok statement)) :
    ∀ operand ∈ statement.value :: statement.modifiers.flatMap ModifierCall.args,
      operand.IsReadFrom content := by
  obtain ⟨⟨mode, expression⟩, hmode, hstatement⟩ := Option.map_eq_some_iff.mp h
  obtain ⟨hexpression, hplaces⟩ := isReadFrom_of_readMode? hmode
  simp only at hstatement
  cases hvalue : parseValue (splitClauses expression).1 with
  | error fault => simp [hvalue, bind, Except.bind] at hstatement
  | ok found =>
    obtain ⟨value, modifiers⟩ := found
    simp only [hvalue, bind, Except.bind, pure, Except.pure, Except.ok.injEq] at hstatement
    subst hstatement
    have hread : ∀ operand ∈ value :: modifiers.flatMap ModifierCall.args,
        operand.IsReadFrom content := fun operand hmem =>
      (isReadFrom_of_parseValue hvalue operand hmem).mono
        ((isPrefix_splitClauses expression).isInfix.trans hexpression.isInfix)
    rw [List.forall_mem_cons] at hread
    rw [List.forall_mem_cons, List.flatMap_append, List.forall_mem_append]
    exact ⟨hread.1, hplaces, hread.2⟩

end Print

namespace Binding

/-- The source of a binding stands in what is behind the equals sign. -/
theorem isInfix_splitKind (s : Bytes) : (splitKind s).1 <:+: s := by
  unfold splitKind
  split
  · exact List.infix_rfl
  · rename_i front kind hfront
    split
    · split
      · rename_i source hsource
        have hfront : front <+: s := by
          unfold splitLastBlank? at hfront
          simp only at hfront
          split at hfront
          · cases hfront
          · rename_i gap before hbefore
            cases hfront
            rw [← List.reverse_suffix, List.reverse_reverse]
            exact (List.suffix_cons gap before).trans (hbefore ▸ List.dropWhile_suffix _)
        have hsource : source <+: front.strip := by
          unfold dropAs? at hsource
          split at hsource
          · rename_i blank b before hreverse
            split at hsource
            · cases hsource
              rw [← List.reverse_suffix, List.reverse_reverse, hreverse]
              exact (List.suffix_cons _ _).trans (List.suffix_cons _ _)
            · cases hsource
          · cases hsource
        exact (Bytes.isInfix_strip source).trans (hsource.isInfix.trans
          ((Bytes.isInfix_strip front).trans hfront.isInfix))
      · exact List.infix_rfl
    · exact List.infix_rfl

/-- The source of a binding is read from its content. -/
theorem isReadFrom_of_parse {content : Bytes} {statement : Binding}
    (h : parse content = .ok statement) : statement.source.IsReadFrom content := by
  unfold parse at h
  simp only at h
  split at h
  · cases h
  · rename_i text htext
    split at h
    · cases h
    · cases h
      refine ⟨_, ?_, rfl⟩
      have hafter := (Bytes.isSuffix_skipBlanks (Statement.readWord
        (Bytes.skipBlanks (content.drop keyword.length))).2).trans
          ((Statement.isSuffix_readWord _).trans ((Bytes.isSuffix_skipBlanks _).trans
            (List.drop_suffix _ _)))
      exact (isInfix_splitKind text.strip).trans ((Bytes.isInfix_strip text).trans
        ((Statement.isSuffix_of_dropByte? htext).trans hafter).isInfix)

end Binding

/-- The arguments of a condition are read from its expression. -/
theorem Condition.isReadFrom_of_parse {expression : Bytes} {condition : Condition}
    (h : parse expression = .ok condition) :
    ∀ operand ∈ condition.args, operand.IsReadFrom expression := by
  unfold parse at h
  split at h
  · cases h
  · split at h
    · rename_i found hfound
      cases h
      unfold helperCall? at hfound
      simp only at hfound
      split at hfound
      · rename_i inside hinside
        split at hfound
        · cases hfound
        · cases hfound
          intro operand hmem
          refine (Statement.isReadFrom_parseArgs inside operand hmem).mono ?_
          exact (Statement.isInfix_of_insideParens? hinside).trans
            ((Bytes.isSuffix_skipBlanks _).trans (Statement.isSuffix_readWord _)).isInfix
      · cases hfound
    · split at h
      · cases h
      · cases h
        simp

namespace LoopHead

/-- The head of a loop stands in its content, with or without a separator clause. -/
theorem isInfix_of_mem_readings {content head separator : Bytes}
    (h : (head, separator) ∈ readings content) : head <:+: content := by
  rw [readings, List.mem_append, List.mem_singleton] at h
  obtain hclause | hwhole := h
  · obtain ⟨offset, -, hsplit⟩ := List.mem_filterMap.mp hclause
    unfold splitClause? at hsplit
    split at hsplit
    · obtain ⟨length, -, heq⟩ := Option.map_eq_some_iff.mp hsplit
      cases heq
      exact (Bytes.isInfix_strip _).trans (List.take_prefix _ _).isInfix
    · cases hsplit
  · cases hwhole
    exact List.infix_rfl

/-- Dropping the keyword of a loop leaves an end of the head. -/
theorem isSuffix_of_dropFor? {head rest : Bytes} (h : dropFor? head = some rest) :
    rest <:+ head := by
  unfold dropFor? at h
  split at h
  · split at h
    · rename_i b after hdrop
      split at h
      · cases h
        exact (Bytes.isSuffix_skipBlanks after).trans
          ((List.suffix_cons b after).trans (hdrop ▸ List.drop_suffix 3 head))
      · cases h
    · cases h
  · cases h

/-- Dropping the mark of an assignment leaves an end of the text. -/
theorem isSuffix_of_dropAssign? {s rest : Bytes} (h : dropAssign? s = some rest) :
    rest <:+ s := by
  refine List.IsSuffix.trans ?_ (Bytes.isSuffix_skipBlanks s)
  unfold dropAssign? at h
  split at h
  · rename_i hskip
    cases h
    rw [hskip]
    exact (List.suffix_cons _ _).trans (List.suffix_cons _ _)
  · rename_i hskip
    cases h
    rw [hskip]
    exact List.suffix_cons _ _
  · cases h

/-- What is trimmed stands in the text. -/
theorem isInfix_of_trimKeepingOne? {s trimmed : Bytes} (h : trimKeepingOne? s = some trimmed) :
    trimmed <:+: s := by
  unfold trimKeepingOne? at h
  simp only at h
  split at h
  · obtain ⟨b, hlast, rfl⟩ := Option.map_eq_some_iff.mp h
    obtain ⟨front, rfl⟩ := List.getLast?_eq_some_iff.mp hlast
    exact (List.suffix_append front [b]).isInfix
  · cases h
    exact Bytes.isInfix_stripWhile _ s

/-- The limit of a loop stands in its test. -/
theorem isInfix_of_readTest? {s counter limit : Bytes} {op : Operator}
    (h : readTest? s = some (counter, op, limit)) : limit <:+: s := by
  simp only [readTest?, Option.bind_eq_bind, Option.bind_eq_some_iff] at h
  obtain ⟨⟨name, rest⟩, hname, hfound⟩ := h
  obtain ⟨found, -, hop⟩ := List.exists_of_findSome?_eq_some hfound
  split at hop
  · obtain ⟨text, htext, heq⟩ := Option.map_eq_some_iff.mp hop
    cases heq
    exact (isInfix_of_trimKeepingOne? htext).trans ((List.drop_suffix _ _).trans
      ((Bytes.isSuffix_skipBlanks rest).trans ((Statement.isSuffix_of_readWord? hname).trans
        (Bytes.isSuffix_skipBlanks s)))).isInfix
  · cases hop

/-- The two bounds of a counting loop stand in its head. -/
theorem isInfix_of_readCount? {head : Bytes} {parts : CountParts}
    (h : readCount? head = some parts) : parts.init <:+: head ∧ parts.limit <:+: head := by
  simp only [readCount?, Option.bind_eq_bind, Option.bind_eq_some_iff] at h
  obtain ⟨opened, hopened, ⟨counter, named⟩, hnamed, assigned, hassigned, ⟨initial, tested⟩,
    hinitial, init, hinit, ⟨test, stepped⟩, htest, ⟨testCounter, op, limit⟩, hlimit, _, -, _, -,
    hparts⟩ := h
  cases hparts
  have hassigned : assigned <:+: head := ((isSuffix_of_dropAssign? hassigned).trans
    ((Statement.isSuffix_of_readWord? hnamed).trans (isSuffix_of_dropFor? hopened))).isInfix
  constructor
  · exact (isInfix_of_trimKeepingOne? hinit).trans
      ((Bytes.isPrefix_of_breakOn hinitial).isInfix.trans hassigned)
  · exact (isInfix_of_readTest? hlimit).trans ((Bytes.isPrefix_of_breakOn htest).isInfix.trans
      ((Bytes.isSuffix_of_breakOn hinitial).isInfix.trans hassigned))

/-- The two bounds of a counting loop are read from its content. -/
theorem isReadFrom_of_parse {content : Bytes} {head : CountHead}
    (h : parse content = .ok (.count head)) :
    head.init.IsReadFrom content ∧ head.limit.IsReadFrom content := by
  obtain ⟨text, separator, parts, hmem, hparts, hfound⟩ := exists_parts_of_parse h
  obtain ⟨hinit, hlimit⟩ := isInfix_of_readCount? hparts
  have htext := isInfix_of_mem_readings hmem
  unfold ofParts at hfound
  simp only at hfound
  split at hfound
  · cases hfound
  · split at hfound
    · cases hfound
      exact ⟨⟨_, hinit.trans htext, rfl⟩, _, hlimit.trans htext, rfl⟩
    · cases hfound

end LoopHead

namespace Statement

/-- What stands behind a keyword stands in the content. -/
theorem isInfix_of_afterKeyword? {keyword content rest : Bytes}
    (h : afterKeyword? keyword content = some rest) : rest <:+: content := by
  unfold afterKeyword? at h
  split at h
  · split at h
    · cases h
      exact List.nil_infix
    · rename_i b after hdrop
      split at h
      · cases h
        exact (Bytes.isInfix_strip _).trans (hdrop ▸ List.drop_suffix _ content).isInfix
      · cases h
  · cases h

/-- A condition is opened only when its expression, which stands in the content, has been read. -/
theorem exists_expression_of_ifOpen {content : Bytes} {condition : Condition}
    (h : parse content = .ok (.ifOpen condition)) :
    ∃ expression, expression <:+: content ∧ Condition.parse expression = .ok condition := by
  have hmark : parseMark content = .ok (.ifOpen condition) := by
    unfold parse at h
    split at h
    · obtain ⟨_, -, heq⟩ := map_eq_ok_iff.mp h
      cases heq
    · repeat' split at h
      all_goals first | exact h | (obtain ⟨_, -, heq⟩ := map_eq_ok_iff.mp h; cases heq)
  unfold parseMark at hmark
  split at hmark
  · rename_i hkeyword
    obtain ⟨found, hfound, heq⟩ := map_eq_ok_iff.mp hmark
    cases heq
    exact ⟨_, isInfix_of_afterKeyword? hkeyword, hfound⟩
  · cases hmark
  · cases hmark
  · split at hmark
    · rename_i found hword
      cases hmark
      have hmem := Table.mem_of_find? hword
      simp [words] at hmem
    · cases hmark

/-- The operands of a statement are read from its content. -/
theorem isReadFrom_of_parse {content : Bytes} {statement : Statement}
    (h : parse content = .ok statement) :
    ∀ operand ∈ statement.operands, operand.IsReadFrom content := by
  cases statement with
  | print statement =>
    cases readAs_of_parse h with
    | print hprint => exact Print.isReadFrom_of_parse? hprint
    | word hword => simp [words] at hword
  | bind statement =>
    rw [operands, List.forall_mem_singleton]
    cases readAs_of_parse h with
    | bind hbind => exact Binding.isReadFrom_of_parse hbind
    | word hword => simp [words] at hword
  | ifOpen condition =>
    obtain ⟨expression, hexpression, hcondition⟩ := exists_expression_of_ifOpen h
    intro operand hmem
    exact (Condition.isReadFrom_of_parse hcondition operand hmem).mono hexpression
  | forOpen head =>
    cases head with
    | range head => simp [operands]
    | count head =>
      obtain ⟨hinit, hlimit⟩ := LoopHead.isReadFrom_of_parse (parse_loop_of_forOpen h)
      simp [operands, hinit, hlimit]
  | _ => simp [operands]

end Statement

/-! ## Operands of a tree -/

/-- The operands whose values a piece of content takes. -/
def Token.operands : Token → List Operand
  | .text _ => []
  | .statement found => found.operands

/-- Content without its loose parts is part of the content, in order. -/
theorem Token.isSublist_dropLoose (loose : Option Nat) (tokens : List Token) :
    (dropLoose loose tokens).Sublist tokens := by
  induction tokens generalizing loose with
  | nil => simp [dropLoose]
  | cons token rest ih =>
    cases loose with
    | none => exact (ih _).cons_cons token
    | some n =>
      unfold dropLoose
      split
      · exact (ih _).cons token
      · split
        · split
          · exact (ih _).cons_cons token
          · exact (ih _).cons token
        · exact (ih _).cons token

/-- The statements of a parsed tree are read from regions of its prepared source. -/
theorem Tree.exists_region_of_parse {keepFormatting : Bool} {text : Bytes} {tree : Tree}
    (h : parse keepFormatting text = .ok tree) {statement : Statement}
    (hmem : .statement statement ∈ Node.walkAll tree.nodes) :
    ∃ offset inside, .region offset inside ∈ Segment.scan (Source.prepare keepFormatting text) ∧
      Statement.parse inside.strip = .ok statement := by
  have hkeep := (Tree.spells_of_parse h).dropLoose_none.1 []
  have hfound : .statement statement ∈
      (Segment.scan (Source.prepare keepFormatting text)).filterMap Segment.token? := by
    have hsublist := Token.isSublist_dropLoose none
      ((Segment.scan (Source.prepare keepFormatting text)).filterMap Segment.token?)
    rw [List.append_nil] at hkeep
    rw [hkeep] at hsublist
    exact hsublist.subset (List.mem_append_left _ hmem)
  obtain ⟨segment, hsegment, heq⟩ := List.mem_filterMap.mp hfound
  cases segment with
  | text raw => cases heq
  | region offset inside =>
    obtain ⟨found, hstatement, heq⟩ := Option.map_eq_some_iff.mp heq
    cases heq
    refine ⟨offset, inside, hsegment, ?_⟩
    cases hresult : Statement.parse inside.strip with
    | error fault => simp [hresult, Except.toOption] at hstatement
    | ok found => simpa [hresult, Except.toOption] using hstatement
  | unclosed offset => cases heq

/-- The operands of a parsed tree are read from its prepared source. -/
theorem Tree.isReadFrom_of_parse {keepFormatting : Bool} {text : Bytes} {tree : Tree}
    (h : parse keepFormatting text = .ok tree) :
    ∀ token ∈ Node.walkAll tree.nodes, ∀ operand ∈ token.operands,
      operand.IsReadFrom (Source.prepare keepFormatting text) := by
  intro token htoken operand hmem
  cases token with
  | text raw => simp [Token.operands] at hmem
  | statement found =>
    obtain ⟨offset, inside, hsegment, hparse⟩ := exists_region_of_parse h htoken
    exact (Statement.isReadFrom_of_parse hparse operand hmem).mono
      ((Bytes.isInfix_strip inside).trans (Segment.isInfix_of_region hsegment))

end Stencil
