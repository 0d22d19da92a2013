import Stencil.Proofs.Template.Written

/-!
# Separator clauses

A loop statement is read at every place where its separator clause could open: at a word for it that
stands between blanks at top level. The first place whose head is a loop decides. A statement that
is written as tokens with spaces between them can be mistaken at a token that is such a word only,
so when no head before such a token is a loop the statement is read whole
(`LoopHead.parse_spelled`).
-/

set_option autoImplicit false

namespace Stencil

/-! ## Tokens -/

/-- The blanks are six. -/
theorem Byte.mem_of_isBlank {b : UInt8} (h : isBlank b = true) :
    b ∈ [space, tab, newline, 0x0b, 0x0c, carriageReturn] := by
  obtain rfl | ⟨hlow, hhigh⟩ : b = 0x20 ∨ 0x09 ≤ b ∧ b ≤ 0x0d := by simpa [isBlank] using h
  · decide
  · rw [UInt8.le_iff_toNat_le] at hlow hhigh
    have hvalue : b.toNat = 9 ∨ b.toNat = 10 ∨ b.toNat = 11 ∨ b.toNat = 12 ∨ b.toNat = 13 := by
      simp at hlow hhigh
      omega
    have hbyte : b = 9 ∨ b = 10 ∨ b = 11 ∨ b = 12 ∨ b = 13 := by
      simp only [← UInt8.toNat_inj]
      exact hvalue
    obtain rfl | rfl | rfl | rfl | rfl := hbyte <;> decide

namespace Bytes

/-- A text that stands between spaces: nothing in it is a blank, a bracket, or a byte that could
begin a comment or end a region. -/
structure IsToken (s : Bytes) : Prop where
  nonempty : s ≠ []
  blank : ∀ b ∈ s, Byte.isBlank b = false
  gap : ∀ b ∈ s, isGap b = false
  bracket : ∀ b ∈ s, Scan.isBracket b = false
  mark : ∀ b ∈ s, b ∉ [0x23, Byte.closeBrace]

/-- A text that ends where a token may end: it is empty or a blank comes first. -/
def StopsToken (rest : Bytes) : Prop := ∀ b, rest.head? = some b → Byte.isBlank b = true

/-- The end of a text stops a token. -/
theorem stopsToken_nil : StopsToken [] := by
  rintro b ⟨⟩

/-- A space stops a token. -/
theorem stopsToken_space (rest : Bytes) : StopsToken (Byte.space :: rest) := by
  rintro b ⟨⟩
  rfl

namespace IsToken

variable {s t : Bytes}

/-- No blank stands at an end of a token. -/
theorem isTrimmed (h : IsToken s) : IsTrimmed s := .of_forall h.nonempty h.gap

/-- A given text is seen to be a token. -/
theorem of_all (hne : s ≠ [])
    (h : s.all (fun b => !Byte.isBlank b && !isGap b && !Scan.isBracket b &&
      !(List.contains [0x23, Byte.closeBrace] b)) = true) : IsToken s := by
  have hall : ∀ b ∈ s, ((Byte.isBlank b = false ∧ isGap b = false) ∧ Scan.isBracket b = false) ∧
      b ∉ [0x23, Byte.closeBrace] := by
    intro b hb
    have hb := List.all_eq_true.mp h b hb
    simpa using hb
  exact ⟨hne, fun b hb => (hall b hb).1.1.1, fun b hb => (hall b hb).1.1.2,
    fun b hb => (hall b hb).1.2, fun b hb => (hall b hb).2⟩

/-- Two tokens without a gap are one. -/
theorem append (hs : IsToken s) (ht : IsToken t) : IsToken (s ++ t) where
  nonempty := by simp [hs.nonempty]
  blank b hb := (List.mem_append.mp hb).elim (hs.blank b) (ht.blank b)
  gap b hb := (List.mem_append.mp hb).elim (hs.gap b) (ht.gap b)
  bracket b hb := (List.mem_append.mp hb).elim (hs.bracket b) (ht.bracket b)
  mark b hb := (List.mem_append.mp hb).elim (hs.mark b) (ht.mark b)

/-- A token is plain. -/
theorem isPlain (h : IsToken s) : Source.IsPlain s := by
  refine .of_notMem ⟨fun hmem => ?_, fun hmem => h.mark _ hmem (by decide),
    fun hmem => h.mark _ hmem (by decide)⟩
  have hblank := h.blank _ hmem
  cases hblank

/-- A token is the longest run of bytes that are no blanks. -/
theorem eq_of_append_eq (hs : IsToken s) (ht : IsToken t) {rest more : Bytes}
    (hrest : StopsToken rest) (hmore : StopsToken more) (h : s ++ rest = t ++ more) :
    s = t ∧ rest = more := by
  have hread : ∀ {token tail : Bytes}, IsToken token → StopsToken tail →
      readWhile (!Byte.isBlank ·) (token ++ tail) = (token, tail) := fun htoken htail =>
    readWhile_append _ (fun b hb => by simp [htoken.blank b hb])
      fun b hb => by simp [htail b hb]
  have hboth := (hread hs hrest).symm.trans ((congrArg _ h).trans (hread ht hmore))
  exact Prod.mk.inj hboth

end IsToken

/-- What is made of the bytes of paths is a token. -/
theorem IsOfPath.isToken {s : Bytes} (h : IsOfPath s) : IsToken s where
  nonempty := h.nonempty
  blank b hb := Bool.eq_false_iff.mpr fun hblank =>
    Byte.notMem_of_isOfPath (h.bytes b hb) rfl (Byte.mem_of_isBlank hblank)
  gap b hb := Byte.isGap_of_isOfPath (h.bytes b hb)
  bracket b hb := Byte.isBracket_of_isOfPath (h.bytes b hb)
  mark b hb := Byte.notMem_of_isOfPath (h.bytes b hb) rfl

end Bytes

namespace LoopHead

/-! ## Where a clause opens -/

/-- Whether a token is a word for the separator clause. -/
def isClauseWord (token : Bytes) : Bool := token == ascii "sep" || token == ascii "separator"

/-- A word that opens a separator clause is a token. -/
theorem isToken_of_isClauseWord {word : Bytes} (h : isClauseWord word = true) :
    Bytes.IsToken word := by
  have hword : word = ascii "sep" ∨ word = ascii "separator" := by simpa [isClauseWord] using h
  have hpath : Bytes.IsOfPath word := by
    obtain rfl | rfl := hword
    · exact .of_isWord rfl
    · exact .of_isWord rfl
  exact hpath.isToken

/-- The length of the clause word at the start of a text. -/
theorem clauseWordLength?_length (lead rest : Bytes) :
    clauseWordLength? (lead ++ rest) lead.length = clauseWordLength? rest 0 := by
  rw [clauseWordLength?, clauseWordLength?, List.drop_left, List.drop_zero]

/-- What stands before a place is blank when the text up to there ends in a blank. -/
theorem blankBefore_length (lead rest : Bytes) :
    blankBefore (lead ++ rest) lead.length = lead.getLast?.any Byte.isBlank := by
  cases hlast : lead.getLast? with
  | none =>
    obtain rfl := List.getLast?_eq_none_iff.mp hlast
    rfl
  | some last =>
    have hne : lead ≠ [] := by
      rintro rfl
      cases hlast
    have hpos := List.length_pos_iff.mpr hne
    have hbefore : (lead ++ rest)[lead.length - 1]? = some last := by
      rw [List.getElem?_append_left (by omega), ← List.getLast?_eq_getElem?, hlast]
    simp [blankBefore, hbefore, hne]

/-- A token that begins with a clause word and has a blank right behind the word is the word. -/
theorem eq_of_blankAfter {word token rest : Bytes} (hword : isClauseWord word = true)
    (htoken : token.IsToken) (hrest : rest.StopsToken)
    (hstarts : word.isPrefixOf (token ++ rest) = true)
    (hblank : (((token ++ rest)[word.length]?.map Byte.isBlank).getD false) = true) :
    token = word ∧ rest ≠ [] := by
  obtain ⟨more, hmore⟩ := List.isPrefixOf_iff_prefix.mp hstarts
  rw [← hmore, List.getElem?_append_right (Nat.le_refl _), Nat.sub_self] at hblank
  cases more with
  | nil => cases hblank
  | cons b more =>
    have hstops : Bytes.StopsToken (b :: more) := by
      rintro _ ⟨⟩
      exact hblank
    obtain ⟨rfl, rfl⟩ :=
      htoken.eq_of_append_eq (isToken_of_isClauseWord hword) hrest hstops hmore.symm
    exact ⟨rfl, List.cons_ne_nil _ _⟩

/-- Behind a token comes a blank, when it is stopped and not at the end. -/
theorem blankAfter_length {token rest : Bytes} (hne : rest ≠ []) (hrest : rest.StopsToken) :
    ((token ++ rest)[token.length]?.map Byte.isBlank).getD false = true := by
  obtain ⟨b, more, rfl⟩ := List.exists_cons_of_ne_nil hne
  rw [List.getElem?_append_right (Nat.le_refl _), Nat.sub_self]
  exact hrest b rfl

/-- A clause opens at a token exactly when the token is a clause word and something follows it. -/
theorem clauseWordLength?_token {token rest : Bytes} (htoken : token.IsToken)
    (hrest : rest.StopsToken) :
    (if (ascii "sep").isPrefixOf (token ++ rest) then clauseWordLength? (token ++ rest) 0
      else none) =
      if isClauseWord token = true ∧ rest ≠ [] then some token.length else none := by
  let isLong := Bytes.startsWith (token ++ rest) (ascii "separator") &&
    ((token ++ rest)[9]?.map Byte.isBlank).getD false
  have hlength : clauseWordLength? (token ++ rest) 0 =
      if ((token ++ rest)[if isLong then 9 else 3]?.map Byte.isBlank).getD false = true then
        some (if isLong then 9 else 3) else none := by
    rw [clauseWordLength?, List.drop_zero]
  have hwords : isClauseWord (ascii "separator") = true ∧ isClauseWord (ascii "sep") = true :=
    ⟨rfl, rfl⟩
  have hlong : isLong = true ↔ token = ascii "separator" ∧ rest ≠ [] := by
    rw [Bool.and_eq_true]
    constructor
    · exact fun h => eq_of_blankAfter hwords.1 htoken hrest h.1 h.2
    · rintro ⟨rfl, hne⟩
      exact ⟨List.isPrefixOf_iff_prefix.mpr (List.prefix_append _ _), blankAfter_length hne hrest⟩
  have hshort : (ascii "sep").isPrefixOf (token ++ rest) = true ∧
      ((token ++ rest)[3]?.map Byte.isBlank).getD false = true ↔
        token = ascii "sep" ∧ rest ≠ [] := by
    constructor
    · exact fun h => eq_of_blankAfter hwords.2 htoken hrest h.1 h.2
    · rintro ⟨rfl, hne⟩
      exact ⟨List.isPrefixOf_iff_prefix.mpr (List.prefix_append _ _), blankAfter_length hne hrest⟩
  by_cases hword : token = ascii "separator" ∧ rest ≠ []
  · have hstarts : (ascii "sep").isPrefixOf (token ++ rest) = true := by
      rw [hword.1]
      rfl
    obtain ⟨-, hblank⟩ := Bool.and_eq_true_iff.mp (hlong.mpr hword)
    rw [if_pos hstarts, hlength, hlong.mpr hword, if_pos rfl, if_pos hblank, hword.1,
      if_pos ⟨rfl, hword.2⟩]
    rfl
  · have hlong' : isLong = false := Bool.eq_false_iff.mpr fun h => hword (hlong.mp h)
    rw [hlength, hlong', if_neg Bool.false_ne_true]
    by_cases hword' : token = ascii "sep" ∧ rest ≠ []
    · obtain ⟨hstarts, hblank⟩ := hshort.mpr hword'
      rw [if_pos hstarts, if_pos hblank, hword'.1, if_pos ⟨rfl, hword'.2⟩]
      rfl
    · have hnot : ¬ (isClauseWord token = true ∧ rest ≠ []) := by
        simp only [isClauseWord, Bool.or_eq_true, beq_iff_eq]
        rintro ⟨hshort | hlong, hne⟩
        · exact hword' ⟨hshort, hne⟩
        · exact hword ⟨hlong, hne⟩
      rw [if_neg hnot]
      by_cases hstarts : (ascii "sep").isPrefixOf (token ++ rest) = true
      · rw [if_pos hstarts, if_neg fun hblank => hword' (hshort.mp ⟨hstarts, hblank⟩)]
      · rw [if_neg hstarts]

/-! ## The first loop among the readings -/

/-- The first loop among the readings of a statement whose clause opens behind `lead`. -/
def firstLoop? (lead rest : Bytes) : Option (Except TemplateFault LoopHead) :=
  ((Bytes.findTopLevelFrom (ascii "sep") (Scan.outside 0) lead.length rest).filterMap
    (splitClause? (lead ++ rest))).findSome? fun (head, separator) => ofReading? head separator

/-- A loop is read with the first separator clause behind which its head can be read, else without
any. -/
theorem parse_eq (content : Bytes) :
    parse content = ((firstLoop? [] content).or (ofReading? content [])).getD
      (.error (.malformedLoop content)) := by
  rw [parse, readings, Bytes.findTopLevel_eq, List.findSome?_append, List.findSome?_singleton]
  rfl

/-- The reading whose clause opens right behind `lead`, if one does. -/
def loopAt? (lead rest : Bytes) : Option (Except TemplateFault LoopHead) :=
  if lead.getLast?.any Byte.isBlank = true then
    (if (ascii "sep").isPrefixOf rest then clauseWordLength? rest 0 else none).bind fun length =>
      ofReading? lead.strip (Quoted.literalOrText (rest.drop length))
  else none

/-- The search for a separator clause goes on behind a byte that is no bracket. -/
theorem firstLoop?_cons (lead : Bytes) {b : UInt8} (hb : Scan.isBracket b = false) (rest : Bytes) :
    firstLoop? lead (b :: rest) =
      (loopAt? lead (b :: rest)).or (firstLoop? (lead ++ [b]) rest) := by
  have htop : (Scan.outside 0).isTopLevel = true := rfl
  have hsplit : splitClause? (lead ++ b :: rest) lead.length =
      if lead.getLast?.any Byte.isBlank = true then
        (clauseWordLength? (b :: rest) 0).map fun length =>
          (lead.strip, Quoted.literalOrText ((b :: rest).drop length))
      else none := by
    rw [splitClause?, blankBefore_length, clauseWordLength?_length, List.take_left]
    simp only [List.drop_length_add_append]
  have hlater : lead ++ [b] ++ rest = lead ++ b :: rest := by simp
  rw [firstLoop?, Bytes.findTopLevelFrom, Scan.step_of_isBracket_eq_false hb, htop, firstLoop?,
    hlater, List.length_append, List.length_singleton, loopAt?]
  by_cases hstarts : (ascii "sep").isPrefixOf (b :: rest) = true
  · rw [if_pos (by rw [hstarts]; rfl), List.filterMap_cons, hsplit]
    by_cases hblank : lead.getLast?.any Byte.isBlank = true
    · simp only [hblank, if_true, hstarts]
      cases clauseWordLength? (b :: rest) 0 with
      | none => rfl
      | some length =>
        simp only [Option.map_some, List.findSome?_cons, Option.bind_some]
        cases ofReading? lead.strip (Quoted.literalOrText ((b :: rest).drop length)) <;> rfl
    · simp [hblank]
  · rw [if_neg (by simp [hstarts])]
    simp [hstarts]

/-- No clause opens where no blank stands before. -/
theorem firstLoop?_cons_of_last {lead : Bytes} (hlead : lead.getLast?.any Byte.isBlank = false)
    {b : UInt8} (hb : Scan.isBracket b = false) (rest : Bytes) :
    firstLoop? lead (b :: rest) = firstLoop? (lead ++ [b]) rest := by
  rw [firstLoop?_cons lead hb, loopAt?, hlead]
  rfl

/-- No clause opens inside a token. -/
theorem firstLoop?_append_of_last {lead token : Bytes}
    (hlead : lead.getLast?.any Byte.isBlank = false)
    (hblank : ∀ b ∈ token, Byte.isBlank b = false)
    (hbracket : ∀ b ∈ token, Scan.isBracket b = false) (rest : Bytes) :
    firstLoop? lead (token ++ rest) = firstLoop? (lead ++ token) rest := by
  induction token generalizing lead with
  | nil => simp
  | cons b more ih =>
    rw [List.forall_mem_cons] at hblank hbracket
    rw [List.cons_append, firstLoop?_cons_of_last hlead hbracket.1,
      ih (by simp [hblank.1]) hblank.2 hbracket.2, List.append_assoc]
    rfl

/-- A clause that opens at a token opens at its start, where the token is a clause word. -/
theorem firstLoop?_token (lead : Bytes) {token rest : Bytes} (htoken : token.IsToken)
    (hrest : rest.StopsToken) :
    firstLoop? lead (token ++ rest) =
      (if isClauseWord token = true ∧ rest ≠ [] ∧ lead.getLast?.any Byte.isBlank = true then
        ofReading? lead.strip (Quoted.literalOrText rest) else none).or
      (firstLoop? (lead ++ token) rest) := by
  have hopens := clauseWordLength?_token htoken hrest
  have hat : loopAt? lead (token ++ rest) =
      if isClauseWord token = true ∧ rest ≠ [] ∧ lead.getLast?.any Byte.isBlank = true then
        ofReading? lead.strip (Quoted.literalOrText rest) else none := by
    rw [loopAt?, hopens]
    by_cases hword : isClauseWord token = true ∧ rest ≠ []
    · rw [if_pos hword, Option.bind_some, List.drop_left]
      simp only [hword, ne_eq, not_false_eq_true, true_and]
    · rw [if_neg hword, Option.bind_none, ite_self, if_neg fun h => hword ⟨h.1, h.2.1⟩]
  obtain ⟨first, more, rfl⟩ := List.exists_cons_of_ne_nil htoken.nonempty
  have hblank := List.forall_mem_cons.mp htoken.blank
  have hbracket := List.forall_mem_cons.mp htoken.bracket
  rw [← hat, List.cons_append, firstLoop?_cons lead hbracket.1,
    firstLoop?_append_of_last (by simp [hblank.1]) hblank.2 hbracket.2, List.append_assoc]
  rfl

/-! ## Statements written as tokens -/

/-- A loop statement written as its keyword and tokens with a space before each. -/
def spelled (tokens : List Bytes) : Bytes := ascii "for" ++ tokens.flatMap (Byte.space :: ·)

/-- Tokens in a row are spelled one behind another. -/
theorem spelled_append (before more : List Bytes) :
    spelled (before ++ more) = spelled before ++ more.flatMap (Byte.space :: ·) := by
  rw [spelled, List.flatMap_append, ← List.append_assoc]
  rfl

/-- Spelled tokens end in a byte of the last one. -/
theorem exists_getLast?_spelled {tokens : List Bytes} (h : ∀ token ∈ tokens, token.IsToken) :
    ∃ b, (spelled tokens).getLast? = some b ∧ Byte.isBlank b = false ∧ Bytes.isGap b = false := by
  obtain rfl | ⟨before, token, rfl⟩ := List.eq_nil_or_concat tokens
  · exact ⟨_, rfl, rfl, rfl⟩
  · rw [List.concat_eq_append] at h ⊢
    have htoken : token.IsToken := h token (by simp)
    have hlast := List.getLast?_eq_some_getLast htoken.nonempty
    have hmem := List.getLast_mem htoken.nonempty
    refine ⟨_, ?_, htoken.blank _ hmem, htoken.gap _ hmem⟩
    simp [spelled_append, List.getLast?_append, List.getLast?_cons, hlast]

/-- No blank stands at an end of spelled tokens. -/
theorem isTrimmed_spelled {tokens : List Bytes} (h : ∀ token ∈ tokens, token.IsToken) :
    (spelled tokens).IsTrimmed where
  first := rfl
  last := by
    obtain ⟨b, hlast, -, hgap⟩ := exists_getLast?_spelled h
    rw [hlast, Option.map_some, hgap]

/-- Spelled tokens do not end in a blank. -/
theorem any_isBlank_spelled {tokens : List Bytes} (h : ∀ token ∈ tokens, token.IsToken) :
    (spelled tokens).getLast?.any Byte.isBlank = false := by
  obtain ⟨b, hlast, hblank, -⟩ := exists_getLast?_spelled h
  rw [hlast, Option.any_some, hblank]

/-- What stands before a token that is a word for a clause is no loop. -/
def Unmistaken : List Bytes → List Bytes → Prop
  | _, [] => True
  | before, token :: more =>
    (isClauseWord token = true → ∀ separator, ofReading? (spelled before) separator = none) ∧
      Unmistaken (before ++ [token]) more

/-- Where no token is mistaken for a clause the search goes on behind the tokens. -/
theorem firstLoop?_spelled {before more : List Bytes} {rest : Bytes}
    (hbefore : ∀ token ∈ before, token.IsToken) (hmore : ∀ token ∈ more, token.IsToken)
    (hunmistaken : Unmistaken before more) (hrest : rest.StopsToken) :
    firstLoop? (spelled before) (more.flatMap (Byte.space :: ·) ++ rest) =
      firstLoop? (spelled (before ++ more)) rest := by
  induction more generalizing before with
  | nil => simp
  | cons token more ih =>
    obtain ⟨hnone, hlater⟩ := hunmistaken
    rw [List.forall_mem_cons] at hmore
    have htokens : ∀ other ∈ before ++ [token], other.IsToken := by
      simpa [or_imp, forall_and] using ⟨hbefore, hmore.1⟩
    have hstops : Bytes.StopsToken (more.flatMap (Byte.space :: ·) ++ rest) := by
      cases more with
      | nil => exact hrest
      | cons next more => exact Bytes.stopsToken_space _
    have hstrip : Bytes.strip (spelled before ++ [Byte.space]) = spelled before :=
      Bytes.strip_append [] (spelled before) [Byte.space] rfl rfl (isTrimmed_spelled hbefore).first
        (isTrimmed_spelled hbefore).last
    have hspelled : spelled before ++ [Byte.space] ++ token = spelled (before ++ [token]) := by
      simp [spelled_append]
    have htext : (token :: more).flatMap (Byte.space :: ·) ++ rest =
        Byte.space :: (token ++ (more.flatMap (Byte.space :: ·) ++ rest)) := by simp
    rw [htext, firstLoop?_cons_of_last (any_isBlank_spelled hbefore) rfl,
      firstLoop?_token _ hmore.1 hstops, hstrip, hspelled, ih htokens hmore.2 hlater,
      List.append_assoc]
    split
    · rename_i hword
      rw [hnone hword.1, Option.none_or]
      rfl
    · rfl

/-- A separator clause as it is written: a word for it and the literal of a text. -/
structure WrittenSeparator where
  word : Bytes
  opens : isClauseWord word = true
  text : Bytes

namespace WrittenSeparator

/-- What stands behind the head of the loop. -/
def clause : Option WrittenSeparator → Bytes
  | none => []
  | some written => Byte.space :: (written.word ++ Byte.space :: Quoted.encode written.text)

/-- The separator that a loop has. -/
def separator (written : Option WrittenSeparator) : Bytes := (written.map text).getD []

end WrittenSeparator

/-- A loop that is written as tokens, none of which is mistaken for the word of its clause, is read
with the clause behind it. -/
theorem parse_spelled {tokens : List Bytes} (head : Bytes → LoopHead)
    (htokens : ∀ token ∈ tokens, token.IsToken) (hunmistaken : Unmistaken [] tokens)
    (hread : ∀ separator, ofReading? (spelled tokens) separator = some (.ok (head separator)))
    (written : Option WrittenSeparator) :
    parse (spelled tokens ++ WrittenSeparator.clause written) =
      .ok (head (WrittenSeparator.separator written)) := by
  have hstops : Bytes.StopsToken (WrittenSeparator.clause written) := by
    cases written with
    | none => exact Bytes.stopsToken_nil
    | some written => exact Bytes.stopsToken_space _
  have hkeyword : Bytes.IsToken (ascii "for") :=
    (Bytes.IsOfPath.of_isWord (by decide)).isToken
  have hfirst : firstLoop? [] (spelled tokens ++ WrittenSeparator.clause written) =
      firstLoop? (spelled tokens) (WrittenSeparator.clause written) := by
    rw [spelled, List.append_assoc,
      firstLoop?_append_of_last rfl hkeyword.blank hkeyword.bracket, List.nil_append]
    exact firstLoop?_spelled (by simp) htokens hunmistaken hstops
  rw [parse_eq, hfirst]
  cases written with
  | none =>
    have hnone : firstLoop? (spelled tokens) [] = none := rfl
    rw [WrittenSeparator.clause, hnone, Option.none_or, List.append_nil, hread]
    rfl
  | some written =>
    have hstrip : Bytes.strip (spelled tokens ++ [Byte.space]) = spelled tokens :=
      Bytes.strip_append [] (spelled tokens) [Byte.space] rfl rfl (isTrimmed_spelled htokens).first
        (isTrimmed_spelled htokens).last
    have htext : Quoted.literalOrText (Byte.space :: Quoted.encode written.text) = written.text :=
      Quoted.literalOrText_encode [Byte.space] written.text rfl
    rw [WrittenSeparator.clause, firstLoop?_cons_of_last (any_isBlank_spelled htokens) rfl,
      firstLoop?_token _ (isToken_of_isClauseWord written.opens) (Bytes.stopsToken_space _),
      if_pos ⟨written.opens, List.cons_ne_nil _ _, by simp [Byte.isBlank]⟩, hstrip, htext, hread]
    rfl

end LoopHead

end Stencil
