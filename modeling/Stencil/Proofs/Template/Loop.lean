import Stencil.Proofs.Number.Written
import Stencil.Proofs.Template.Origin
import Stencil.Proofs.Template.Separator

/-!
# Loops in writing

A loop over elements and a counting loop are written as tokens with spaces between them and an
optional separator clause behind them. Every name may be a word of the grammar itself: what stands
before a name that could open a clause is no loop, as it has no source yet, or fewer than its two
semicolons and its step. So a loop is read as it is written (`Tree.parse_writtenLoop`).
-/

set_option autoImplicit false

namespace Stencil

/-! ## Tokens in front of a text -/

/-- No blank is skipped in front of a token. -/
theorem Bytes.IsToken.skipBlanks_append {s : Bytes} (h : s.IsToken) (rest : Bytes) :
    skipBlanks (s ++ rest) = s ++ rest := by
  obtain ⟨first, more, rfl⟩ := List.exists_cons_of_ne_nil h.nonempty
  have hfirst : Byte.isBlank first = false := h.blank first (.head _)
  rw [skipBlanks, List.cons_append, List.dropWhile_cons_of_neg (by simp [hfirst])]

/-- The space in front of a token is skipped, and nothing else. -/
theorem Bytes.IsToken.skipBlanks_space {s : Bytes} (h : s.IsToken) (rest : Bytes) :
    skipBlanks (Byte.space :: (s ++ rest)) = s ++ rest :=
  h.skipBlanks_append rest

/-- A word is a token. -/
theorem Bytes.isToken_of_isWord {word : Bytes} (h : word.isWord = true) : word.IsToken :=
  (IsOfPath.of_isWord h).isToken

/-- A text is broken at the first of a kind of byte. -/
theorem Bytes.breakOn_byte {b : UInt8} {before : Bytes} (h : b ∉ before) (after : Bytes) :
    breakOn [b] (before ++ b :: after) = some (before, after) := by
  induction before with
  | nil => simp [breakOn]
  | cons c rest ih =>
    rw [List.mem_cons, not_or] at h
    simp [breakOn, List.isPrefixOf, h.1, ih h.2]

namespace LoopHead

/-! ## What is no loop -/

/-- The keyword is dropped with the space behind it. -/
theorem dropFor?_spelled {token : Bytes} (htoken : token.IsToken) (more : List Bytes) :
    dropFor? (spelled (token :: more)) = some (token ++ more.flatMap (Byte.space :: ·)) := by
  have hskip := htoken.skipBlanks_append (more.flatMap (Byte.space :: ·))
  rw [spelled, List.flatMap_cons, List.cons_append]
  exact congrArg some hskip

/-- A counting loop has two semicolons. -/
theorem two_le_count_of_readCount? {head : Bytes} {parts : CountParts}
    (h : readCount? head = some parts) : 2 ≤ head.count Byte.semicolon := by
  simp only [readCount?, Option.bind_eq_bind, Option.bind_eq_some_iff] at h
  obtain ⟨opened, hopened, ⟨counter, named⟩, hnamed, assigned, hassigned, ⟨initial, tested⟩,
    hinitial, init, -, ⟨test, stepped⟩, htest, -⟩ := h
  have hsuffix : assigned <:+ head := (isSuffix_of_dropAssign? hassigned).trans
    ((Statement.isSuffix_of_readWord? hnamed).trans (isSuffix_of_dropFor? hopened))
  have hfirst : assigned = initial ++ [Byte.semicolon] ++ tested :=
    Bytes.eq_append_of_breakOn hinitial
  have hsecond : tested = test ++ [Byte.semicolon] ++ stepped := Bytes.eq_append_of_breakOn htest
  calc 2 ≤ assigned.count Byte.semicolon := by
        simp only [hfirst, hsecond, List.count_append, List.count_singleton_self]
        omega
    _ ≤ head.count Byte.semicolon := hsuffix.sublist.count_le _

/-- What is no loop over elements and has at most one semicolon is no loop. -/
theorem ofReading?_eq_none {head separator : Bytes} (hrange : readRange? separator head = none)
    (hcount : head.count Byte.semicolon ≤ 1) : ofReading? head separator = none := by
  have hnone : readCount? head = none := by
    cases hread : readCount? head with
    | none => rfl
    | some parts =>
      have htwo := two_le_count_of_readCount? hread
      omega
  rw [ofReading?, hrange, hnone]
  rfl

/-- Spelling tokens adds no semicolon. -/
theorem count_spelled (tokens : List Bytes) :
    (spelled tokens).count Byte.semicolon = tokens.flatten.count Byte.semicolon := by
  have hkeyword : (ascii "for").count Byte.semicolon = 0 := by decide
  have hspace : Byte.space ≠ Byte.semicolon := by decide
  rw [spelled, List.count_append, hkeyword, Nat.zero_add]
  induction tokens with
  | nil => rfl
  | cons token tokens ih =>
    rw [List.flatMap_cons, List.flatten_cons, List.count_append, List.count_append, ih,
      List.count_cons_of_ne hspace]

/-- A path holds no semicolon. -/
theorem count_semicolon_of_isOfPath {s : Bytes} (h : s.IsOfPath) :
    s.count Byte.semicolon = 0 := by
  rw [List.count_eq_zero]
  intro hmem
  have hpath := h.bytes _ hmem
  cases hpath

/-- A word holds no semicolon. -/
theorem count_semicolon_of_isWord {word : Bytes} (h : word.isWord = true) :
    word.count Byte.semicolon = 0 :=
  count_semicolon_of_isOfPath (.of_isWord h)

/-- There is no source where a token other than the word for one stands. -/
theorem readSource?_eq_none {token rest : Bytes} (htoken : token.IsToken)
    (hnot : token ≠ ascii "range") (hrest : rest.StopsToken) :
    readSource? (Byte.space :: (token ++ rest)) = none := by
  have hword : Bytes.IsToken (ascii "range") := Bytes.isToken_of_isWord (by decide)
  rw [readSource?, htoken.skipBlanks_space]
  split
  · rename_i hstarts
    obtain ⟨after, hafter⟩ := List.isPrefixOf_iff_prefix.mp hstarts
    have hdrop : (token ++ rest).drop 5 = after := by
      rw [← hafter]
      rfl
    rw [hdrop]
    cases after with
    | nil => rfl
    | cons b after =>
      have hblank : Byte.isBlank b = false := by
        rw [Bool.eq_false_iff]
        intro hblank
        have hstops : Bytes.StopsToken (b :: after) := by
          rintro _ ⟨⟩
          exact hblank
        exact hnot (htoken.eq_of_append_eq hword hrest hstops hafter.symm).1
      simp [hblank]
  · rfl

/-- A clause word ends in no mark. -/
theorem isClauseWord_append {s mark : Bytes} {b : UInt8} (hlast : mark.getLast? = some b)
    (hb : Byte.isLetter b = false) : isClauseWord (s ++ mark) = false := by
  rw [Bool.eq_false_iff]
  intro hword
  have hletter : ((s ++ mark).getLast?.map Byte.isLetter) = some true := by
    have hcases : s ++ mark = ascii "sep" ∨ s ++ mark = ascii "separator" := by
      simpa [isClauseWord] using hword
    obtain h | h := hcases <;> (rw [h]; decide)
  simp [List.getLast?_append, hlast, hb] at hletter

end LoopHead

/-! ## Loops over elements -/

/-- The names of a loop over elements as they are written: for the key, if there is one, and for the
value. -/
structure WrittenNames where
  key : Option Bytes
  isKey : ∀ word ∈ key, Bytes.isWord word = true
  value : Bytes
  isValue : value.isWord = true

namespace WrittenNames

open LoopHead

variable (written : WrittenNames)

/-- The names, with a comma behind the key. -/
def tokens : List Bytes :=
  match written.key with
  | none => [written.value]
  | some key => [key ++ [Byte.comma], written.value]

/-- The loop with these names: the key `_` is none. -/
def head (source separator : Bytes) : RangeHead where
  key := if written.key = some [Byte.underscore] then [] else written.key.getD []
  value := written.value
  source
  separator

/-- A word with a comma behind it is a token. -/
theorem isToken_comma {word : Bytes} (h : word.isWord = true) :
    Bytes.IsToken (word ++ [Byte.comma]) :=
  (Bytes.isToken_of_isWord h).append (.of_all (List.cons_ne_nil _ _) rfl)

/-- The names are tokens. -/
theorem isToken_tokens : ∀ token ∈ written.tokens, token.IsToken := by
  intro token htoken
  rw [tokens] at htoken
  cases hkey : written.key with
  | none =>
    simp only [hkey, List.mem_singleton] at htoken
    exact htoken ▸ Bytes.isToken_of_isWord written.isValue
  | some key =>
    simp only [hkey, List.mem_cons, List.not_mem_nil, or_false] at htoken
    obtain rfl | rfl := htoken
    · exact isToken_comma (written.isKey key hkey)
    · exact Bytes.isToken_of_isWord written.isValue

section

variable {rest : Bytes} (hrest : ∀ b, rest.head? = some b → Byte.isWord b = false)
  (hcomma : Statement.dropByte? Byte.comma rest.skipBlanks = none) {more : List Bytes}
  (hmore : more.flatMap (Byte.space :: ·) = rest)
include hrest hcomma hmore

/-- The names are read up to a text that continues neither a word nor a list. -/
theorem readNames?_tokens :
    (dropFor? (spelled (written.tokens ++ more))).bind readNames? =
      some (written.key.getD [], written.value, rest) := by
  cases hkey : written.key with
  | none =>
    have htoken := Bytes.isToken_of_isWord written.isValue
    rw [tokens, hkey]
    simp only [List.singleton_append]
    rw [dropFor?_spelled htoken, hmore, Option.bind_some, readNames?,
      Statement.readWord?_append written.isValue hrest]
    simp only [hcomma]
    rfl
  | some key =>
    have hword := written.isKey key hkey
    have htext : key ++ [Byte.comma] ++ (written.value :: more).flatMap (Byte.space :: ·) =
        key ++ Byte.comma :: Byte.space :: (written.value ++ rest) := by
      simp [← hmore]
    have hvalue := (Bytes.isToken_of_isWord written.isValue).skipBlanks_space rest
    rw [tokens, hkey]
    simp only [List.cons_append, List.nil_append]
    rw [dropFor?_spelled (isToken_comma hword), htext, Option.bind_some, readNames?,
      Statement.readWord?_append hword (by rintro b ⟨⟩; rfl)]
    have hcommaFirst : Statement.dropByte? Byte.comma
        (Bytes.skipBlanks (Byte.comma :: Byte.space :: (written.value ++ rest))) =
          some (Byte.space :: (written.value ++ rest)) := rfl
    simp only [hcommaFirst, hvalue, Statement.readWord?_append written.isValue hrest]
    rfl

/-- What a loop over elements is read as, by what stands behind its names. -/
theorem readRange?_tokens (separator : Bytes) :
    readRange? separator (spelled (written.tokens ++ more)) =
      ((dropAssign? rest).bind readSource?).map fun source => written.head source separator := by
  obtain ⟨opened, hopened, hread⟩ :=
    Option.bind_eq_some_iff.mp (written.readNames?_tokens hrest hcomma hmore)
  have hkey : (if written.key.getD [] = [Byte.underscore] then [] else written.key.getD []) =
      if written.key = some [Byte.underscore] then [] else written.key.getD [] := by
    cases written.key with
    | none => rfl
    | some key => simp
  rw [readRange?, hopened, Option.bind_eq_bind, Option.bind_some, hread, Option.bind_eq_bind,
    Option.bind_some]
  cases hassigned : dropAssign? rest with
  | none => simp [hassigned]
  | some assigned =>
    cases hsource : readSource? assigned with
    | none => simp [hassigned, hsource]
    | some source => simp [hassigned, hsource, head, hkey]

end

end WrittenNames

/-- A loop over elements as it is written: its names and the path of its source. -/
structure WrittenRange extends WrittenNames where
  source : DottedPath

namespace WrittenRange

open LoopHead

variable (written : WrittenRange)

/-- The tokens behind the keyword. -/
def tokens : List Bytes :=
  written.toWrittenNames.tokens ++ [ascii ":=", ascii "range", written.source.text]

/-- The loop that is written. -/
def head (separator : Bytes) : RangeHead :=
  written.toWrittenNames.head written.source.text separator

/-- The names, the marks and the path are tokens. -/
theorem isToken_tokens : ∀ token ∈ written.tokens, token.IsToken := by
  intro token htoken
  obtain hname | hmark := List.mem_append.mp htoken
  · exact written.toWrittenNames.isToken_tokens token hname
  · simp only [List.mem_cons, List.not_mem_nil, or_false] at hmark
    obtain rfl | rfl | rfl := hmark
    · exact .of_all (List.cons_ne_nil _ _) rfl
    · exact Bytes.isToken_of_isWord (by decide)
    · exact written.source.isOfPath_text.isToken

/-- The tokens of a loop over elements are read as that loop. -/
theorem readRange?_tokens (separator : Bytes) :
    readRange? separator (spelled written.tokens) = some (written.head separator) := by
  have hsource : readSource? (ascii " range " ++ written.source.text) =
      some written.source.text := by
    have htoken := written.source.isOfPath_text.isToken
    have hskip : Bytes.skipBlanks written.source.text = written.source.text := by
      have happend := htoken.skipBlanks_append []
      rwa [List.append_nil] at happend
    have hne : written.source.text.isEmpty = false := by simpa using htoken.nonempty
    have hall : written.source.text.all (!Byte.isBlank ·) = true := by
      rw [List.all_eq_true]
      intro b hb
      simp [htoken.blank b hb]
    show (let source := Bytes.skipBlanks written.source.text
      if true && !source.isEmpty && source.all (!Byte.isBlank ·) then some source else none) = _
    simp only [hskip, hne, hall]
    rfl
  have hmore : [ascii ":=", ascii "range", written.source.text].flatMap (Byte.space :: ·) =
      ascii " := range " ++ written.source.text := by
    rw [List.flatMap_cons, List.flatMap_cons, List.flatMap_singleton]
    rfl
  have hassign : dropAssign? (ascii " := range " ++ written.source.text) =
      some (ascii " range " ++ written.source.text) := rfl
  rw [tokens, written.toWrittenNames.readRange?_tokens (by rintro b ⟨⟩; rfl) rfl hmore, hassign,
    Option.bind_some, hsource, Option.map_some]
  rfl

/-- No name is mistaken for the word of a clause, and neither is the source. -/
theorem unmistaken_tokens : Unmistaken [] written.tokens := by
  have hnone : ∀ before : List Bytes, before.flatten.count Byte.semicolon = 0 →
      (∀ separator, readRange? separator (spelled before) = none) →
      ∀ separator, ofReading? (spelled before) separator = none := by
    intro before hcount hrange separator
    refine ofReading?_eq_none (hrange separator) ?_
    rw [count_spelled, hcount]
    exact Nat.zero_le _
  have hvalue : written.value.count Byte.semicolon = 0 :=
    count_semicolon_of_isWord written.isValue
  -- Before the source there is a loop without one.
  have hsource : ∀ separator,
      readRange? separator
        (spelled (written.toWrittenNames.tokens ++ [ascii ":=", ascii "range"])) = none := by
    have hmore : [ascii ":=", ascii "range"].flatMap (Byte.space :: ·) = ascii " := range" := rfl
    exact written.toWrittenNames.readRange?_tokens (by rintro b ⟨⟩; rfl) rfl hmore
  have hmarks : (ascii ":=").count Byte.semicolon = 0 ∧
      (ascii "range").count Byte.semicolon = 0 := by decide
  rw [tokens]
  cases hkey : written.key with
  | none =>
    rw [WrittenNames.tokens, hkey] at hsource ⊢
    refine ⟨fun _ => hnone [] rfl fun _ => rfl, fun hword => absurd hword (by decide),
      fun hword => absurd hword (by decide), fun _ => hnone _ ?_ hsource, trivial⟩
    simp [hvalue, hmarks]
  | some key =>
    have hname := written.isKey key hkey
    have hcount : key.count Byte.semicolon = 0 := count_semicolon_of_isWord hname
    have hcomma : [Byte.comma].count Byte.semicolon = 0 := rfl
    have hopen : ∀ separator, readRange? separator (spelled [key ++ [Byte.comma]]) = none := by
      intro separator
      have hread : Statement.readWord? (key ++ [Byte.comma]) = some (key, [Byte.comma]) :=
        Statement.readWord?_append hname (by rintro b ⟨⟩; rfl)
      rw [readRange?, dropFor?_spelled (WrittenNames.isToken_comma hname), List.flatMap_nil,
        List.append_nil, Option.bind_eq_bind, Option.bind_some, readNames?, hread]
      rfl
    rw [WrittenNames.tokens, hkey] at hsource ⊢
    refine ⟨fun hword => ?_, fun _ => hnone _ ?_ hopen, fun hword => absurd hword (by decide),
      fun hword => absurd hword (by decide), fun _ => hnone _ ?_ hsource, trivial⟩
    · rw [isClauseWord_append rfl rfl] at hword
      cases hword
    · rw [List.nil_append, List.flatten_singleton, List.count_append, hcount, hcomma]
    · simp only [List.flatten_append, List.flatten_cons, List.flatten_nil, List.count_append,
        List.count_nil, hcount, hcomma, hvalue, hmarks]

/-- A loop over elements is read as it is written. -/
theorem parse_tokens (separator : Option WrittenSeparator) :
    LoopHead.parse (spelled written.tokens ++ WrittenSeparator.clause separator) =
      .ok (.range (written.head (WrittenSeparator.separator separator))) := by
  refine parse_spelled (fun separator => .range (written.head separator))
    written.isToken_tokens written.unmistaken_tokens (fun separator => ?_) separator
  rw [ofReading?, written.readRange?_tokens]

end WrittenRange

/-! ## Steps of counting loops -/

/-- A step with digits to its end has its direction by its first byte. -/
theorem LoopHead.readStep?_sized {s digits : Bytes}
    (hread : Numeral.readDigits? s.skipBlanks = some (digits, [])) :
    readStep? (Byte.plus :: Byte.equals :: s) = some (.increment, some s.strip) ∧
      readStep? (Byte.minus :: Byte.equals :: s) = some (.decrement, some s.strip) := by
  constructor
  · unfold readStep?
    split
    case h_3 hpattern =>
      cases hpattern
      simp only [hread]
    case h_5 hnot _ => exact absurd rfl (hnot s)
    all_goals
      rename_i hpattern
      cases hpattern
  · unfold readStep?
    split
    case h_4 hpattern =>
      cases hpattern
      simp only [hread]
    case h_5 hnot => exact absurd rfl (hnot s)
    all_goals
      rename_i hpattern
      cases hpattern

/-! ## Bounds of counting loops -/

/-- A written integer is a token. -/
theorem WrittenInteger.isToken_text (written : WrittenInteger) : written.text.IsToken := by
  have hdigits : written.digits.IsToken :=
    { nonempty := written.nonempty
      blank := fun b hb => Byte.forall_of_isDigit (fun b => Byte.isBlank b = false) (by decide)
        (written.decimal b hb)
      gap := fun b hb => Byte.forall_of_isDigit (fun b => Bytes.isGap b = false) (by decide)
        (written.decimal b hb)
      bracket := fun b hb => Byte.forall_of_isDigit (fun b => Scan.isBracket b = false) (by decide)
        (written.decimal b hb)
      mark := fun b hb => Byte.forall_of_isDigit (fun b => b ∉ [0x23, Byte.closeBrace]) (by decide)
        (written.decimal b hb) }
  have hminus : Bytes.IsToken [Byte.minus] := .of_all (List.cons_ne_nil _ _) rfl
  rw [text]
  split
  · exact hminus.append hdigits
  · exact hdigits

/-- A written integer holds its digits and a minus sign only. -/
theorem WrittenInteger.notMem_text (written : WrittenInteger) {b : UInt8} (hminus : b ≠ Byte.minus)
    (hdigit : Byte.isDigit b = false) : b ∉ written.text := by
  have hdigits : b ∉ written.digits := fun hmem => by
    rw [written.decimal b hmem] at hdigit
    cases hdigit
  rw [text]
  split
  · simp [hminus, hdigits]
  · exact hdigits

/-- The first value or the limit of a counting loop as it is written: the path of a variable, or an
integer. -/
inductive WrittenBound where
  | dotted (path : DottedPath)
  | integer (written : WrittenInteger)

namespace WrittenBound

/-- A bound as it is written. -/
def text : WrittenBound → Bytes
  | dotted path => path.text
  | integer written => written.text

variable (written : WrittenBound)

/-- The operand that is written. A path is static when it reads as a number or a word for a value,
such as `1.5`. -/
def operand : Operand where
  text := written.text
  isStatic := Numeral.isPlain written.text || Operand.isConstantWord written.text

/-- A bound is a token. -/
theorem isToken_text : written.text.IsToken := by
  cases written with
  | dotted path => exact path.isOfPath_text.isToken
  | integer written => exact written.isToken_text

/-- A bound is no quoted literal. -/
theorem decode?_text : Quoted.decode? written.text = none := by
  cases written with
  | dotted path => exact path.isOfPath_text.decode?_eq_none
  | integer written => exact Numeral.decode?_signed written.exists_digits_eq_cons written.negative

/-- A bound is read as the operand that is written. -/
theorem parse_text : Operand.parse written.text = written.operand := by
  have hstrip := written.isToken_text.isTrimmed.strip_eq
  have hdecode : Quoted.decode? (Bytes.strip written.text) = none := by
    rw [hstrip]
    exact written.decode?_text
  rw [Operand.parse_of_decode?_eq_none hdecode, hstrip]
  rfl

/-- A bound holds the bytes of paths and a minus sign only. -/
theorem notMem_text {b : UInt8} (hpath : Byte.isOfPath b = false) (hminus : b ≠ Byte.minus) :
    b ∉ written.text := by
  cases written with
  | dotted path =>
    intro hmem
    rw [path.isOfPath_text.bytes b hmem] at hpath
    cases hpath
  | integer written =>
    refine written.notMem_text hminus ?_
    simp only [Byte.isOfPath, Byte.isWord, Byte.isAlphanumeric, Bool.or_eq_false_iff] at hpath
    exact hpath.1.1.2

/-- A bound with a space before it is what is left of it without blanks. -/
theorem trimKeepingOne?_text :
    LoopHead.trimKeepingOne? (Byte.space :: written.text) = some written.text := by
  have htoken := written.isToken_text
  have htrimmed : Bytes.stripWhile Byte.isBlank (Byte.space :: written.text) = written.text := by
    obtain ⟨first, rest, htext⟩ := List.exists_cons_of_ne_nil htoken.nonempty
    have hstrip := Bytes.stripWhile_append [Byte.space] written.text [] rfl rfl
      (by rw [htext]; exact congrArg some (htoken.blank first (htext ▸ .head _)))
      (by rw [List.getLast?_eq_some_getLast htoken.nonempty]
          exact congrArg some (htoken.blank _ (List.getLast_mem htoken.nonempty)))
    rwa [List.append_nil] at hstrip
  have hne : written.text.isEmpty = false := by simpa using htoken.nonempty
  rw [LoopHead.trimKeepingOne?]
  simp only [htrimmed, hne, Bool.false_eq_true, if_false]

end WrittenBound

/-! ## Steps of counting loops -/

/-- Pieces of a text, each with a space before it or without, and what comes before them. -/
def Bytes.pieced (first : Bytes) (pieces : List (Bool × Bytes)) : Bytes :=
  first ++ pieces.flatMap fun (apart, piece) => (if apart then [Byte.space] else []) ++ piece

namespace LoopHead

/-- The tokens of a text in pieces. -/
def tokensOf (first : Bytes) : List (Bool × Bytes) → List Bytes
  | [] => [first]
  | (true, piece) :: more => first :: tokensOf piece more
  | (false, piece) :: more => tokensOf (first ++ piece) more

/-- Tokens with a space before each of them are the text in pieces. -/
theorem flatMap_tokensOf (first : Bytes) (pieces : List (Bool × Bytes)) :
    (tokensOf first pieces).flatMap (Byte.space :: ·) =
      Byte.space :: Bytes.pieced first pieces := by
  induction pieces generalizing first with
  | nil => simp [tokensOf, Bytes.pieced]
  | cons piece more ih =>
    obtain ⟨apart, piece⟩ := piece
    cases apart <;> simp [tokensOf, Bytes.pieced, ih]

/-- Pieces that are tokens make tokens, however they are put together. -/
theorem isToken_tokensOf {first : Bytes} {pieces : List (Bool × Bytes)} (hfirst : first.IsToken)
    (hpieces : ∀ piece ∈ pieces, piece.2.IsToken) :
    ∀ token ∈ tokensOf first pieces, token.IsToken := by
  induction pieces generalizing first with
  | nil => simpa [tokensOf] using hfirst
  | cons piece more ih =>
    obtain ⟨apart, piece⟩ := piece
    rw [List.forall_mem_cons] at hpieces
    cases apart with
    | false => exact ih (hfirst.append hpieces.1) hpieces.2
    | true => exact List.forall_mem_cons.mpr ⟨hfirst, ih hpieces.1 hpieces.2⟩

/-- Pieces that end in no letter are mistaken for no word. -/
theorem unmistaken_tokensOf {before : List Bytes} {first : Bytes} {pieces : List (Bool × Bytes)}
    (hfirst : isClauseWord first = true →
      ∀ separator, ofReading? (spelled before) separator = none)
    (hpieces : ∀ piece ∈ pieces, ∃ b, piece.2.getLast? = some b ∧ Byte.isLetter b = false) :
    Unmistaken before (tokensOf first pieces) := by
  induction pieces generalizing before first with
  | nil => exact ⟨hfirst, trivial⟩
  | cons piece more ih =>
    obtain ⟨apart, piece⟩ := piece
    obtain ⟨⟨b, hlast, hb⟩, hmore⟩ := List.forall_mem_cons.mp hpieces
    have hnot : ∀ s, isClauseWord (s ++ piece) ≠ true := fun s => by
      rw [isClauseWord_append hlast hb]
      exact Bool.false_ne_true
    cases apart with
    | false => exact ih (fun hword => absurd hword (hnot first)) hmore
    | true => exact ⟨hfirst, ih (fun hword => absurd hword (hnot [])) hmore⟩

end LoopHead

/-- The size of a step as it is written: digits that denote a word, with a space before them or
without. -/
structure WrittenSize where
  digits : Bytes
  nonempty : digits ≠ []
  decimal : ∀ b ∈ digits, Byte.isDigit b = true
  small : Decimal.toNat digits < 2 ^ 63
  apart : Bool

namespace WrittenSize

variable (written : WrittenSize)

/-- The size as a written integer. -/
def integer : WrittenInteger := ⟨false, written.digits, written.nonempty, written.decimal⟩

/-- The digits of a size denote an integer. -/
theorem integer?_digits :
    Numeral.integer? written.digits = some (Decimal.toNat written.digits : Int) := by
  have hsign := written.integer.readSign_text
  rw [show written.integer.text = written.digits from rfl] at hsign
  rw [Numeral.integer?, hsign]
  simp only [integer, Numeral.readDigits?_of_decimal written.nonempty written.decimal]
  rfl

/-- The size is a word. -/
theorem fits_toNat : Word.fits (Decimal.toNat written.digits : Int) = true := by
  have hsmall := written.small
  simp only [Word.fits, Bool.and_eq_true, decide_eq_true_eq]
  omega

end WrittenSize

/-- The step of a counting loop as it is written: by one or by a size, up or down, with a space
behind the counter or without. -/
structure WrittenStep where
  up : Bool
  apart : Bool
  size : Option WrittenSize

namespace WrittenStep

variable (written : WrittenStep)

/-- Whether the counter goes up or down, as an operator. -/
def direction : Operator := if written.up then .increment else .decrement

/-- The size of a step, which is one unless it is written. -/
def amount : Int64 :=
  match written.size with
  | none => 1
  | some size => Int64.ofInt (Decimal.toNat size.digits)

/-- The mark of a step. -/
def mark : Bytes :=
  match written.up, written.size with
  | true, none => ascii "++"
  | false, none => ascii "--"
  | true, some _ => ascii "+="
  | false, some _ => ascii "-="

/-- The size behind the mark. -/
def sizePieces : List (Bool × Bytes) :=
  match written.size with
  | none => []
  | some size => [(size.apart, size.digits)]

/-- What stands behind the counter. -/
def pieces : List (Bool × Bytes) := (written.apart, written.mark) :: written.sizePieces

/-- No piece of a step ends in a letter. -/
theorem exists_last_of_mem_pieces : ∀ piece ∈ written.pieces,
    ∃ b, piece.2.getLast? = some b ∧ Byte.isLetter b = false := by
  have hmark : ∃ b, written.mark.getLast? = some b ∧ Byte.isLetter b = false := by
    rw [mark]
    split <;> exact ⟨_, rfl, rfl⟩
  refine List.forall_mem_cons.mpr ⟨hmark, fun piece hpiece => ?_⟩
  rw [sizePieces] at hpiece
  cases hsize : written.size with
  | none => simp [hsize] at hpiece
  | some size =>
    obtain rfl : piece = (size.apart, size.digits) := by simpa [hsize] using hpiece
    refine ⟨_, List.getLast?_eq_some_getLast size.nonempty, ?_⟩
    exact Byte.forall_of_isDigit (fun b => Byte.isLetter b = false) (by decide)
      (size.decimal _ (List.getLast_mem size.nonempty))

/-- The mark of a step is a token. -/
theorem isToken_mark : written.mark.IsToken := by
  rw [mark]
  split <;> exact .of_all (List.cons_ne_nil _ _) rfl

/-- The pieces of a step are tokens. -/
theorem isToken_of_mem_pieces : ∀ piece ∈ written.pieces, piece.2.IsToken := by
  refine List.forall_mem_cons.mpr ⟨written.isToken_mark, fun piece hpiece => ?_⟩
  rw [sizePieces] at hpiece
  cases hsize : written.size with
  | none => simp [hsize] at hpiece
  | some size =>
    obtain rfl : piece = (size.apart, size.digits) := by simpa [hsize] using hpiece
    exact size.integer.isToken_text

/-- The name of the counter ends where the step begins. -/
theorem isWord_of_head? (b : UInt8)
    (h : ((if written.apart then [Byte.space] else []) ++
      Bytes.pieced written.mark written.sizePieces).head? = some b) : Byte.isWord b = false := by
  obtain ⟨up, apart, size⟩ := written
  cases apart <;> cases up <;> cases size <;>
  · cases h
    rfl

/-- A size with a space before it or without is read to the end. -/
theorem readDigits?_gap (size : WrittenSize) :
    let s : Bytes := (if size.apart then [Byte.space] else []) ++ size.digits
    Numeral.readDigits? (Bytes.skipBlanks s) = some (size.digits, []) ∧
      Bytes.strip s = size.digits := by
  have htoken : Bytes.IsToken size.digits := size.integer.isToken_text
  have hskip := htoken.skipBlanks_append []
  rw [List.append_nil] at hskip
  have hread := Numeral.readDigits?_of_decimal size.nonempty size.decimal
  cases size.apart with
  | false =>
    simp only [Bool.false_eq_true, if_false, List.nil_append, hskip]
    exact ⟨hread, htoken.isTrimmed.strip_eq⟩
  | true =>
    have hspace : Bytes.skipBlanks (Byte.space :: size.digits) = size.digits := hskip
    simp only [if_true, List.singleton_append, hspace]
    exact ⟨hread, htoken.isTrimmed.strip_append [Byte.space] rfl⟩

/-- A step is read in its direction and with its digits. -/
theorem readStep?_pieced :
    LoopHead.readStep? (Bytes.pieced written.mark written.sizePieces) =
      some (written.direction, written.size.map WrittenSize.digits) := by
  obtain ⟨up, apart, size⟩ := written
  cases size with
  | none => cases up <;> rfl
  | some size =>
    obtain ⟨hread, hstrip⟩ := readDigits?_gap size
    have hpieces : ∀ first, Bytes.pieced first [(size.apart, size.digits)] =
        first ++ ((if size.apart then [Byte.space] else []) ++ size.digits) := by
      simp [Bytes.pieced]
    have hsized : LoopHead.readStep? (Bytes.pieced
        (mark { up, apart, size := some size }) [(size.apart, size.digits)]) =
          some (direction { up, apart, size := some size }, some size.digits) := by
      rw [hpieces]
      generalize (if size.apart then [Byte.space] else []) ++ size.digits = s at hread hstrip ⊢
      rw [← hstrip]
      obtain ⟨hincrement, hdecrement⟩ := LoopHead.readStep?_sized hread
      cases up
      · exact hdecrement
      · exact hincrement
    exact hsized

end WrittenStep

/-! ## Counting loops -/

/-- A counting loop as it is written. -/
structure WrittenCount where
  counter : Bytes
  isCounter : counter.isWord = true
  init : WrittenBound
  test : Operator
  isTest : test ∈ Operator.comparisons
  limit : WrittenBound
  step : WrittenStep

namespace WrittenCount

open LoopHead

variable (written : WrittenCount)

/-- The tokens before the step. -/
def lead : List Bytes :=
  [written.counter, ascii ":=", written.init.text ++ [Byte.semicolon], written.counter,
    written.test.text, written.limit.text ++ [Byte.semicolon]]

/-- The tokens behind the keyword. -/
def tokens : List Bytes := written.lead ++ tokensOf written.counter written.step.pieces

/-- The loop that is written. -/
def head (separator : Bytes) : CountHead where
  counter := written.counter
  init := written.init.operand
  test := written.test
  limit := written.limit.operand
  direction := written.step.direction
  step := written.step.amount
  separator

/-! ### Reading -/

/-- A bound with a semicolon behind it is a token. -/
theorem isToken_semicolon (bound : WrittenBound) :
    Bytes.IsToken (bound.text ++ [Byte.semicolon]) :=
  bound.isToken_text.append (.of_all (List.cons_ne_nil _ _) rfl)

/-- A comparison is a token. -/
theorem isToken_test : Bytes.IsToken written.test.text := by
  have hall : ∀ op ∈ Operator.comparisons, Bytes.IsToken op.text := by
    intro op hop
    simp only [Operator.comparisons, List.mem_cons, List.not_mem_nil, or_false] at hop
    obtain rfl | rfl | rfl | rfl | rfl | rfl := hop <;>
    exact .of_all (List.cons_ne_nil _ _) rfl
  exact hall written.test written.isTest

/-- The parts before the step are tokens. -/
theorem isToken_lead : ∀ token ∈ written.lead, token.IsToken := by
  have hcounter := Bytes.isToken_of_isWord written.isCounter
  simp only [lead, List.forall_mem_cons, List.not_mem_nil, IsEmpty.forall_iff, implies_true,
    and_true]
  exact ⟨hcounter, .of_all (List.cons_ne_nil _ _) rfl, isToken_semicolon _, hcounter,
    written.isToken_test, isToken_semicolon _⟩

/-- The parts of a counting loop are tokens. -/
theorem isToken_tokens : ∀ token ∈ written.tokens, token.IsToken := by
  intro token htoken
  obtain hlead | hstep := List.mem_append.mp htoken
  · exact written.isToken_lead token hlead
  · exact isToken_tokensOf (Bytes.isToken_of_isWord written.isCounter)
      written.step.isToken_of_mem_pieces token hstep

/-- The test of a counting loop is read in its three parts. -/
theorem readTest?_test :
    readTest? (Byte.space :: (written.counter ++ Byte.space :: (written.test.text ++
      Byte.space :: written.limit.text))) =
      some (written.counter, written.test, written.limit.text) := by
  have hcounter := Bytes.isToken_of_isWord written.isCounter
  have hspace : (Byte.space :: written.limit.text).head? ≠ some Byte.equals := by
    simp [Byte.space, Byte.equals]
  obtain ⟨before, after, hcomparisons, hbefore⟩ :=
    Operator.exists_comparisons_eq_append written.isTest hspace
  rw [readTest?, hcounter.skipBlanks_space,
    Statement.readWord?_append written.isCounter (by rintro b ⟨⟩; rfl), Option.bind_eq_bind,
    Option.bind_some]
  simp only [written.isToken_test.skipBlanks_space]
  refine List.findSome?_eq_some_iff.mpr ⟨before, _, after, hcomparisons, ?_, fun op hop => ?_⟩
  · rw [if_pos (by simp), List.drop_left, written.limit.trimKeepingOne?_text]
    rfl
  · rw [if_neg (by simp [hbefore op hop])]

/-- No semicolon stands in the parts that semicolons divide. -/
theorem semicolon_notMem : Byte.semicolon ∉ written.init.text ∧
    Byte.semicolon ∉ written.counter ∧ Byte.semicolon ∉ written.test.text ∧
      Byte.semicolon ∉ written.limit.text := by
  have hall : ∀ op ∈ Operator.comparisons, Byte.semicolon ∉ op.text := by decide
  exact ⟨written.init.notMem_text (by decide) (by decide),
    List.count_eq_zero.mp (count_semicolon_of_isWord written.isCounter),
    hall written.test written.isTest, written.limit.notMem_text (by decide) (by decide)⟩

/-- What a counting loop is read as, by what stands behind its test. -/
theorem readCount?_lead (more : List Bytes) :
    readCount? (spelled (written.lead ++ more)) =
      (Statement.readWord? (Bytes.skipBlanks (more.flatMap (Byte.space :: ·)))).bind
        fun (stepCounter, rest) => (readStep? (Bytes.skipBlanks rest)).map
          fun (direction, step) =>
            { counter := written.counter, init := written.init.text,
              testCounter := written.counter, test := written.test, limit := written.limit.text,
              stepCounter, direction, step } := by
  generalize hstepped : more.flatMap (Byte.space :: ·) = stepped
  have hnotMem := written.semicolon_notMem
  let tested : Bytes := Byte.space :: (written.counter ++ Byte.space :: (written.test.text ++
    Byte.space :: written.limit.text))
  let assigned : Bytes := Byte.space :: written.init.text ++ Byte.semicolon ::
    (tested ++ Byte.semicolon :: stepped)
  have hcounter := Bytes.isToken_of_isWord written.isCounter
  have hopened : dropFor? (spelled (written.lead ++ more)) =
      some (written.counter ++ (ascii " :=" ++ assigned)) := by
    rw [lead, List.cons_append, dropFor?_spelled hcounter]
    have hassign : ascii " :=" = Byte.space :: ascii ":=" := rfl
    simp [hstepped, assigned, tested, hassign]
  have hassigned : dropAssign? (ascii " :=" ++ assigned) = some assigned := rfl
  have hinit : splitSemicolon? assigned =
      some (Byte.space :: written.init.text, tested ++ Byte.semicolon :: stepped) :=
    Bytes.breakOn_byte (List.not_mem_cons_of_ne_of_not_mem (by decide) hnotMem.1) _
  have htest : splitSemicolon? (tested ++ Byte.semicolon :: stepped) = some (tested, stepped) := by
    refine Bytes.breakOn_byte ?_ _
    simp only [tested, List.mem_cons, List.mem_append, not_or]
    exact ⟨by decide, hnotMem.2.1, by decide, hnotMem.2.2.1, by decide, hnotMem.2.2.2⟩
  rw [readCount?, hopened]
  simp only [Option.bind_eq_bind, Option.bind_some]
  rw [Statement.readWord?_append written.isCounter (by rintro b ⟨⟩; rfl)]
  simp only [Option.bind_some, hassigned, hinit, htest, written.init.trimKeepingOne?_text,
    tested, written.readTest?_test]
  cases Statement.readWord? (Bytes.skipBlanks stepped) with
  | none => rfl
  | some read =>
    obtain ⟨stepCounter, rest⟩ := read
    simp only [Option.bind_some]
    cases readStep? (Bytes.skipBlanks rest) <;> rfl

/-- The tokens of a counting loop are read in the parts that are written. -/
theorem readCount?_tokens :
    readCount? (spelled written.tokens) =
      some { counter := written.counter, init := written.init.text,
             testCounter := written.counter, test := written.test, limit := written.limit.text,
             stepCounter := written.counter, direction := written.step.direction,
             step := written.step.size.map WrittenSize.digits } := by
  have hcounter := Bytes.isToken_of_isWord written.isCounter
  let marked := Bytes.pieced written.step.mark written.step.sizePieces
  have hpieced : Bytes.pieced written.counter written.step.pieces = written.counter ++
      ((if written.step.apart then [Byte.space] else []) ++ marked) := by
    simp [Bytes.pieced, WrittenStep.pieces, marked]
  have hskip : Bytes.skipBlanks ((if written.step.apart then [Byte.space] else []) ++ marked) =
      marked := by
    have hmark := written.step.isToken_mark.skipBlanks_append
    cases written.step.apart with
    | false => exact hmark _
    | true => exact hmark _
  have hword : Statement.readWord? (written.counter ++
      ((if written.step.apart then [Byte.space] else []) ++ marked)) =
        some (written.counter, (if written.step.apart then [Byte.space] else []) ++ marked) :=
    Statement.readWord?_append written.isCounter written.step.isWord_of_head?
  rw [tokens, readCount?_lead, flatMap_tokensOf, hpieced, hcounter.skipBlanks_space, hword,
    Option.bind_some]
  simp only [hskip, marked, written.step.readStep?_pieced, Option.map_some]

/-- The parts of a counting loop are that loop: the three counters are one, and the step is a
word. -/
theorem ofParts_tokens (separator : Bytes) :
    ofParts separator
      { counter := written.counter, init := written.init.text,
        testCounter := written.counter, test := written.test, limit := written.limit.text,
        stepCounter := written.counter, direction := written.step.direction,
        step := written.step.size.map WrittenSize.digits } = .ok (written.head separator) := by
  have hsize : ∀ size : WrittenSize, Numeral.integer? size.digits >>= Word.ofInt? =
      some (Int64.ofInt (Decimal.toNat size.digits)) := by
    intro size
    rw [size.integer?_digits, Option.bind_eq_bind, Option.bind_some, Word.ofInt?,
      if_pos size.fits_toNat]
  rw [ofParts, if_neg (by simp), head, WrittenStep.amount]
  cases written.step.size with
  | none => simp only [Option.map_none, WrittenBound.parse_text]
  | some size => simp only [Option.map_some, hsize, WrittenBound.parse_text]

/-- What stands behind the assignment of a counting loop is no source: it begins with a token that
ends in a semicolon. -/
theorem readRange?_init (separator : Bytes) (more : List Bytes) :
    readRange? separator (spelled (written.counter :: ascii ":=" ::
      (written.init.text ++ [Byte.semicolon]) :: more)) = none := by
  let names : WrittenNames :=
    { key := none, isKey := by simp, value := written.counter, isValue := written.isCounter }
  let rest : Bytes := more.flatMap (Byte.space :: ·)
  let assigned : Bytes := Byte.space :: (written.init.text ++ [Byte.semicolon] ++ rest)
  have hrest : rest.StopsToken := by
    cases more with
    | nil => exact Bytes.stopsToken_nil
    | cons token more => exact Bytes.stopsToken_space _
  have hnot : written.init.text ++ [Byte.semicolon] ≠ ascii "range" := fun h => by
    have hlast := congrArg List.getLast? h
    simp at hlast
    revert hlast
    decide
  have hsource := readSource?_eq_none (isToken_semicolon written.init) hnot hrest
  have hmore : (ascii ":=" :: (written.init.text ++ [Byte.semicolon]) :: more).flatMap
      (Byte.space :: ·) = ascii " :=" ++ assigned := by
    have hassign : ascii " :=" = Byte.space :: ascii ":=" := rfl
    simp [assigned, rest, hassign]
  have hread := names.readRange?_tokens (by rintro b ⟨⟩; rfl) rfl hmore separator
  have hassign : dropAssign? (ascii " :=" ++ assigned) = some assigned := rfl
  rw [hassign, Option.bind_some, hsource] at hread
  exact hread

/-- No name is mistaken for the word of a clause: before the test there is one semicolon, and behind
the second one there is no step yet. -/
theorem unmistaken_tokens : Unmistaken [] written.tokens := by
  have hopen : ∀ separator, ofReading? (spelled []) separator = none := fun _ => rfl
  have htested : ∀ separator, ofReading? (spelled [written.counter, ascii ":=",
      written.init.text ++ [Byte.semicolon]]) separator = none := by
    intro separator
    refine ofReading?_eq_none (written.readRange?_init separator []) ?_
    have hinit := List.count_eq_zero.mpr written.semicolon_notMem.1
    have hcounter := List.count_eq_zero.mpr written.semicolon_notMem.2.1
    have hassign : (ascii ":=").count Byte.semicolon = 0 := by decide
    rw [count_spelled]
    simp [hinit, hcounter, hassign]
  have hstepped : ∀ separator, ofReading? (spelled written.lead) separator = none := by
    intro separator
    have hcount := written.readCount?_lead []
    rw [List.append_nil] at hcount
    rw [ofReading?, lead, written.readRange?_init separator, ← lead, hcount]
    rfl
  have htest : isClauseWord written.test.text = false := by
    have hall : ∀ op ∈ Operator.comparisons, isClauseWord op.text = false := by decide
    exact hall written.test written.isTest
  have hnot : ∀ (bound : WrittenBound),
      isClauseWord (bound.text ++ [Byte.semicolon]) ≠ true := fun bound => by
    rw [isClauseWord_append rfl rfl]
    exact Bool.false_ne_true
  exact ⟨fun _ => hopen, fun hword => absurd hword (by decide),
    fun hword => absurd hword (hnot written.init), fun _ => htested,
    fun hword => absurd hword (by simp [htest]), fun hword => absurd hword (hnot written.limit),
    unmistaken_tokensOf (fun _ => hstepped) written.step.exists_last_of_mem_pieces⟩

/-- A counting loop is read as it is written. -/
theorem parse_tokens (separator : Option WrittenSeparator) :
    LoopHead.parse (spelled written.tokens ++ WrittenSeparator.clause separator) =
      .ok (.count (written.head (WrittenSeparator.separator separator))) := by
  refine parse_spelled (fun separator => .count (written.head separator))
    written.isToken_tokens written.unmistaken_tokens (fun separator => ?_) separator
  have hrange := written.readRange?_init separator ([written.counter, written.test.text,
    written.limit.text ++ [Byte.semicolon]] ++ tokensOf written.counter written.step.pieces)
  rw [ofReading?, show readRange? separator (spelled written.tokens) = none from hrange,
    written.readCount?_tokens]
  simp only [Option.map_some, written.ofParts_tokens]
  rfl

end WrittenCount

/-! ## Loops as regions -/

/-- A loop as it is written: over elements or counting, with a separator clause or without. -/
structure WrittenLoop where
  form : WrittenRange ⊕ WrittenCount
  separator : Option LoopHead.WrittenSeparator

namespace WrittenLoop

open LoopHead

variable (written : WrittenLoop)

/-- The tokens behind the keyword. -/
def tokens : List Bytes := written.form.elim WrittenRange.tokens WrittenCount.tokens

/-- The content of the region. -/
def content : Bytes :=
  LoopHead.spelled written.tokens ++ WrittenSeparator.clause written.separator

/-- The loop that is written. -/
def head : LoopHead :=
  let separator := WrittenSeparator.separator written.separator
  written.form.elim (fun range => .range (range.head separator))
    fun count => .count (count.head separator)

/-- The loop as a node without a body. -/
def node : Node :=
  let separator := WrittenSeparator.separator written.separator
  written.form.elim (fun range => .forRange (range.head separator) [])
    fun count => .forCount (count.head separator) []

/-- The parts of a loop are tokens. -/
theorem isToken_tokens : ∀ token ∈ written.tokens, token.IsToken := by
  obtain ⟨form, separator⟩ := written
  cases form with
  | inl range => exact range.isToken_tokens
  | inr count => exact count.isToken_tokens

/-- A loop has a token. -/
theorem tokens_ne_nil : written.tokens ≠ [] := by
  obtain ⟨form, separator⟩ := written
  cases form <;> simp [tokens, WrittenRange.tokens, WrittenCount.tokens, WrittenCount.lead]

/-- No blank stands at an end of a loop. -/
theorem isTrimmed_content : Bytes.IsTrimmed written.content := by
  have htokens := isTrimmed_spelled written.isToken_tokens
  rw [content]
  cases written.separator with
  | none =>
    rw [WrittenSeparator.clause, List.append_nil]
    exact htokens
  | some separator =>
    have hencode : Bytes.IsTrimmed (Quoted.encode separator.text) :=
      (WrittenOperand.literal separator.text).isTrimmed_text
    have haround := htokens.around hencode (Byte.space :: (separator.word ++ [Byte.space]))
    simpa [WrittenSeparator.clause] using haround

/-- The content may stand inside a region. -/
theorem isPlain_content : Source.IsPlain written.content := by
  have hspace : Source.IsPlain [Byte.space] := .of_notMem (by decide)
  have htokens : Source.IsPlain (written.tokens.flatMap (Byte.space :: ·)) := by
    have htoken := written.isToken_tokens
    generalize written.tokens = tokens at htoken
    induction tokens with
    | nil => exact .of_notMem (by decide)
    | cons token more ih =>
      rw [List.forall_mem_cons] at htoken
      exact (hspace.append htoken.1.isPlain).append (ih htoken.2)
  have hclause : Source.IsPlain (WrittenSeparator.clause written.separator) := by
    cases written.separator with
    | none => exact .of_notMem (by decide)
    | some separator =>
      exact (hspace.append (isToken_of_isClauseWord separator.opens).isPlain).append
        (hspace.append (.encode separator.text))
  exact .append (.append (.of_notMem (by decide)) htokens) hclause

/-- The content of a loop's region is read as the loop. -/
theorem parse_content : LoopHead.parse written.content = .ok written.head := by
  obtain ⟨form, separator⟩ := written
  cases form with
  | inl range => exact range.parse_tokens separator
  | inr count => exact count.parse_tokens separator

/-- The content is a loop statement. -/
theorem parse_statement : Statement.parse written.content = .ok (.forOpen written.head) := by
  have hkeyword : ∃ more, written.content = ascii "for " ++ more := by
    obtain ⟨token, tokens, htokens⟩ := List.exists_cons_of_ne_nil written.tokens_ne_nil
    exact ⟨_, by rw [content, htokens, spelled, List.flatMap_cons, List.append_assoc]; rfl⟩
  obtain ⟨more, hmore⟩ := hkeyword
  have hfor : Statement.parse (ascii "for " ++ more) =
      (LoopHead.parse (ascii "for " ++ more)).map Statement.forOpen := rfl
  rw [hmore, hfor, ← hmore, written.parse_content]
  rfl

end WrittenLoop

/-- A loop is read as it is written, whatever its names are, and so is a template of one loop
without a body. -/
theorem Tree.parse_writtenLoop (written : WrittenLoop) (keepFormatting : Bool) :
    Statement.parse written.content = .ok (.forOpen written.head) ∧
      parse keepFormatting (Source.markup (Byte.space :: written.content ++ [Byte.space]) ++
        Source.markup (ascii " endfor ")) = .ok ⟨[written.node]⟩ := by
  have hplainEnd : Source.IsPlain (ascii " endfor ") := .of_notMem (by decide)
  have hspace : Source.IsPlain [Byte.space] := .of_notMem (by decide)
  have hplain : Source.IsPlain (Byte.space :: written.content ++ [Byte.space]) :=
    (hspace.append written.isPlain_content).append hspace
  have hstrip : Bytes.strip (Byte.space :: written.content ++ [Byte.space]) = written.content :=
    Bytes.strip_append [Byte.space] written.content [Byte.space] rfl rfl
      written.isTrimmed_content.first written.isTrimmed_content.last
  have hnode : (Construct.loop written.head).node? [] = some written.node := by
    obtain ⟨form, separator⟩ := written
    cases form <;> rfl
  refine ⟨written.parse_statement, ?_⟩
  exact parse_construct (.loop written.head) hplain (.markup hplainEnd)
    (by rw [hstrip]; exact written.parse_statement)
    (.ends (.markup rfl (List.append_nil _).symm hplainEnd) rfl rfl) rfl hnode keepFormatting

/-- A loop whose names are words of its grammar. -/
example :
    let names : WrittenNames :=
      { key := some (ascii "sep"), isKey := by simp; rfl, value := ascii "for", isValue := rfl }
    let source : DottedPath := ⟨[ascii "separator", ascii "range"], by simp, by decide⟩
    let separator : LoopHead.WrittenSeparator := ⟨ascii "sep", rfl, ascii ", "⟩
    let written : WrittenLoop := ⟨.inl { names with source }, some separator⟩
    written.content = ascii "for sep, for := range separator.range sep \", \"" ∧
      written.head = .range ⟨ascii "sep", ascii "for", ascii "separator.range", ascii ", "⟩ :=
  ⟨rfl, rfl⟩

end Stencil
