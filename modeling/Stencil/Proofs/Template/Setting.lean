import Stencil.Proofs.Template.Loop

/-!
# Counters set in writing

A statement that sets a counter is the keyword, the counter, an equals sign and an integer, with
blanks between them. It is read as what it says when the integer is a signed 64-bit word
(`Tree.parse_setting`), and refused as out of range otherwise (`Tree.parse_setting_error`), however
many zeros lead the integer.
-/

set_option autoImplicit false

namespace Stencil

/-- Blanks on one line. -/
def Bytes.IsMargin (s : Bytes) : Prop := ∀ b ∈ s, Byte.isBlank b = true ∧ b ≠ Byte.newline

namespace Bytes.IsMargin

variable {s t : Bytes}

/-- A margin is made of blanks that are no newlines. -/
theorem of_all (h : s.all (fun b => Byte.isBlank b && b != Byte.newline) = true) : IsMargin s := by
  intro b hb
  simpa using List.all_eq_true.mp h b hb

/-- A margin is skipped up to the token behind it. -/
theorem skipBlanks_append (hs : IsMargin s) (ht : t.IsToken) (rest : Bytes) :
    skipBlanks (s ++ (t ++ rest)) = t ++ rest := by
  rw [skipBlanks, List.dropWhile_append_of_pos fun b hb => (hs b hb).1]
  exact ht.skipBlanks_append rest

/-- A margin is plain. -/
theorem isPlain (h : IsMargin s) : Source.IsPlain s := by
  refine .of_notMem ⟨fun hmem => (h _ hmem).2 rfl, fun hmem => ?_, fun hmem => ?_⟩
  · have hblank := (h _ hmem).1
    cases hblank
  · have hblank := (h _ hmem).1
    cases hblank

end Bytes.IsMargin

/-- The writing of a statement that sets a counter, up to the integer: the name of the counter and
the blanks before it, before the equals sign, and behind it. -/
structure WrittenSetting where
  name : Bytes
  lead : Bytes
  before : Bytes
  after : Bytes
  isWord : name.isWord = true
  isMargin : (lead ++ (before ++ after)).IsMargin

namespace WrittenSetting

variable (setting : WrittenSetting) (amount : WrittenInteger)

/-- What stands behind the name. -/
def tail : Bytes := setting.before ++ ([Byte.equals] ++ (setting.after ++ amount.text))

/-- A statement that sets a counter as it is written. -/
def text : Bytes :=
  Counter.keyword ++ ([Byte.space] ++ (setting.lead ++ (setting.name ++ setting.tail amount)))

/-- The statement as it stands in a region. -/
def inside : Bytes := [Byte.space] ++ setting.text amount ++ [Byte.space]

/-- The three gaps of the statement are margins. -/
theorem isMargin_parts :
    setting.lead.IsMargin ∧ setting.before.IsMargin ∧ setting.after.IsMargin :=
  ⟨fun b hb => setting.isMargin b (List.mem_append_left _ hb),
    fun b hb => setting.isMargin b (List.mem_append_right _ (List.mem_append_left _ hb)),
    fun b hb => setting.isMargin b (List.mem_append_right _ (List.mem_append_right _ hb))⟩

/-- The name of the counter is read up to what is behind it. -/
theorem readWord_tail :
    Statement.readWord (setting.name ++ setting.tail amount) =
      (setting.name, setting.tail amount) := by
  refine Statement.readWord_append setting.isWord fun b hb => ?_
  rw [tail] at hb
  cases hbefore : setting.before with
  | nil =>
    rw [hbefore] at hb
    cases hb
    rfl
  | cons first more =>
    rw [hbefore, List.cons_append, List.head?_cons, Option.some.injEq] at hb
    subst hb
    have hblank := (setting.isMargin_parts.2.1 first (hbefore ▸ .head _)).1
    have hblanks : ∀ b ∈ [Byte.space, Byte.tab, Byte.newline, 0x0b, 0x0c, Byte.carriageReturn],
        Byte.isWord b = false := by decide +kernel
    exact hblanks _ (Byte.mem_of_isBlank hblank)

/-- The digits of the amount are read as a whole. -/
theorem digits?_digits : Counter.digits? amount.digits = some amount.digits := by
  simp only [Counter.digits?, Numeral.readDigits?_of_decimal amount.nonempty amount.decimal]

/-- An equals sign and an integer ask for the counter to be set to it. -/
theorem readChange?_equals {s : Bytes} (h : s.skipBlanks = amount.text) :
    Counter.readChange? (Byte.equals :: s) = some (.set amount.negative amount.digits) := by
  unfold Counter.readChange?
  split
  case h_2 rest hpattern =>
    cases hpattern
    rw [h, WrittenInteger.text]
    cases hnegative : amount.negative with
    | true => exact congrArg (Option.map _) (digits?_digits amount)
    | false =>
      obtain ⟨first, rest, hdigits, hfirst⟩ := amount.exists_digits_eq_cons
      have hminus : first ≠ Byte.minus :=
        Byte.forall_of_isDigit (fun b => b ≠ Byte.minus) (by decide) hfirst
      have hread := digits?_digits amount
      rw [hdigits] at hread
      simp [hdigits, hminus, hread]
  case h_7 hnot _ _ _ _ => exact absurd rfl (hnot s)
  all_goals
    rename_i hpattern
    cases hpattern

/-- The statement sets the counter to the amount, or is refused because that is no word. -/
theorem parse_text :
    Counter.parse (setting.text amount) =
      match Word.ofInt? amount.value with
      | some n => .ok { name := setting.name, action := .init, amount := n }
      | none => .error (.amountOutOfRange amount.text) := by
  obtain ⟨hlead, hbefore, hafter⟩ := setting.isMargin_parts
  have hspace : Bytes.IsMargin ([Byte.space] ++ setting.lead) := by
    intro b hb
    obtain hb | hb := List.mem_append.mp hb
    · rw [List.mem_singleton.mp hb]
      decide
    · exact hlead b hb
  have hname : Bytes.skipBlanks ((setting.text amount).drop Counter.keyword.length) =
      setting.name ++ setting.tail amount := by
    rw [text, List.drop_left, ← List.append_assoc]
    exact hspace.skipBlanks_append (Bytes.isToken_of_isWord setting.isWord) _
  have hequals : (setting.tail amount).skipBlanks = Byte.equals :: (setting.after ++ amount.text) :=
    hbefore.skipBlanks_append (.of_all (List.cons_ne_nil _ _) rfl) _
  have hamount : Bytes.skipBlanks (setting.after ++ amount.text) = amount.text := by
    have hskip := hafter.skipBlanks_append amount.isToken_text []
    rwa [List.append_nil] at hskip
  have hnonempty : setting.name.isEmpty = false := by
    simpa using (Bytes.isToken_of_isWord setting.isWord).nonempty
  rw [Counter.parse, hname, readWord_tail]
  simp only [hequals, readChange?_equals amount hamount, hnonempty, Bool.false_eq_true, if_false,
    Counter.applyChange, WrittenInteger.value]
  cases Word.ofInt? _ <;> rfl

/-- A statement that sets a counter is taken for nothing else. -/
theorem statement_text :
    Statement.parse (setting.text amount) = (Counter.parse (setting.text amount)).map .counter := by
  have hkeyword : (setting.text amount).startsWith (Counter.keyword ++ [Byte.space]) = true := by
    rw [text, ← List.append_assoc, Bytes.startsWith, List.isPrefixOf_iff_prefix]
    exact List.prefix_append _ _
  have hprint : Print.parse? (setting.text amount) = none := rfl
  have hbinding : (setting.text amount).startsWith (Binding.keyword ++ [Byte.space]) = false := rfl
  rw [Statement.parse, hprint]
  simp only [hbinding, hkeyword, Bool.false_eq_true, if_false, if_true]

/-- The spaces around the statement are stripped. -/
theorem strip_inside : (setting.inside amount).strip = setting.text amount := by
  have hkeyword : Bytes.IsTrimmed Counter.keyword := ⟨rfl, rfl⟩
  have hends : Bytes.IsTrimmed (setting.text amount) := by
    have haround := hkeyword.around amount.isToken_text.isTrimmed
      ([Byte.space] ++ (setting.lead ++ (setting.name ++ (setting.before ++
        ([Byte.equals] ++ setting.after)))))
    simpa only [text, tail, List.append_assoc] using haround
  exact Bytes.strip_append _ _ _ rfl rfl hends.first hends.last

/-- The inside of the region is plain. -/
theorem isPlain_inside : Source.IsPlain (setting.inside amount) := by
  obtain ⟨hlead, hbefore, hafter⟩ := setting.isMargin_parts
  have hspace : Source.IsPlain [Byte.space] := .of_notMem (by decide)
  have hkeyword : Source.IsPlain Counter.keyword := .of_notMem (by decide)
  have hequals : Source.IsPlain [Byte.equals] := .of_notMem (by decide)
  have hname := (Bytes.isToken_of_isWord setting.isWord).isPlain
  have htail := hbefore.isPlain.append (hequals.append
    (hafter.isPlain.append amount.isToken_text.isPlain))
  exact (hspace.append (hkeyword.append (hspace.append
    (hlead.isPlain.append (hname.append htail))))).append hspace

end WrittenSetting

/-- A statement that sets a counter to a word is read as it is written. -/
theorem Tree.parse_setting (setting : WrittenSetting) {amount : WrittenInteger} {n : Int64}
    (hn : n.toInt = amount.value) (keepFormatting : Bool) :
    parse keepFormatting (Source.markup (setting.inside amount)) =
      .ok ⟨[.counter { name := setting.name, action := .init, amount := n }]⟩ := by
  have hparse : Statement.parse (setting.inside amount).strip =
      .ok (.counter { name := setting.name, action := .init, amount := n }) := by
    rw [setting.strip_inside, setting.statement_text, setting.parse_text,
      Word.ofInt?_eq_some_iff.mpr hn]
    rfl
  exact parse_markup (setting.isPlain_inside amount) keepFormatting hparse rfl

/-- A statement that sets a counter to an integer out of the range is refused. -/
theorem Tree.parse_setting_error (setting : WrittenSetting) {amount : WrittenInteger}
    (hrange : Word.fits amount.value = false) (keepFormatting : Bool) :
    parse keepFormatting (Source.markup (setting.inside amount)) =
      .error { fault := .amountOutOfRange amount.text
               source := Source.markup (setting.inside amount)
               offset := 0 } := by
  refine parse_markup_error (setting.isPlain_inside amount) keepFormatting ?_
  have hword : Word.ofInt? amount.value = none := by
    rw [Word.ofInt?, hrange]
    rfl
  rw [setting.strip_inside, setting.statement_text, setting.parse_text, hword]
  rfl

end Stencil
