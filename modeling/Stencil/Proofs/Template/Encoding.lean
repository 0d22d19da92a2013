import Stencil.Proofs.Json.Encoded
import Stencil.Proofs.Template.Origin

/-!
# Templates in UTF-8

Preparing a source cuts it at bytes of ASCII only, and so does reading a literal, whose quotes and
backslashes are ASCII. Hence the literals of a template in UTF-8 are UTF-8
(`Operand.encoded_literal`).
-/

set_option autoImplicit false

namespace Stencil

namespace Utf8

/-! ## Dropping bytes of ASCII -/

variable {p : UInt8 → Bool}

/-- Between characters a run of ASCII may be dropped. -/
theorem owedAfter?_dropWhile (hp : ∀ b, p b = true → b < 0x80) (s : Bytes) :
    owedAfter? .nothing (s.dropWhile p) = owedAfter? .nothing s := by
  induction s with
  | nil => rfl
  | cons b rest ih =>
    cases hb : p b with
    | true =>
      rw [List.dropWhile_cons_of_pos hb, ih, owedAfter?, step?_nothing_of_lt (hp b hb)]
      rfl
    | false => rw [List.dropWhile_cons_of_neg (by simp [hb])]

/-- Dropping ASCII at the start keeps a text valid. -/
theorem isValid_dropWhile (hp : ∀ b, p b = true → b < 0x80) {s : Bytes} (h : isValid s = true) :
    isValid (s.dropWhile p) = true := by
  rw [isValid_iff, owedAfter?_dropWhile hp, ← isValid_iff, h]

/-- A text of ASCII may be dropped at the end. -/
theorem isValid_append_of_isAscii (s : Bytes) {t : Bytes} (ht : t.isAscii = true) :
    isValid (s ++ t) = isValid s := by
  cases t with
  | nil => rw [List.append_nil]
  | cons b rest =>
    rw [Bytes.isAscii_cons, Bool.and_eq_true, decide_eq_true_eq] at ht
    rw [isValid_append_cons s rest ht.1, isValid_of_isAscii ht.2, Bool.and_true]

/-- Dropping ASCII at the end keeps a text valid. -/
theorem isValid_dropEndWhile (hp : ∀ b, p b = true → b < 0x80) {s : Bytes}
    (h : isValid s = true) : isValid (Bytes.dropEndWhile p s) = true := by
  have htail : Bytes.isAscii (s.reverse.takeWhile p).reverse = true := by
    refine List.all_eq_true.mpr fun b hb => ?_
    exact decide_eq_true (hp b (List.mem_takeWhile_imp (List.mem_reverse.mp hb)))
  have hparts : Bytes.dropEndWhile p s ++ (s.reverse.takeWhile p).reverse = s := by
    rw [Bytes.dropEndWhile, ← List.reverse_append, List.takeWhile_append_dropWhile,
      List.reverse_reverse]
  rwa [← hparts, isValid_append_of_isAscii _ htail] at h

/-- Stripping ASCII keeps a text valid. -/
theorem isValid_stripOf {s : Bytes} {set : Bytes} (hset : set.isAscii = true)
    (h : isValid s = true) : isValid (s.stripOf set) = true := by
  have hp : ∀ b, (b == 0 || set.untilNul.contains b) = true → b < 0x80 := by
    intro b hb
    rw [Bool.or_eq_true, beq_iff_eq, List.contains_iff_mem] at hb
    obtain rfl | hmem := hb
    · decide
    · exact of_decide_eq_true
        (List.all_eq_true.mp hset b ((List.takeWhile_sublist _).subset hmem))
  exact isValid_dropEndWhile hp (isValid_dropWhile hp h)

/-- The sides of a break at a mark of ASCII are well formed. -/
theorem isValid_of_breakOn {mark s before after : Bytes} (hmark : mark.isAscii = true)
    (hne : mark ≠ []) (hbreak : Bytes.breakOn mark s = some (before, after))
    (h : isValid s = true) : isValid before = true ∧ isValid after = true := by
  cases mark with
  | nil => exact absurd rfl hne
  | cons b rest =>
    rw [Bytes.isAscii_cons, Bool.and_eq_true, decide_eq_true_eq] at hmark
    rw [Bytes.eq_append_of_breakOn hbreak, List.append_assoc, List.cons_append,
      isValid_append_cons _ _ hmark.1, Bool.and_eq_true,
      isValid_append_eq (isValid_of_isAscii hmark.2)] at h
    exact h

end Utf8

/-! ## Preparing a source -/

namespace Source

/-- Cutting comments keeps a text valid. -/
theorem isValid_cutComments {s : Bytes} (h : Utf8.isValid s = true) :
    Utf8.isValid (cutComments s) = true := by
  induction hn : s.length using Nat.strongRecOn generalizing s with
  | ind n ih =>
    cases hopen : Bytes.breakOn commentOpener s with
    | none => rwa [cutComments_of_none hopen]
    | some parts =>
      obtain ⟨before, afterOpener⟩ := parts
      obtain ⟨hbefore, hopened⟩ := Utf8.isValid_of_breakOn rfl (by decide) hopen h
      cases hclose : Bytes.breakOn commentCloser afterOpener with
      | none =>
        rwa [cutComments_of_unclosed hopen hclose]
      | some parts =>
        obtain ⟨inside, after⟩ := parts
        obtain ⟨-, hafter⟩ := Utf8.isValid_of_breakOn rfl (by decide) hclose hopened
        have hdrop := Bytes.length_dropWhile_le (· == Byte.newline) after
        have hopener := Bytes.length_after_lt (by decide) hopen
        have hcloser := Bytes.length_after_lt (by decide) hclose
        rw [cutComments_of_breakOn hopen hclose]
        refine Utf8.isValid_append (Utf8.isValid_dropEndWhile ?_ hbefore)
          (ih _ (by omega) (Utf8.isValid_dropWhile ?_ hafter) rfl)
        · intro b hb
          obtain rfl := eq_of_beq hb
          decide
        · intro b hb
          obtain rfl := eq_of_beq hb
          decide

/-- A newline and the blanks after it stand between characters. -/
theorem owedAfter?_foldLines {owed next : Utf8.Owed} {s : Bytes} (hsound : owed.Sound)
    (h : Utf8.owedAfter? owed s = some next) :
    Utf8.owedAfter? owed (foldLines s) = some next := by
  have hblank : ∀ b, Byte.isBlank b = true → b < 0x80 := by
    refine fun b hb => of_decide_eq_true ?_
    have hall := Byte.forall_of_range (p := fun b => !Byte.isBlank b || decide (b < 0x80))
      (by decide +kernel) b
    simpa [hb] using hall
  induction s using foldLines.induct generalizing owed with
  | case1 => simpa [foldLines] using h
  | case2 b rest hnewline ih =>
    obtain rfl := eq_of_beq hnewline
    rw [foldLines, if_pos hnewline]
    rw [Utf8.owedAfter?] at h
    by_cases hcount : owed.count = 0
    · obtain rfl := hsound.1 hcount
      rw [Utf8.step?_nothing_of_lt (by decide)] at h
      exact ih Utf8.Owed.sound_nothing ((Utf8.owedAfter?_dropWhile hblank rest).trans h)
    · rw [Utf8.step?_of_lt hsound hcount (by decide)] at h
      cases h
  | case3 b rest hnewline ih =>
    rw [foldLines, if_neg hnewline]
    rw [Utf8.owedAfter?] at h ⊢
    cases hstep : Utf8.step? owed b with
    | none =>
      rw [hstep] at h
      cases h
    | some middle =>
      rw [hstep] at h
      exact ih (.step hstep) h

/-- Preparing keeps a text valid. -/
theorem isValid_prepare (keepFormatting : Bool) {text : Bytes} (h : Utf8.isValid text = true) :
    Utf8.isValid (prepare keepFormatting text) = true := by
  have hcut := isValid_cutComments h
  cases keepFormatting with
  | true => exact hcut
  | false =>
    refine Utf8.isValid_stripOf rfl ((Utf8.isValid_iff _).mpr ?_)
    exact owedAfter?_foldLines Utf8.Owed.sound_nothing ((Utf8.isValid_iff _).mp hcut)

end Source

/-! ## Reading a literal -/

namespace Quoted

/-- The byte that an escape stands for begins what the escape's own byte does. -/
theorem step?_unescapeByte (b : UInt8) :
    Utf8.step? .nothing (unescapeByte b) = Utf8.step? .nothing b := by
  unfold unescapeByte
  split
  · obtain rfl := eq_of_beq ‹_›
    rfl
  · split
    · obtain rfl := eq_of_beq ‹_›
      rfl
    · split
      · obtain rfl := eq_of_beq ‹_›
        rfl
      · rfl

/-- A backslash stands between characters, and the byte after it is read like the one that the two
stand for. -/
theorem owedAfter?_unescape {owed next : Utf8.Owed} {s : Bytes} (hsound : owed.Sound)
    (h : Utf8.owedAfter? owed s = some next) : Utf8.owedAfter? owed (unescape s) = some next := by
  induction s using unescape.induct generalizing owed with
  | case1 => exact h
  | case2 b => exact h
  | case3 b c rest hbackslash ih =>
    obtain rfl := eq_of_beq hbackslash
    rw [unescape, if_pos hbackslash]
    rw [Utf8.owedAfter?] at h
    by_cases hcount : owed.count = 0
    · obtain rfl := hsound.1 hcount
      rw [Utf8.step?_nothing_of_lt (by decide)] at h
      have h : Utf8.owedAfter? .nothing (c :: rest) = some next := h
      rw [Utf8.owedAfter?] at h ⊢
      rw [step?_unescapeByte]
      cases hstep : Utf8.step? .nothing c with
      | none =>
        rw [hstep] at h
        cases h
      | some middle =>
        rw [hstep] at h
        exact ih (.step hstep) h
    · rw [Utf8.step?_of_lt hsound hcount (by decide)] at h
      cases h
  | case4 b c rest hbackslash ih =>
    rw [unescape, if_neg hbackslash]
    rw [Utf8.owedAfter?] at h ⊢
    cases hstep : Utf8.step? owed b with
    | none =>
      rw [hstep] at h
      cases h
    | some middle =>
      rw [hstep] at h
      exact ih (.step hstep) h

/-- What a literal in a well-formed text holds is well formed. -/
theorem isValid_of_decode? {source part text : Bytes} (hsource : Utf8.isValid source = true)
    (hpart : part <:+: source) (h : decode? part = some text) : Utf8.isValid text = true := by
  obtain ⟨quote, hquote, inside, rfl, rfl⟩ := decode?_eq_some_iff.mp h
  have hascii : quote < 0x80 := by
    simp only [List.mem_cons, List.not_mem_nil, or_false] at hquote
    obtain rfl | rfl := hquote <;> decide
  obtain ⟨before, after, rfl⟩ := hpart
  -- The source is cut at the two quotes.
  have hinside : Utf8.isValid inside = true := by
    rw [List.append_assoc, List.cons_append, Utf8.isValid_append_cons _ _ hascii,
      List.append_assoc, List.cons_append, Utf8.isValid_append_cons _ _ hascii] at hsource
    simp only [Bool.and_eq_true] at hsource
    exact hsource.2.1
  rw [Utf8.isValid_iff]
  exact owedAfter?_unescape Utf8.Owed.sound_nothing ((Utf8.isValid_iff inside).mp hinside)

end Quoted

/-- The value of a literal that is read from a well-formed text is encoded. -/
theorem Operand.encoded_literal {source : Bytes} {operand : Operand}
    (hsource : Utf8.isValid source = true) (hread : operand.IsReadFrom source)
    (hstatic : operand.isStatic = true) : operand.literal.Encoded := by
  obtain ⟨part, hpart, rfl⟩ := hread
  cases hdecode : Quoted.decode? (Bytes.strip part) with
  | some text =>
    rw [parse_of_decode?_eq_some hdecode]
    exact .str (Quoted.isValid_of_decode? hsource ((Bytes.isInfix_strip part).trans hpart) hdecode)
  | none =>
    simp only [parse, hdecode, isConstantWord, Bool.or_eq_true] at hstatic
    simp only [parse, hdecode, literal, Bool.false_eq_true, if_false]
    split
    · exact .bool true
    · split
      · exact .bool false
      · split
        · exact .null
        · split
          · split
            · exact .int _
            · exact .float _
          · -- A text that is neither a word nor a numeral is a path.
            simp_all

end Stencil
