import Stencil.Proofs.Template.Markup
import Stencil.Proofs.Template.Statement

/-!
# Preparing a source in two parts

How a text with a newline in it is prepared, in terms of what stands before and after the newline. A
comment is found on either side of it by itself, unless it is open there (`Source.meetsNewline`).
Folding takes the newline with the blanks after it (`Source.foldLines_append_newline`), and is
otherwise done on both sides by itself, unless the first ends in a line break
(`Source.foldLines_append`).
-/

set_option autoImplicit false

namespace Stencil

namespace Bytes

/-! ## Marks on both sides of a byte -/

/-- A mark begins a text before a byte that is not in the mark if it begins the text with it. -/
theorem isPrefixOf_append_cons {mark : Bytes} {b : UInt8} (hb : b ∉ mark) (s rest : Bytes) :
    mark.isPrefixOf (s ++ b :: rest) = mark.isPrefixOf s := by
  induction s generalizing mark with
  | nil =>
    cases mark with
    | nil => rfl
    | cons first more =>
      have hne : first ≠ b := fun heq => hb (heq ▸ .head _)
      simp [List.isPrefixOf, hne]
  | cons c s ih =>
    cases mark with
    | nil => rfl
    | cons first more =>
      rw [List.cons_append, List.isPrefixOf, List.isPrefixOf, ih fun hmem => hb (.tail _ hmem)]

/-- A text is broken before a byte that is not in the mark, or after it. -/
theorem breakOn_append_cons (mark : Bytes) {b : UInt8} (hb : b ∉ mark) (hmark : mark ≠ [])
    (s rest : Bytes) :
    breakOn mark (s ++ b :: rest) =
      match breakOn mark s with
      | some (before, after) => some (before, after ++ b :: rest)
      | none => (breakOn mark rest).map fun (before, after) => (s ++ b :: before, after) := by
  induction s with
  | nil =>
    have hstarts : mark.isPrefixOf (b :: rest) = false := by
      have hempty := isPrefixOf_append_cons hb [] rest
      cases mark with
      | nil => exact absurd rfl hmark
      | cons first more => exact hempty
    simp [breakOn, hstarts]
  | cons c s ih =>
    rw [List.cons_append, breakOn, breakOn, ← List.cons_append, isPrefixOf_append_cons hb]
    cases hstarts : mark.isPrefixOf (c :: s) with
    | true =>
      have hlength : mark.length ≤ (c :: s).length :=
        (List.isPrefixOf_iff_prefix.mp hstarts).length_le
      rw [List.drop_append_of_le_length hlength]
      rfl
    | false =>
      simp only [Bool.false_eq_true, if_false, ih]
      cases breakOn mark s with
      | none => cases breakOn mark rest <;> rfl
      | some parts => rfl

/-- A byte that does not begin the mark is passed over. -/
theorem breakOn_cons (mark : Bytes) {b : UInt8} (hmark : mark ≠ []) (hb : mark.head? ≠ some b)
    (s : Bytes) :
    breakOn mark (b :: s) = (breakOn mark s).map fun (before, after) => (b :: before, after) := by
  have hstarts : mark.isPrefixOf (b :: s) = false := by
    cases mark with
    | nil => exact absurd rfl hmark
    | cons first more =>
      have hne : first ≠ b := fun heq => hb (heq ▸ rfl)
      simp [List.isPrefixOf, hne]
  rw [breakOn, hstarts]
  rfl

/-! ## Stripping two parts -/

variable {p : UInt8 → Bool} {s t : Bytes}

/-- All of a text is dropped at its end when all of its bytes are. -/
theorem dropEndWhile_eq_nil_iff : dropEndWhile p s = [] ↔ ∀ b ∈ s, p b = true := by
  simp [dropEndWhile, List.dropWhile_eq_nil_iff]

/-- What is all dropped at the end does not matter. -/
theorem dropEndWhile_append_of_all (ht : ∀ b ∈ t, p b = true) :
    dropEndWhile p (s ++ t) = dropEndWhile p s := by
  rw [dropEndWhile, List.reverse_append, List.dropWhile_append_of_pos (by simpa using ht)]
  rfl

/-- What is not all dropped keeps all that stands before it. -/
theorem dropEndWhile_append_of_kept (ht : ¬∀ b ∈ t, p b = true) :
    dropEndWhile p (s ++ t) = s ++ dropEndWhile p t := by
  have hkept : t.reverse.dropWhile p ≠ [] := fun hnil =>
    ht (dropEndWhile_eq_nil_iff.mp (by rw [dropEndWhile, hnil]; rfl))
  rw [dropEndWhile, List.reverse_append, List.dropWhile_append, if_neg (by simpa using hkept),
    List.reverse_append, List.reverse_reverse, dropEndWhile]

/-- A byte that is kept keeps all that stands before it. -/
theorem dropEndWhile_append_cons {b : UInt8} (hb : p b = false) (s t : Bytes) :
    dropEndWhile p (s ++ b :: t) = s ++ b :: dropEndWhile p t := by
  rw [List.append_cons, List.append_cons s b (dropEndWhile p t)]
  by_cases ht : ∀ c ∈ t, p c = true
  · rw [dropEndWhile_append_of_all ht, dropEndWhile_eq_nil_iff.mpr ht,
      dropEndWhile_append_of_kept (by simp [hb])]
    simp [dropEndWhile, hb]
  · rw [dropEndWhile_append_of_kept ht]

/-- All of a text is stripped when all of its bytes are. -/
theorem stripWhile_eq_nil_iff : stripWhile p s = [] ↔ ∀ b ∈ s, p b = true := by
  constructor
  · intro hnil b hmem
    rw [stripWhile, dropEndWhile_eq_nil_iff] at hnil
    rw [← List.takeWhile_append_dropWhile (p := p) (l := s), List.mem_append] at hmem
    obtain hlead | hrest := hmem
    · exact List.mem_takeWhile_imp hlead
    · exact hnil b hrest
  · intro hall
    rw [stripWhile, List.dropWhile_eq_nil_iff.mpr hall]
    rfl

/-- What is all stripped at the start does not matter. -/
theorem stripWhile_append_left (hs : ∀ b ∈ s, p b = true) :
    stripWhile p (s ++ t) = stripWhile p t := by
  rw [stripWhile, List.dropWhile_append_of_pos hs, stripWhile]

/-- What is all stripped at the end does not matter. -/
theorem stripWhile_append_right (ht : ∀ b ∈ t, p b = true) :
    stripWhile p (s ++ t) = stripWhile p s := by
  by_cases hs : ∀ b ∈ s, p b = true
  · rw [stripWhile_append_left hs, stripWhile_eq_nil_iff.mpr hs, stripWhile_eq_nil_iff.mpr ht]
  · have hkept : s.dropWhile p ≠ [] := fun hnil => hs (List.dropWhile_eq_nil_iff.mp hnil)
    rw [stripWhile, List.dropWhile_append, if_neg (by simpa using hkept),
      dropEndWhile_append_of_all ht, stripWhile]

/-- Between two parts of which something is kept, all is kept. -/
theorem stripWhile_append_kept (hs : ¬∀ b ∈ s, p b = true) (middle : Bytes)
    (ht : ¬∀ b ∈ t, p b = true) :
    stripWhile p (s ++ (middle ++ t)) = s.dropWhile p ++ (middle ++ dropEndWhile p t) := by
  have hkept : s.dropWhile p ≠ [] := fun hnil => hs (List.dropWhile_eq_nil_iff.mp hnil)
  rw [stripWhile, List.dropWhile_append, if_neg (by simpa using hkept), ← List.append_assoc,
    dropEndWhile_append_of_kept ht, List.append_assoc]

/-- A second part of which something is kept can be seen. -/
theorem stripWhile_append_ne (hs : ¬∀ b ∈ s, p b = true) (ht : ¬∀ b ∈ t, p b = true) :
    stripWhile p (s ++ t) ≠ stripWhile p s := by
  intro heq
  have hlength := congrArg List.length heq
  rw [← List.nil_append t, stripWhile_append_kept hs [] ht, stripWhile] at hlength
  have hshort : (dropEndWhile p (s.dropWhile p)).length ≤ (s.dropWhile p).length :=
    (isPrefix_dropEndWhile p _).length_le
  have hkept : 0 < (dropEndWhile p t).length :=
    List.length_pos_iff.mpr fun hnil => ht (dropEndWhile_eq_nil_iff.mp hnil)
  simp only [List.nil_append, List.length_append] at hlength
  omega

end Bytes

namespace Source

/-! ## Comments on both sides of a newline -/

/-- A byte that begins no comment is passed over, unless it is a tab before one. -/
theorem cutComments_cons {b : UInt8} (hb : b ≠ Byte.openBrace) (s : Bytes) :
    cutComments (b :: s) = b :: cutComments s ∨
      b = Byte.tab ∧ cutComments (b :: s) = cutComments s := by
  have hbreak := Bytes.breakOn_cons commentOpener (by decide)
    (by simpa [commentOpener] using hb.symm) s
  cases hopen : Bytes.breakOn commentOpener s with
  | none =>
    have hopen' : Bytes.breakOn commentOpener (b :: s) = none := hbreak.trans (by rw [hopen]; rfl)
    exact .inl (by rw [cutComments_of_none hopen, cutComments_of_none hopen'])
  | some parts =>
    obtain ⟨before, afterOpener⟩ := parts
    have hopen' : Bytes.breakOn commentOpener (b :: s) = some (b :: before, afterOpener) :=
      hbreak.trans (by rw [hopen]; rfl)
    cases hclose : Bytes.breakOn commentCloser afterOpener with
    | none =>
      rw [cutComments_of_unclosed hopen hclose, cutComments_of_unclosed hopen' hclose]
      exact .inl rfl
    | some parts =>
      obtain ⟨inside, after⟩ := parts
      rw [cutComments_of_breakOn hopen hclose, cutComments_of_breakOn hopen' hclose]
      by_cases htab : b = Byte.tab
      · by_cases htabs : ∀ c ∈ before, (c == Byte.tab) = true
        · have hall : ∀ c ∈ b :: before, (c == Byte.tab) = true := by simpa [htab] using htabs
          rw [Bytes.dropEndWhile_eq_nil_iff.mpr htabs, Bytes.dropEndWhile_eq_nil_iff.mpr hall]
          exact .inr ⟨htab, rfl⟩
        · exact .inl (congrArg (· ++ _) (Bytes.dropEndWhile_append_of_kept (s := [b]) htabs))
      · have hkept := Bytes.dropEndWhile_append_cons (p := (· == Byte.tab)) (beq_false_of_ne htab)
          [] before
        exact .inl (congrArg (· ++ _) hkept)

/-- What becomes of a newline after a text, and of what follows it, whatever that is. -/
inductive MeetsNewline (before : Bytes) : Prop
  /-- The comment that ends the text takes the newline along. -/
  | taken (h : ∀ rest, cutComments (before ++ Byte.newline :: rest) =
      cutComments before ++ cutComments (rest.dropWhile (· == Byte.newline)))
  /-- The newline stands outside of comments. -/
  | outside (h : ∀ rest, cutComments (before ++ Byte.newline :: rest) =
      cutComments before ++ Byte.newline :: cutComments rest)
  /-- The newline stands inside of a comment, if that is closed later. -/
  | inside (kept : Bytes) (h : ∀ rest, cutComments (before ++ Byte.newline :: rest) =
      match Bytes.breakOn commentCloser rest with
      | none => cutComments before ++ Byte.newline :: rest
      | some (_, after) => kept ++ cutComments (after.dropWhile (· == Byte.newline)))

/-- A text before what a newline meets is kept. -/
theorem MeetsNewline.append {before whole : Bytes} (h : MeetsNewline before) (kept : Bytes)
    (hwhole : cutComments whole = kept ++ cutComments before)
    (happend : ∀ rest, cutComments (whole ++ Byte.newline :: rest) =
      kept ++ cutComments (before ++ Byte.newline :: rest)) : MeetsNewline whole := by
  cases h with
  | taken h => exact .taken fun rest => by rw [happend, h, hwhole, List.append_assoc]
  | outside h => exact .outside fun rest => by rw [happend, h, hwhole, List.append_assoc]
  | inside more h =>
    refine .inside (kept ++ more) fun rest => ?_
    rw [happend, h, hwhole]
    cases Bytes.breakOn commentCloser rest with
    | none => simp only [List.append_assoc]
    | some parts => simp only [List.append_assoc]

/-- A newline meets a text in one of three ways. The induction is on the comments of the text. -/
theorem meetsNewline (before : Bytes) : MeetsNewline before := by
  induction hn : before.length using Nat.strongRecOn generalizing before with
  | ind n ih =>
    have hopenRest : ∀ rest, Bytes.breakOn commentOpener (before ++ Byte.newline :: rest) = _ :=
      Bytes.breakOn_append_cons commentOpener (by decide) (by decide) before
    cases hopen : Bytes.breakOn commentOpener before with
    | none =>
      simp only [hopen] at hopenRest
      refine .outside fun rest => ?_
      have hopener := hopenRest rest
      rw [cutComments_of_none hopen]
      cases hlater : Bytes.breakOn commentOpener rest with
      | none =>
        rw [hlater] at hopener
        rw [cutComments_of_none hlater]
        exact cutComments_of_none hopener
      | some parts =>
        obtain ⟨lead, afterOpener⟩ := parts
        rw [hlater] at hopener
        cases hclose : Bytes.breakOn commentCloser afterOpener with
        | none =>
          rw [cutComments_of_unclosed hlater hclose]
          exact cutComments_of_unclosed hopener hclose
        | some parts =>
          rw [cutComments_of_breakOn hlater hclose, cutComments_of_breakOn hopener hclose,
            Bytes.dropEndWhile_append_cons rfl, List.append_assoc]
          rfl
    | some parts =>
      obtain ⟨lead, afterOpener⟩ := parts
      simp only [hopen] at hopenRest
      have hcloseRest : ∀ rest,
          Bytes.breakOn commentCloser (afterOpener ++ Byte.newline :: rest) = _ :=
        Bytes.breakOn_append_cons commentCloser (by decide) (by decide) afterOpener
      cases hclose : Bytes.breakOn commentCloser afterOpener with
      | none =>
        simp only [hclose] at hcloseRest
        refine .inside (Bytes.dropEndWhile (· == Byte.tab) lead) fun rest => ?_
        have hcloser := hcloseRest rest
        rw [cutComments_of_unclosed hopen hclose]
        cases hlater : Bytes.breakOn commentCloser rest with
        | none =>
          rw [hlater] at hcloser
          exact cutComments_of_unclosed (hopenRest rest) hcloser
        | some parts =>
          rw [hlater] at hcloser
          exact cutComments_of_breakOn (hopenRest rest) hcloser
      | some parts =>
        obtain ⟨inside, after⟩ := parts
        simp only [hclose] at hcloseRest
        have hcut : ∀ rest, cutComments (before ++ Byte.newline :: rest) =
            Bytes.dropEndWhile (· == Byte.tab) lead ++ cutComments
              ((after ++ Byte.newline :: rest).dropWhile (· == Byte.newline)) :=
          fun rest => cutComments_of_breakOn (hopenRest rest) (hcloseRest rest)
        cases hafter : after.dropWhile (· == Byte.newline) with
        | nil =>
          -- The newline follows those that the last comment takes.
          have hnewlines : ∀ b ∈ after, (b == Byte.newline) = true :=
            List.dropWhile_eq_nil_iff.mp hafter
          have hempty : cutComments [] = [] := cutComments_of_none rfl
          refine .taken fun rest => ?_
          rw [hcut, List.dropWhile_append_of_pos hnewlines, List.dropWhile_cons_of_pos (by simp),
            cutComments_of_breakOn hopen hclose, hafter, hempty, List.append_nil]
        | cons b tail =>
          have hshort : (b :: tail).length < n := by
            have hdrop := Bytes.length_dropWhile_le (· == Byte.newline) after
            have hopener := Bytes.length_after_lt (by decide) hopen
            have hcloser := Bytes.length_after_lt (by decide) hclose
            rw [hafter] at hdrop
            omega
          refine (ih _ hshort (b :: tail) rfl).append (Bytes.dropEndWhile (· == Byte.tab) lead) ?_
            fun rest => ?_
          · rw [cutComments_of_breakOn hopen hclose, hafter]
          · rw [hcut, List.dropWhile_append, hafter]
            rfl

/-! ## Folding on both sides -/

/-- A text ends in a line break: a newline, and blanks only after it. -/
def EndsLine (s : Bytes) : Prop :=
  ∃ start blanks, s = start ++ Byte.newline :: blanks ∧ ∀ b ∈ blanks, Byte.isBlank b = true

/-- A text ends a line whatever stands before it. -/
theorem EndsLine.append_left {s : Bytes} (h : EndsLine s) (lead : Bytes) :
    EndsLine (lead ++ s) := by
  obtain ⟨start, blanks, rfl, hblanks⟩ := h
  exact ⟨lead ++ start, blanks, (List.append_assoc _ _ _).symm, hblanks⟩

/-- A newline is folded away with the blanks after it, and so is a line break before it. -/
theorem foldLines_append_newline (s rest : Bytes) :
    foldLines (s ++ Byte.newline :: rest) =
      foldLines s ++ foldLines (rest.dropWhile Byte.isBlank) := by
  induction s using foldLines.induct with
  | case1 =>
    rw [List.nil_append, foldLines, foldLines]
    rfl
  | case2 b s hnewline ih =>
    rw [List.cons_append, foldLines, if_pos hnewline, foldLines, if_pos hnewline,
      List.dropWhile_append]
    split
    · next hblank =>
      rw [List.isEmpty_iff.mp hblank, List.dropWhile_cons_of_pos (by decide), foldLines]
      rfl
    · exact ih
  | case3 b s hnewline ih =>
    rw [List.cons_append, foldLines, if_neg hnewline, foldLines, if_neg hnewline, ih]
    rfl

/-- Blanks at the start of a text are folded away after a line break. -/
theorem foldLines_append_of_endsLine {s : Bytes} (h : EndsLine s) (rest : Bytes) :
    foldLines (s ++ rest) = foldLines s ++ foldLines (rest.dropWhile Byte.isBlank) := by
  obtain ⟨start, blanks, rfl, hblanks⟩ := h
  rw [List.append_assoc, List.cons_append, foldLines_append_newline, foldLines_append_newline,
    List.dropWhile_append_of_pos hblanks, List.dropWhile_eq_nil_iff.mpr hblanks, foldLines,
    List.append_nil]

/-- Two texts are folded one by one, unless the first ends in a line break. -/
theorem foldLines_append {s : Bytes} (h : ¬EndsLine s) (rest : Bytes) :
    foldLines (s ++ rest) = foldLines s ++ foldLines rest := by
  induction s using foldLines.induct with
  | case1 =>
    rw [foldLines]
    rfl
  | case2 b s hnewline ih =>
    obtain rfl := eq_of_beq hnewline
    have hkept : s.dropWhile Byte.isBlank ≠ [] := fun hnil =>
      h ⟨[], s, rfl, List.dropWhile_eq_nil_iff.mp hnil⟩
    rw [List.cons_append, foldLines, if_pos hnewline, foldLines, if_pos hnewline,
      List.dropWhile_append, if_neg (by simpa using hkept)]
    refine ih fun hends => h ?_
    have hwhole := hends.append_left (Byte.newline :: s.takeWhile Byte.isBlank)
    rwa [List.cons_append, List.takeWhile_append_dropWhile] at hwhole
  | case3 b s hnewline ih =>
    rw [List.cons_append, foldLines, if_neg hnewline, foldLines, if_neg hnewline,
      ih fun hends => h (hends.append_left [b])]
    rfl

/-- Without the blanks at its start a text is folded to an end of what it is folded to. -/
theorem foldLines_dropWhile_isSuffix (s : Bytes) :
    foldLines (s.dropWhile Byte.isBlank) <:+ foldLines s := by
  induction s with
  | nil => exact List.suffix_rfl
  | cons b s ih =>
    by_cases hblank : Byte.isBlank b = true
    · rw [List.dropWhile_cons_of_pos hblank, foldLines]
      split
      · exact List.suffix_rfl
      · exact ih.trans (List.suffix_cons b _)
    · have hkept : (b :: s).dropWhile Byte.isBlank = b :: s := List.dropWhile_cons_of_neg hblank
      simp only [hkept, List.suffix_rfl]

end Source

end Stencil
