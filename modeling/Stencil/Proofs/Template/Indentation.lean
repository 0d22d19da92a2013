import Stencil.Proofs.Template.Preparation
import Stencil.Template.Parse

/-!
# Indentation

Spaces and tabs at the start of a line are not part of a template whose formatting is not kept. The
one exception is a line that a comment joins to the line before it: the newline between them goes
with the comment, before lines are folded, and what was the indentation of the line then stands
inside of a line. `Source.indentation_iff` says exactly when that can be seen.
-/

set_option autoImplicit false

namespace Stencil

namespace Source

/-- Spaces and tabs. -/
def IsIndent (run : Bytes) : Prop := ∀ b ∈ run, b = Byte.space ∨ b = Byte.tab

/-- A comment at the end of a text takes a newline after it along. -/
def TakesNewline (before : Bytes) : Prop :=
  cutComments (before ++ [Byte.newline]) = cutComments before

/-- The indentation after a newline can be seen: the newline goes with a comment before it, and the
comment does not follow a line break. -/
inductive Exposes (before after : Bytes) : Prop
  /-- Something is left on both sides: the indentation stands between. -/
  | between (htakes : TakesNewline before) (hline : ¬EndsLine (cutComments before))
      (hbefore : prepare false before ≠ [])
      (hafter : prepare false (after.dropWhile (· == Byte.newline)) ≠ [])
  /-- Nothing is left before: the first line is that after the newline and those that the comment
  takes with it, and it matters whether they are folded away with blanks after them. -/
  | first (htakes : TakesNewline before) (hline : ¬EndsLine (cutComments before))
      (hbefore : prepare false before = [])
      (hafter : prepare false (after.dropWhile (· == Byte.newline)) ≠ prepare false after)

/-! ## Indentation under the two passes -/

/-- Whether a byte is dropped at the ends of a template whose formatting is not kept. -/
abbrev isMargin : UInt8 → Bool := Bytes.isStripped (ascii " \t\n")

/-- Preparing without the formatting strips the margin off the folded source. -/
theorem prepare_false (text : Bytes) :
    prepare false text = Bytes.stripWhile isMargin (foldLines (cutComments text)) := rfl

/-- Nothing is left of a source that is margin only. -/
theorem prepare_false_eq_nil_iff (text : Bytes) :
    prepare false text = [] ↔ ∀ b ∈ foldLines (cutComments text), isMargin b = true := by
  rw [prepare_false, Bytes.stripWhile_eq_nil_iff]

namespace IsIndent

variable {run : Bytes}

/-- Indentation is blank. -/
theorem isBlank (h : IsIndent run) : ∀ b ∈ run, Byte.isBlank b = true := by
  intro b hmem
  obtain rfl | rfl := h b hmem <;> decide

/-- Indentation is margin. -/
theorem isMargin (h : IsIndent run) : ∀ b ∈ run, Source.isMargin b = true := by
  intro b hmem
  obtain rfl | rfl := h b hmem <;> decide

/-- Indentation holds no newline. -/
theorem newline_notMem (h : IsIndent run) : Byte.newline ∉ run := by
  intro hmem
  obtain heq | heq := h _ hmem <;> exact absurd heq (by decide)

/-- Of the indentation before a text at most some tabs go with a comment. -/
theorem cutComments_append (h : IsIndent run) (rest : Bytes) :
    ∃ kept, IsIndent kept ∧ cutComments (run ++ rest) = kept ++ cutComments rest := by
  induction run with
  | nil => exact ⟨[], h, rfl⟩
  | cons b run ih =>
    obtain ⟨kept, hkept, hcut⟩ := ih fun c hmem => h c (.tail _ hmem)
    have hb : b ≠ Byte.openBrace := by
      obtain rfl | rfl := h b (.head _) <;> decide
    obtain hcons | ⟨-, hcons⟩ := Source.cutComments_cons hb (run ++ rest)
    · refine ⟨b :: kept, ?_, ?_⟩
      · intro c hmem
        obtain rfl | hmem := List.mem_cons.mp hmem
        · exact h c (.head _)
        · exact hkept c hmem
      · rw [List.cons_append, hcons, hcut]
        rfl
    · exact ⟨kept, hkept, by rw [List.cons_append, hcons, hcut]⟩

/-- Behind indentation the blanks at the start go on with those that are left when comments are
cut. -/
theorem dropWhile_cutComments (h : IsIndent run) (rest : Bytes) :
    (cutComments (run ++ rest)).dropWhile Byte.isBlank =
      (cutComments rest).dropWhile Byte.isBlank := by
  obtain ⟨kept, hkept, hcut⟩ := h.cutComments_append rest
  rw [hcut, List.dropWhile_append_of_pos hkept.isBlank]

/-- Indentation holds no part of the end of a comment. -/
theorem breakOn_closer (h : IsIndent run) (rest : Bytes) :
    Bytes.breakOn commentCloser (run ++ rest) =
      (Bytes.breakOn commentCloser rest).map fun (inside, after) => (run ++ inside, after) := by
  induction run with
  | nil =>
    rw [List.nil_append]
    cases Bytes.breakOn commentCloser rest <;> rfl
  | cons b run ih =>
    have hb : commentCloser.head? ≠ some b := by
      obtain rfl | rfl := h b (.head _) <;> decide
    rw [List.cons_append, Bytes.breakOn_cons commentCloser (by decide) hb,
      ih fun c hmem => h c (.tail _ hmem)]
    cases Bytes.breakOn commentCloser rest <;> rfl

/-- Indentation is no line break. -/
theorem foldLines_append (h : IsIndent run) (rest : Bytes) :
    foldLines (run ++ rest) = run ++ foldLines rest := by
  have hline : ¬EndsLine run := by
    rintro ⟨start, blanks, rfl, -⟩
    exact h.newline_notMem (by simp)
  rw [Source.foldLines_append hline, foldLines_of_notMem h.newline_notMem]

end IsIndent

/-- A newline in front of a source stays when comments are cut. -/
theorem cutComments_newline_cons (rest : Bytes) :
    cutComments (Byte.newline :: rest) = Byte.newline :: cutComments rest := by
  obtain hcons | ⟨htab, -⟩ := cutComments_cons (show Byte.newline ≠ Byte.openBrace by decide) rest
  · exact hcons
  · exact absurd htab (by decide)

/-- Newlines are no part of a comment, and are blanks. -/
theorem dropWhile_cutComments_newlines (rest : Bytes) :
    (cutComments (rest.dropWhile (· == Byte.newline))).dropWhile Byte.isBlank =
      (cutComments rest).dropWhile Byte.isBlank := by
  induction rest with
  | nil => rfl
  | cons b rest ih =>
    by_cases hb : b = Byte.newline
    · subst hb
      rw [List.dropWhile_cons_of_pos (by simp), cutComments_newline_cons,
        List.dropWhile_cons_of_pos (by decide), ih]
    · rw [List.dropWhile_cons_of_neg (by simpa using hb)]

/-- With the newlines at its start a text is folded to an end of what it is folded to without. -/
theorem foldLines_cutComments_isSuffix (rest : Bytes) :
    foldLines (cutComments rest) <:+
      foldLines (cutComments (rest.dropWhile (· == Byte.newline))) := by
  cases rest with
  | nil => exact List.suffix_rfl
  | cons b rest =>
    by_cases hb : b = Byte.newline
    · subst hb
      rw [List.dropWhile_cons_of_pos (by simp), cutComments_newline_cons, foldLines,
        if_pos (by simp), ← dropWhile_cutComments_newlines]
      exact foldLines_dropWhile_isSuffix _
    · have hkept : (b :: rest).dropWhile (· == Byte.newline) = b :: rest :=
        List.dropWhile_cons_of_neg (by simpa using hb)
      simp only [hkept, List.suffix_rfl]

/-! ## A newline that is taken -/

/-- What takes every newline behind it takes one. -/
theorem takesNewline_of_taken {before : Bytes}
    (h : ∀ rest, cutComments (before ++ Byte.newline :: rest) =
      cutComments before ++ cutComments (rest.dropWhile (· == Byte.newline))) :
    TakesNewline before := by
  have hempty : cutComments [] = [] := cutComments_of_none rfl
  have htaken := h []
  rwa [List.dropWhile_nil, hempty, List.append_nil] at htaken

/-- What a comment takes does not depend on what follows the newline. -/
theorem TakesNewline.cutComments_append {before : Bytes} (h : TakesNewline before) (rest : Bytes) :
    cutComments (before ++ Byte.newline :: rest) =
      cutComments before ++ cutComments (rest.dropWhile (· == Byte.newline)) := by
  have hlength := congrArg List.length h
  cases meetsNewline before with
  | taken htaken => exact htaken rest
  | outside houtside =>
    rw [houtside []] at hlength
    simp at hlength
  | inside kept hinside =>
    rw [hinside []] at hlength
    simp [Bytes.breakOn] at hlength

section Taken

variable {before after run kept : Bytes} (htakes : TakesNewline before)
  (hline : ¬EndsLine (cutComments before))
include htakes hline

/-- Without indentation the newlines after the first one go with the comment as well. -/
theorem prepare_of_taken : prepare false (before ++ Byte.newline :: after) =
    Bytes.stripWhile isMargin (foldLines (cutComments before) ++
      foldLines (cutComments (after.dropWhile (· == Byte.newline)))) := by
  rw [prepare_false, htakes.cutComments_append, foldLines_append hline]

/-- Indentation stands between what the two sides are folded to. -/
theorem prepare_of_taken_indent (hrun : IsIndent run) (hne : run ≠ []) (hkept : IsIndent kept)
    (hcut : cutComments (run ++ after) = kept ++ cutComments after) :
    prepare false (before ++ Byte.newline :: (run ++ after)) =
      Bytes.stripWhile isMargin (foldLines (cutComments before) ++
        (kept ++ foldLines (cutComments after))) := by
  obtain ⟨b, tail, rfl⟩ := List.exists_cons_of_ne_nil hne
  have hb : b ≠ Byte.newline := fun heq => hrun.newline_notMem (heq ▸ .head _)
  have hstops : (b :: tail ++ after).dropWhile (· == Byte.newline) = b :: tail ++ after :=
    List.dropWhile_cons_of_neg (by simpa using hb)
  rw [prepare_false, htakes.cutComments_append, hstops, hcut, foldLines_append hline,
    hkept.foldLines_append]

end Taken

/-! ## When indentation can be seen -/

/-- Indentation that is not exposed does not matter. -/
theorem prepare_indent {before after run : Bytes} (hfree : ¬Exposes before after)
    (hrun : IsIndent run) :
    prepare false (before ++ Byte.newline :: (run ++ after)) =
      prepare false (before ++ Byte.newline :: after) := by
  cases meetsNewline before with
  | outside h =>
    rw [prepare_false, prepare_false, h, h, foldLines_append_newline, foldLines_append_newline,
      hrun.dropWhile_cutComments]
  | inside kept h =>
    rw [prepare_false, prepare_false, h, h, hrun.breakOn_closer]
    cases Bytes.breakOn commentCloser after with
    | none =>
      simp only [Option.map_none]
      rw [foldLines_append_newline, foldLines_append_newline,
        List.dropWhile_append_of_pos hrun.isBlank]
    | some parts => rfl
  | taken h =>
    by_cases hline : EndsLine (cutComments before)
    · rw [prepare_false, prepare_false, h, h, foldLines_append_of_endsLine hline,
        foldLines_append_of_endsLine hline, dropWhile_cutComments_newlines,
        dropWhile_cutComments_newlines, hrun.dropWhile_cutComments]
    · by_cases hne : run = []
      · rw [hne, List.nil_append]
      · have htakes := takesNewline_of_taken h
        obtain ⟨kept, hkept, hcut⟩ := hrun.cutComments_append after
        rw [prepare_of_taken_indent htakes hline hrun hne hkept hcut,
          prepare_of_taken htakes hline]
        by_cases hbefore : prepare false before = []
        · -- Nothing is left before: the indentation is dropped as a margin.
          have hafter : prepare false (after.dropWhile (· == Byte.newline)) = prepare false after :=
            by_contra fun hne => hfree (.first htakes hline hbefore hne)
          have hmargin := (prepare_false_eq_nil_iff before).mp hbefore
          rw [Bytes.stripWhile_append_left hmargin, Bytes.stripWhile_append_left hmargin,
            Bytes.stripWhile_append_left hkept.isMargin]
          exact hafter.symm
        · -- Nothing is left after: whatever stands there is dropped.
          have hafter : prepare false (after.dropWhile (· == Byte.newline)) = [] :=
            by_contra fun hne => hfree (.between htakes hline hbefore hne)
          have hmargin := (prepare_false_eq_nil_iff _).mp hafter
          have hmargin' : ∀ b ∈ kept ++ foldLines (cutComments after), isMargin b = true := by
            intro b hmem
            obtain hmem | hmem := List.mem_append.mp hmem
            · exact hkept.isMargin b hmem
            · exact hmargin b ((foldLines_cutComments_isSuffix after).subset hmem)
          rw [Bytes.stripWhile_append_right hmargin, Bytes.stripWhile_append_right hmargin']

/-- Spaces are indentation. -/
theorem isIndent_spaces (n : Nat) : IsIndent (List.replicate n Byte.space) :=
  fun _ hmem => .inl (List.eq_of_mem_replicate hmem)

/-- Spaces do not go with a comment. -/
theorem cutComments_spaces (n : Nat) (rest : Bytes) :
    cutComments (List.replicate n Byte.space ++ rest) =
      List.replicate n Byte.space ++ cutComments rest := by
  induction n with
  | zero => rfl
  | succ n ih =>
    rw [List.replicate_succ, List.cons_append, List.cons_append, ← ih]
    obtain hcons | ⟨htab, -⟩ := cutComments_cons (show Byte.space ≠ Byte.openBrace by decide)
      (List.replicate n Byte.space ++ rest)
    · exact hcons
    · exact absurd htab (by decide)

/-- Two indentations that are exposed can be told apart: those of one space and of two when
something is left after them, and otherwise those of none and of one space. -/
theorem exists_ne_of_exposes {before after : Bytes} (h : Exposes before after) :
    ∃ run other, IsIndent run ∧ IsIndent other ∧
      prepare false (before ++ Byte.newline :: (run ++ after)) ≠
        prepare false (before ++ Byte.newline :: (other ++ after)) := by
  have hspaces : ∀ n, TakesNewline before → ¬EndsLine (cutComments before) → n ≠ 0 →
      prepare false (before ++ Byte.newline :: (List.replicate n Byte.space ++ after)) =
        Bytes.stripWhile isMargin (foldLines (cutComments before) ++
          (List.replicate n Byte.space ++ foldLines (cutComments after))) := by
    intro n htakes hline hn
    exact prepare_of_taken_indent htakes hline (isIndent_spaces n) (by simpa using hn)
      (isIndent_spaces n) (cutComments_spaces n after)
  cases h with
  | between htakes hline hbefore hafter =>
    have hkept := mt (prepare_false_eq_nil_iff before).mpr hbefore
    by_cases hempty : ∀ b ∈ foldLines (cutComments after), isMargin b = true
    · refine ⟨[], List.replicate 1 Byte.space, isIndent_spaces 0, isIndent_spaces 1, fun heq => ?_⟩
      have hkept' := mt (prepare_false_eq_nil_iff _).mpr hafter
      have hmargin : ∀ b ∈ List.replicate 1 Byte.space ++ foldLines (cutComments after),
          isMargin b = true := by
        intro b hmem
        obtain hmem | hmem := List.mem_append.mp hmem
        · exact (isIndent_spaces 1).isMargin b hmem
        · exact hempty b hmem
      rw [List.nil_append, prepare_of_taken htakes hline, hspaces 1 htakes hline (by decide),
        Bytes.stripWhile_append_right hmargin] at heq
      exact Bytes.stripWhile_append_ne hkept hkept' heq
    · refine ⟨List.replicate 1 Byte.space, List.replicate 2 Byte.space, isIndent_spaces 1,
        isIndent_spaces 2, fun heq => ?_⟩
      rw [hspaces 1 htakes hline (by decide), hspaces 2 htakes hline (by decide),
        Bytes.stripWhile_append_kept hkept _ hempty,
        Bytes.stripWhile_append_kept hkept _ hempty] at heq
      have hlength := congrArg List.length heq
      simp at hlength
  | first htakes hline hbefore hafter =>
    refine ⟨[], List.replicate 1 Byte.space, isIndent_spaces 0, isIndent_spaces 1, fun heq => ?_⟩
    have hmargin := (prepare_false_eq_nil_iff before).mp hbefore
    rw [List.nil_append, prepare_of_taken htakes hline, hspaces 1 htakes hline (by decide),
      Bytes.stripWhile_append_left hmargin, Bytes.stripWhile_append_left hmargin,
      Bytes.stripWhile_append_left (isIndent_spaces 1).isMargin] at heq
    exact hafter heq

/-- When the formatting of a template is not kept, the indentation of a line is no part of it: at
whatever place behind a newline, a run of spaces and tabs can be replaced by any other, and the
source that is scanned is the same, and so is the tree. The only places where this fails, for some
two runs, are those where a comment joins two lines, as `Source.Exposes` says. -/
theorem indentation_iff (before after : Bytes) :
    (∀ run other, IsIndent run → IsIndent other →
      prepare false (before ++ Byte.newline :: (run ++ after)) =
          prepare false (before ++ Byte.newline :: (other ++ after)) ∧
        Tree.parse false (before ++ Byte.newline :: (run ++ after)) =
          Tree.parse false (before ++ Byte.newline :: (other ++ after))) ↔
      ¬Exposes before after := by
  constructor
  · intro hsame hexposes
    obtain ⟨run, other, hrun, hother, hne⟩ := exists_ne_of_exposes hexposes
    exact hne (hsame run other hrun hother).1
  · intro hfree run other hrun hother
    have hsame := (prepare_indent hfree hrun).trans (prepare_indent hfree hother).symm
    exact ⟨hsame, by rw [Tree.parse, Tree.parse, hsame]⟩

/-- A line that a comment joins to the one before: its indentation stands between the two. -/
theorem prepare_joined :
    let before := ascii "a" ++ (commentOpener ++ (ascii " c " ++ commentCloser))
    IsIndent (ascii "  ") ∧ IsIndent [] ∧
      prepare false (before ++ Byte.newline :: (ascii "  " ++ ascii "b")) = ascii "a  b" ∧
      prepare false (before ++ Byte.newline :: ([] ++ ascii "b")) = ascii "ab" := by
  intro before
  have hcut : ∀ run, cutComments (before ++ Byte.newline :: (run ++ ascii "b")) =
      ascii "a" ++ cutComments ((run ++ ascii "b").dropWhile (· == Byte.newline)) := by
    intro run
    have hclose : Bytes.breakOn commentCloser
        (ascii " c " ++ (commentCloser ++ Byte.newline :: (run ++ ascii "b"))) =
          some (ascii " c ", Byte.newline :: (run ++ ascii "b")) := rfl
    have hopen : Bytes.breakOn commentOpener (before ++ Byte.newline :: (run ++ ascii "b")) =
        some (ascii "a",
          ascii " c " ++ (commentCloser ++ Byte.newline :: (run ++ ascii "b"))) := rfl
    exact (cutComments_of_breakOn hopen hclose).trans rfl
  have hfold : ∀ text, Byte.newline ∉ text → Bytes.breakOn commentOpener text = none →
      foldLines (ascii "a" ++ cutComments text) = ascii "a" ++ text := by
    intro text hnewline hopen
    rw [cutComments_of_none hopen, foldLines_of_notMem (by simp [hnewline]; decide)]
  refine ⟨isIndent_spaces 2, isIndent_spaces 0, ?_, ?_⟩
  · rw [prepare_false, hcut, hfold _ (by decide) (by decide)]
    rfl
  · rw [prepare_false, hcut, hfold _ (by decide) (by decide)]
    rfl

end Source

end Stencil
