import Mathlib.Data.List.DropRight
import Stencil.Proofs.Template.Origin
import Stencil.Proofs.Template.Preparation

/-!
# Comments

A comment begins at the first opener of a text and ends at the first closer behind it that does not
overlap with it. It goes with the tabs before it and the newlines after it, and what follows is
looked over by itself. `Commented` takes a text apart in this way; there is one way to do so for
every text, and what is left of the text is what stands between its comments
(`Source.cutComments_eq_leads`).
-/

set_option autoImplicit false

namespace Stencil

namespace Bytes

/-! ## The first of several marks -/

variable {mark s before after : Bytes}

/-- A text with a mark in it is broken there or earlier, so that what follows the mark follows the
break. -/
theorem exists_breakOn (hmark : mark ≠ []) (lead rest : Bytes) :
    ∃ before after, breakOn mark (lead ++ mark ++ rest) = some (before, after) ∧
      rest <:+ after := by
  induction lead with
  | nil =>
    obtain ⟨first, more, rfl⟩ := List.exists_cons_of_ne_nil hmark
    have hstarts : (first :: more).isPrefixOf (first :: (more ++ rest)) = true :=
      List.isPrefixOf_iff_prefix.mpr ⟨rest, rfl⟩
    rw [List.nil_append, List.cons_append, breakOn, if_pos hstarts]
    exact ⟨_, _, rfl, by simp⟩
  | cons b lead ih =>
    obtain ⟨before, after, hbreak, hsuffix⟩ := ih
    rw [List.cons_append, List.cons_append, breakOn, hbreak]
    by_cases hstarts : mark.isPrefixOf (b :: (lead ++ mark ++ rest)) = true
    · rw [if_pos hstarts]
      refine ⟨_, _, rfl, ?_⟩
      have hrest : rest <:+ b :: (lead ++ mark ++ rest) := ⟨b :: (lead ++ mark), by simp⟩
      -- The whole text is no shorter than its first mark and what follows the other one.
      refine List.suffix_of_suffix_length_le hrest (List.drop_suffix _ _) ?_
      simp
      omega
    · rw [if_neg hstarts]
      exact ⟨_, _, rfl, hsuffix⟩

/-- What stands before a break holds no mark. -/
theorem not_isInfix_of_breakOn (hmark : mark ≠ []) (h : breakOn mark s = some (before, after)) :
    ¬mark <:+: before := by
  rintro ⟨lead, rest, rfl⟩
  obtain ⟨before, later, hbreak, hsuffix⟩ := exists_breakOn hmark lead (rest ++ mark ++ after)
  have hsame : s = lead ++ mark ++ (rest ++ mark ++ after) := by
    rw [eq_append_of_breakOn h]
    simp only [List.append_assoc]
  rw [← hsame, h] at hbreak
  obtain rfl : after = later := congrArg Prod.snd (Option.some.inj hbreak)
  have hlength := hsuffix.length_le
  have hpos := List.length_pos_iff.mpr hmark
  simp only [List.length_append] at hlength
  omega

/-- A text is passed over up to a mark of two different bytes when it does not hold the mark, which
cannot overlap with itself. -/
theorem breakOn_pair {a b : UInt8} (hne : a ≠ b) (h : ¬[a, b] <:+: before) (after : Bytes) :
    breakOn [a, b] (before ++ [a, b] ++ after) = some (before, after) := by
  apply breakOn_append _ _ after (by simp)
  intro index hindex hstarts
  have hinside : before.drop index <:+: before := (List.drop_suffix index before).isInfix
  cases hdrop : before.drop index with
  | nil =>
    rw [List.drop_eq_nil_iff] at hdrop
    omega
  | cons first rest =>
    rw [hdrop] at hstarts hinside
    obtain ⟨rfl, hsecond⟩ := List.cons_prefix_cons.mp hstarts
    cases rest with
    | nil => exact hne (List.cons_prefix_cons.mp hsecond).1.symm
    | cons second rest =>
      obtain ⟨rfl, -⟩ := List.cons_prefix_cons.mp hsecond
      exact h (List.IsInfix.trans ⟨[], rest, rfl⟩ hinside)

/-! ## Runs of one byte -/

/-- A text is a text that does not end in a given byte, and a run of that byte. -/
theorem exists_append_replicate (b : UInt8) (s : Bytes) :
    ∃ lead count, s = lead ++ List.replicate count b ∧ lead.getLast? ≠ some b := by
  induction s using List.reverseRecOn with
  | nil => exact ⟨[], 0, rfl, by simp⟩
  | append_singleton s last ih =>
    by_cases hlast : last = b
    · obtain ⟨lead, count, rfl, hlead⟩ := ih
      exact ⟨lead, count + 1, by rw [List.replicate_succ', List.append_assoc, hlast], hlead⟩
    · exact ⟨s ++ [last], 0, by simp, by simpa using hlast⟩

/-- Bytes at the end of a text are dropped up to the first other one. -/
theorem dropEndWhile_append_replicate {b : UInt8} {lead : Bytes} (h : lead.getLast? ≠ some b)
    (count : Nat) : dropEndWhile (· == b) (lead ++ List.replicate count b) = lead := by
  rw [dropEndWhile_append_of_all fun c hmem => by simp [List.eq_of_mem_replicate hmem]]
  refine List.rdropWhile_eq_self_iff.mpr fun hne hlast => h ?_
  rw [List.getLast?_eq_getLast_of_ne_nil hne, beq_iff_eq.mp hlast]

/-- A text is a run of a given byte, and a text that does not begin with that byte. -/
theorem exists_replicate_append (b : UInt8) (s : Bytes) :
    ∃ count rest, s = List.replicate count b ++ rest ∧ rest.head? ≠ some b := by
  induction s with
  | nil => exact ⟨0, [], rfl, by simp⟩
  | cons first s ih =>
    by_cases hfirst : first = b
    · obtain ⟨count, rest, rfl, hrest⟩ := ih
      exact ⟨count + 1, rest, by rw [List.replicate_succ, hfirst]; rfl, hrest⟩
    · exact ⟨0, first :: s, rfl, by simpa using hfirst⟩

/-- Bytes at the start of a text are dropped up to the first other one. -/
theorem dropWhile_replicate_append {b : UInt8} {rest : Bytes} (h : rest.head? ≠ some b)
    (count : Nat) : (List.replicate count b ++ rest).dropWhile (· == b) = rest := by
  rw [List.dropWhile_append_of_pos fun c hmem => by simp [List.eq_of_mem_replicate hmem]]
  cases rest with
  | nil => rfl
  | cons first rest => exact List.dropWhile_cons_of_neg (by simpa using h)

end Bytes

namespace Source

/-! ## One comment -/

/-- A text is cut at its first comment. -/
theorem cutComments_comment {before inside : Bytes} (hbefore : ¬commentOpener <:+: before)
    (hinside : ¬commentCloser <:+: inside) (after : Bytes) :
    cutComments (before ++ commentOpener ++ inside ++ commentCloser ++ after) =
      Bytes.dropEndWhile (· == Byte.tab) before ++
        cutComments (after.dropWhile (· == Byte.newline)) := by
  have hopen := Bytes.breakOn_pair (by decide) hbefore (inside ++ commentCloser ++ after)
  have hclose := Bytes.breakOn_pair (by decide) hinside after
  rw [← cutComments_of_breakOn hopen hclose]
  simp only [commentOpener, List.append_assoc]

/-- There is a comment in a text: an opener and a closer somewhere behind it. -/
def HoldsComment (text : Bytes) : Prop :=
  ∃ before inside after, text = before ++ commentOpener ++ inside ++ commentCloser ++ after

/-- A text without a comment is left as it is. -/
theorem cutComments_of_not_holdsComment {text : Bytes} (h : ¬HoldsComment text) :
    cutComments text = text := by
  cases hopen : Bytes.breakOn commentOpener text with
  | none => exact cutComments_of_none hopen
  | some parts =>
    obtain ⟨before, afterOpener⟩ := parts
    cases hclose : Bytes.breakOn commentCloser afterOpener with
    | none => exact cutComments_of_unclosed hopen hclose
    | some parts =>
      obtain ⟨inside, after⟩ := parts
      refine absurd ⟨before, inside, after, ?_⟩ h
      rw [Bytes.eq_append_of_breakOn hopen, Bytes.eq_append_of_breakOn hclose]
      simp only [List.append_assoc]

/-! ## All comments -/

/-- The first comment of a text and what stands before it: a text that is kept, and the tabs and
newlines around the comment that go with it. -/
@[ext]
structure Comment where
  lead : Bytes
  tabs : Nat
  inside : Bytes
  newlines : Nat
  /-- All tabs before the comment go with it. -/
  lead_ne_tab : lead.getLast? ≠ some Byte.tab
  /-- No comment opens earlier. -/
  opener : ¬commentOpener <:+: lead ++ List.replicate tabs Byte.tab
  /-- The comment does not close earlier. -/
  closer : ¬commentCloser <:+: inside

namespace Comment

/-- What stands before the opener. -/
def before (comment : Comment) : Bytes := comment.lead ++ List.replicate comment.tabs Byte.tab

/-- The comment with all that goes with it, what stands before it, and what follows. -/
def followedBy (comment : Comment) (text : Bytes) : Bytes :=
  comment.before ++ commentOpener ++ comment.inside ++ commentCloser ++
    (List.replicate comment.newlines Byte.newline ++ text)

/-- The tabs before a comment are dropped. -/
theorem dropEndWhile_before (comment : Comment) :
    Bytes.dropEndWhile (· == Byte.tab) comment.before = comment.lead :=
  Bytes.dropEndWhile_append_replicate comment.lead_ne_tab comment.tabs

/-- A text with a comment in it holds one. -/
theorem holdsComment (comment : Comment) (text : Bytes) : HoldsComment (comment.followedBy text) :=
  ⟨_, _, _, rfl⟩

/-- The comment is found where it is. -/
theorem breakOn_followedBy (comment : Comment) (text : Bytes) :
    Bytes.breakOn commentOpener (comment.followedBy text) =
        some (comment.before, comment.inside ++ commentCloser ++
          (List.replicate comment.newlines Byte.newline ++ text)) ∧
      Bytes.breakOn commentCloser (comment.inside ++ commentCloser ++
          (List.replicate comment.newlines Byte.newline ++ text)) =
        some (comment.inside, List.replicate comment.newlines Byte.newline ++ text) := by
  refine ⟨?_, Bytes.breakOn_pair (by decide) comment.closer _⟩
  rw [followedBy, List.append_assoc, List.append_assoc _ comment.inside,
    ← List.append_assoc comment.inside]
  exact Bytes.breakOn_pair (by decide) comment.opener _

/-- Cutting a comment leaves what stands before it, without the tabs, and goes on after it. -/
theorem cutComments_followedBy (comment : Comment) {text : Bytes}
    (htext : text.head? ≠ some Byte.newline) :
    cutComments (comment.followedBy text) = comment.lead ++ cutComments text := by
  obtain ⟨hopen, hclose⟩ := comment.breakOn_followedBy text
  rw [cutComments_of_breakOn hopen hclose, dropEndWhile_before,
    Bytes.dropWhile_replicate_append htext]

/-- A text has one first comment. -/
theorem eq_of_followedBy_eq {comment other : Comment} {text text' : Bytes}
    (htext : text.head? ≠ some Byte.newline) (htext' : text'.head? ≠ some Byte.newline)
    (h : comment.followedBy text = other.followedBy text') : comment = other ∧ text = text' := by
  obtain ⟨hopen, hclose⟩ := comment.breakOn_followedBy text
  obtain ⟨hopen', hclose'⟩ := other.breakOn_followedBy text'
  rw [h, hopen', Option.some.injEq, Prod.mk.injEq] at hopen
  obtain ⟨hbefore, hafter⟩ := hopen
  rw [← hafter, hclose', Option.some.injEq, Prod.mk.injEq] at hclose
  obtain ⟨hinside, hnewlines⟩ := hclose
  have hlead : other.lead = comment.lead := by
    rw [← dropEndWhile_before, ← dropEndWhile_before, hbefore]
  obtain rfl : text' = text := by
    have hdrop := congrArg (List.dropWhile (· == Byte.newline)) hnewlines
    rwa [Bytes.dropWhile_replicate_append htext, Bytes.dropWhile_replicate_append htext'] at hdrop
  have htabs := congrArg List.length hbefore
  have hcount := congrArg List.length hnewlines
  simp only [before, hlead, List.length_append, List.length_replicate] at htabs hcount
  exact ⟨Comment.ext hlead.symm (by omega) hinside.symm (by omega), rfl⟩

end Comment

/-- A text that holds a comment has a first one. -/
theorem exists_followedBy {text : Bytes} (h : HoldsComment text) :
    ∃ (comment : Comment) (after : Bytes), after.head? ≠ some Byte.newline ∧
      text = comment.followedBy after := by
  obtain ⟨earlier, middle, rest, htext⟩ := h
  obtain ⟨before, afterOpener, hopen, skipped, rfl⟩ :=
    Bytes.exists_breakOn (show commentOpener ≠ [] by decide) earlier
      (middle ++ commentCloser ++ rest)
  obtain ⟨inside, afterCloser, hclose, -⟩ :=
    Bytes.exists_breakOn (show commentCloser ≠ [] by decide) (skipped ++ middle) rest
  obtain ⟨lead, tabs, hbefore, hlead⟩ := Bytes.exists_append_replicate Byte.tab before
  obtain ⟨newlines, after, hafter, hnewline⟩ :=
    Bytes.exists_replicate_append Byte.newline afterCloser
  let comment : Comment :=
    { lead, tabs, inside, newlines
      lead_ne_tab := hlead
      opener := hbefore ▸ Bytes.not_isInfix_of_breakOn (by decide) hopen
      closer := Bytes.not_isInfix_of_breakOn (by decide) hclose }
  refine ⟨comment, after, hnewline, ?_⟩
  have hopened := Bytes.eq_append_of_breakOn hopen
  have hclosed := Bytes.eq_append_of_breakOn hclose
  simp only [List.append_assoc] at htext hopened hclosed
  rw [htext, hopened, hclosed, hafter, hbefore]
  simp only [comment, Comment.followedBy, Comment.before, List.append_assoc]

/-- A text consists of comments, each the first one in what follows the one before, with what stands
before them, and of a rest without a comment. -/
inductive Commented : List Comment → Bytes → Bytes → Prop
  | rest {rest : Bytes} (hrest : ¬HoldsComment rest) : Commented [] rest rest
  | comment {comment : Comment} {comments : List Comment} {rest text : Bytes}
    (htext : text.head? ≠ some Byte.newline) (hmore : Commented comments rest text) :
    Commented (comment :: comments) rest (comment.followedBy text)

namespace Commented

variable {comments others : List Comment} {rest rest' text : Bytes}

/-- What is left of a text when its comments are cut. -/
theorem cutComments_eq (h : Commented comments rest text) :
    cutComments text = comments.flatMap Comment.lead ++ rest := by
  induction h with
  | rest hrest => exact cutComments_of_not_holdsComment hrest
  | comment htext hmore ih =>
    rw [Comment.cutComments_followedBy _ htext, ih, List.flatMap_cons, List.append_assoc]

/-- There is one way to take a text apart at its comments. -/
theorem unique (h : Commented comments rest text) (h' : Commented others rest' text) :
    comments = others ∧ rest = rest' := by
  induction h generalizing others rest' with
  | rest hrest =>
    cases h' with
    | rest => exact ⟨rfl, rfl⟩
    | comment => exact absurd (Comment.holdsComment _ _) hrest
  | comment htext hmore ih =>
    generalize hwhole : Comment.followedBy _ _ = whole at h'
    cases h' with
    | rest hrest => exact absurd (hwhole ▸ Comment.holdsComment _ _) hrest
    | comment htext' hmore' =>
      obtain ⟨rfl, rfl⟩ := Comment.eq_of_followedBy_eq htext htext' hwhole
      obtain ⟨rfl, rfl⟩ := ih hmore'
      exact ⟨rfl, rfl⟩

end Commented

/-- Every text can be taken apart at its comments. -/
theorem exists_commented (text : Bytes) : ∃ comments rest, Commented comments rest text := by
  induction hn : text.length using Nat.strongRecOn generalizing text with
  | ind n ih =>
    by_cases hholds : HoldsComment text
    · obtain ⟨comment, after, hafter, rfl⟩ := exists_followedBy hholds
      have hshort : after.length < n := by
        rw [← hn]
        simp only [Comment.followedBy, List.length_append, commentOpener, List.length_cons]
        omega
      obtain ⟨comments, rest, hmore⟩ := ih _ hshort after rfl
      exact ⟨comment :: comments, rest, .comment hafter hmore⟩
    · exact ⟨[], text, .rest hholds⟩

/-- Comments are cut exactly. A text up to a comment is kept without the tabs at its end, and what
follows the comment is cut without the newlines at its start; a text without a comment is kept. So
there is one way to take any text apart at its comments, each of which opens at the first opener
and closes at the first closer behind it, with all tabs before it and all newlines after it; and all
that is left of the text, in order, is what stands between them and the rest. -/
theorem cutComments_eq_leads :
    (∀ before inside after : Bytes, ¬commentOpener <:+: before → ¬commentCloser <:+: inside →
      cutComments (before ++ commentOpener ++ inside ++ commentCloser ++ after) =
        Bytes.dropEndWhile (· == Byte.tab) before ++
          cutComments (after.dropWhile (· == Byte.newline))) ∧
    (∀ text, ¬HoldsComment text → cutComments text = text) ∧
    ∀ text, ∃ comments rest, Commented comments rest text ∧
      (∀ others rest', Commented others rest' text → others = comments ∧ rest' = rest) ∧
      cutComments text = comments.flatMap Comment.lead ++ rest := by
  refine ⟨fun before inside after hbefore hinside => cutComments_comment hbefore hinside after,
    fun text => cutComments_of_not_holdsComment, fun text => ?_⟩
  obtain ⟨comments, rest, h⟩ := exists_commented text
  exact ⟨comments, rest, h, fun others rest' h' => h'.unique h, h.cutComments_eq⟩

/-- The marks of a comment do not overlap, tabs go with a comment whatever they follow, and an
opener that is not closed is no comment. -/
theorem cutComments_marked :
    cutComments (ascii "a\t" ++ commentOpener ++ [Byte.closeBrace] ++ commentCloser ++
      (ascii "\n\n\t" ++ commentOpener ++ [] ++ commentCloser ++
        (ascii "\tb" ++ commentOpener ++ [Byte.closeBrace]))) =
      ascii "a\tb" ++ commentOpener ++ [Byte.closeBrace] := by
  obtain ⟨hcomment, hfree, -⟩ := cutComments_eq_leads
  have hunclosed : ¬HoldsComment (ascii "\tb" ++ commentOpener ++ [Byte.closeBrace]) := by
    intro hholds
    obtain ⟨comment, after, -, htext⟩ := exists_followedBy hholds
    obtain ⟨hopen, hclose⟩ := comment.breakOn_followedBy after
    have hinside : Bytes.breakOn commentOpener (comment.followedBy after) =
        some (ascii "\tb", [Byte.closeBrace]) := by rw [← htext]; rfl
    rw [hinside, Option.some.injEq, Prod.mk.injEq] at hopen
    rw [← hopen.2] at hclose
    cases hclose
  have hsecond : cutComments (ascii "\t" ++ commentOpener ++ [] ++ commentCloser ++
      (ascii "\tb" ++ commentOpener ++ [Byte.closeBrace])) =
        ascii "\tb" ++ commentOpener ++ [Byte.closeBrace] :=
    (hcomment _ _ _ (by decide) (by decide)).trans (hfree _ hunclosed)
  exact (hcomment _ _ _ (by decide) (by decide)).trans (congrArg (ascii "a" ++ ·) hsecond)

end Source

end Stencil
