import Stencil.Bytes.Basic

/-!
# Template sources

What a template text goes through before it is scanned: comments are cut out, and, unless the
formatting is to be kept, line breaks are folded away together with the blanks after them. The main
statement gives the cut of one comment: the tabs before it and the newlines after it go with it.
-/

set_option autoImplicit false

namespace Stencil

namespace Source

/-- What opens a comment. -/
def commentOpener : Bytes := [Byte.openBrace, 0x23]

/-- What closes a comment. -/
def commentCloser : Bytes := [0x23, Byte.closeBrace]

/-- Cuts out every comment, with the tabs before it and the newlines after it. -/
def cutComments (s : Bytes) : Bytes :=
  match _ : Bytes.breakOn commentOpener s with
  | none => s
  | some (before, afterOpener) =>
    match _ : Bytes.breakOn commentCloser afterOpener with
    | none => s
    | some (_, after) =>
      Bytes.dropEndWhile (· == Byte.tab) before ++
        cutComments (after.dropWhile (· == Byte.newline))
termination_by s.length
decreasing_by
  have hdrop := Bytes.length_dropWhile_le (· == Byte.newline) after
  have hcloser := Bytes.length_after_lt (by decide) ‹Bytes.breakOn commentCloser afterOpener = _›
  have hopener := Bytes.length_after_lt (by decide) ‹Bytes.breakOn commentOpener s = _›
  omega

/-- Takes out every newline together with all blanks after it. -/
def foldLines : Bytes → Bytes
  | [] => []
  | b :: rest =>
    if b == Byte.newline then foldLines (rest.dropWhile Byte.isBlank) else b :: foldLines rest
termination_by s => s.length
decreasing_by
  · have hdrop := Bytes.length_dropWhile_le Byte.isBlank rest
    simp only [List.length_cons]
    omega
  · simp

/-- The source that is scanned: without comments, and, unless the formatting is kept, without line
breaks and without blanks at its ends. -/
def prepare (keepFormatting : Bool) (text : Bytes) : Bytes :=
  let source := cutComments text
  if keepFormatting then source else (foldLines source).stripOf (ascii " \t\n")

/-- A source without a comment is left as it is. -/
theorem cutComments_of_none {s : Bytes} (hopen : Bytes.breakOn commentOpener s = none) :
    cutComments s = s := by
  rw [cutComments]
  split
  · rfl
  · simp_all

/-- A source whose first comment is never closed is left as it is. -/
theorem cutComments_of_unclosed {s before afterOpener : Bytes}
    (hopen : Bytes.breakOn commentOpener s = some (before, afterOpener))
    (hclose : Bytes.breakOn commentCloser afterOpener = none) : cutComments s = s := by
  rw [cutComments]
  split
  · rfl
  · rename_i hopen'
    have hparts := Option.some.inj (hopen.symm.trans hopen')
    obtain ⟨rfl, rfl⟩ := Prod.mk.inj hparts
    split
    · rfl
    · simp_all

/-- A source with a comment goes on behind the newlines after that comment, and loses the tabs
before it. -/
theorem cutComments_of_breakOn {s before afterOpener inside after : Bytes}
    (hopen : Bytes.breakOn commentOpener s = some (before, afterOpener))
    (hclose : Bytes.breakOn commentCloser afterOpener = some (inside, after)) :
    cutComments s = Bytes.dropEndWhile (· == Byte.tab) before ++
      cutComments (after.dropWhile (· == Byte.newline)) := by
  rw [cutComments]
  split
  · simp_all
  · rename_i hopen'
    have hparts := Option.some.inj (hopen.symm.trans hopen')
    obtain ⟨rfl, rfl⟩ := Prod.mk.inj hparts
    split
    · simp_all
    · rename_i hclose'
      have hparts := Option.some.inj (hclose.symm.trans hclose')
      obtain ⟨rfl, rfl⟩ := Prod.mk.inj hparts
      rfl

end Source

end Stencil
