import Stencil.Bytes.Basic

/-!
# Segments

The scanner cuts a source into stretches of raw text and regions of markup. A region keeps the
offset at which it opens; a region that is never closed ends the scan. The main statement: the
segments of a source without an open region, written out again, are the source.
-/

set_option autoImplicit false

namespace Stencil

/-- A stretch of a source: text or a region. -/
inductive Segment where
  /-- Raw text, never empty. -/
  | text (raw : Bytes)
  /-- A region that opens at an offset, and what it encloses. -/
  | region (offset : Nat) (inside : Bytes)
  /-- A region that opens at an offset and is never closed. -/
  | unclosed (offset : Nat)
  deriving DecidableEq, Repr

namespace Segment

/-- What opens a region. -/
def opener : Bytes := [Byte.openBrace, Byte.percent]

/-- What closes a region. -/
def closer : Bytes := [Byte.percent, Byte.closeBrace]

/-- A raw text as a segment, unless it is empty. -/
def ofText (raw : Bytes) : List Segment := if raw.isEmpty then [] else [.text raw]

/-- The segments of the part of a source that begins at an offset. -/
def scanFrom (offset : Nat) (s : Bytes) : List Segment :=
  match _ : Bytes.breakOn opener s with
  | none => ofText s
  | some (raw, afterOpener) =>
    let start := offset + raw.length
    match _ : Bytes.breakOn closer afterOpener with
    | none => ofText raw ++ [.unclosed start]
    | some (inside, after) =>
      ofText raw ++ .region start inside ::
        scanFrom (start + opener.length + inside.length + closer.length) after
termination_by s.length
decreasing_by
  have hcloser := Bytes.length_after_lt (by decide) ‹Bytes.breakOn closer afterOpener = _›
  have hopener := Bytes.length_after_lt (by decide) ‹Bytes.breakOn opener s = _›
  omega

/-- The stretches of a source, from left to right. -/
def scan (source : Bytes) : List Segment := scanFrom 0 source

/-- The source text of a segment, as far as it was read. -/
def written : Segment → Bytes
  | text raw => raw
  | region _ inside => opener ++ inside ++ closer
  | unclosed _ => []

/-- Whether a segment is a closed region or raw text. -/
def isClosed : Segment → Bool
  | unclosed _ => false
  | _ => true

/-- A raw text is written out as it is. -/
theorem flatMap_written_ofText (raw : Bytes) : (ofText raw).flatMap written = raw := by
  unfold ofText
  split
  · simp_all
  · simp [written]

/-- A source without an opener is raw text. -/
theorem scanFrom_of_none {offset : Nat} {s : Bytes} (hopen : Bytes.breakOn opener s = none) :
    scanFrom offset s = ofText s := by
  rw [scanFrom]
  split
  · rfl
  · simp_all

/-- Behind the end there is nothing. -/
@[simp] theorem scanFrom_nil (offset : Nat) : scanFrom offset [] = [] := scanFrom_of_none rfl

/-- A source whose first region is never closed. -/
theorem scanFrom_of_unclosed {offset : Nat} {s raw afterOpener : Bytes}
    (hopen : Bytes.breakOn opener s = some (raw, afterOpener))
    (hclose : Bytes.breakOn closer afterOpener = none) :
    scanFrom offset s = ofText raw ++ [.unclosed (offset + raw.length)] := by
  rw [scanFrom]
  split
  · simp_all
  · rename_i hopen'
    obtain ⟨rfl, rfl⟩ := Prod.mk.inj (Option.some.inj (hopen.symm.trans hopen'))
    split
    · rfl
    · simp_all

/-- A source that begins with raw text and a closed region. -/
theorem scanFrom_of_region {offset : Nat} {s raw afterOpener inside after : Bytes}
    (hopen : Bytes.breakOn opener s = some (raw, afterOpener))
    (hclose : Bytes.breakOn closer afterOpener = some (inside, after)) :
    scanFrom offset s = ofText raw ++ .region (offset + raw.length) inside ::
      scanFrom (offset + raw.length + opener.length + inside.length + closer.length) after := by
  rw [scanFrom]
  split
  · simp_all
  · rename_i hopen'
    obtain ⟨rfl, rfl⟩ := Prod.mk.inj (Option.some.inj (hopen.symm.trans hopen'))
    split
    · simp_all
    · rename_i hclose'
      obtain ⟨rfl, rfl⟩ := Prod.mk.inj (Option.some.inj (hclose.symm.trans hclose'))
      rfl

/-- The segments of a source, written out, are the source when every region is closed. -/
theorem flatMap_written_scanFrom (offset : Nat) (s : Bytes)
    (h : (scanFrom offset s).all isClosed = true) : (scanFrom offset s).flatMap written = s := by
  induction hn : s.length using Nat.strongRecOn generalizing offset s with
  | ind n ih =>
    cases hopen : Bytes.breakOn opener s with
    | none => rw [scanFrom_of_none hopen, flatMap_written_ofText]
    | some parts =>
      obtain ⟨raw, afterOpener⟩ := parts
      cases hclose : Bytes.breakOn closer afterOpener with
      | none =>
        rw [scanFrom_of_unclosed hopen hclose] at h
        simp [isClosed] at h
      | some parts =>
        obtain ⟨inside, after⟩ := parts
        have hafter := Bytes.length_after_lt (by decide) hclose
        have hrest := Bytes.length_after_lt (by decide) hopen
        rw [scanFrom_of_region hopen hclose] at h ⊢
        simp only [List.all_append, List.all_cons, Bool.and_eq_true] at h
        rw [List.flatMap_append, flatMap_written_ofText, List.flatMap_cons,
          ih after.length (by omega) _ after h.2.2 rfl, Bytes.eq_append_of_breakOn hopen,
          Bytes.eq_append_of_breakOn hclose]
        simp [written]

end Segment

end Stencil
