import Stencil.Bytes.Basic

/-!
# UTF-8

Whether a byte text is well-formed UTF-8, and its repair: each maximal malformed run becomes one
replacement character. Both read byte by byte with one state, which says how many bytes of the
current character are owed and between which bounds the next one lies. The main statement says that
a well-formed text is its own repair.
-/

set_option autoImplicit false

namespace Stencil

namespace Utf8

/-- What the character being read still needs: nothing between characters. -/
structure Owed where
  count : Nat := 0
  least : UInt8 := 0x80
  greatest : UInt8 := 0xbf
  deriving DecidableEq, Repr

/-- Between two characters nothing is owed. -/
def Owed.nothing : Owed := {}

/-- What follows the first byte of a character. -/
def lead? (b : UInt8) : Option Owed :=
  if b < 0x80 then some .nothing
  else if b < 0xc2 then none
  else if b < 0xe0 then some { count := 1 }
  else if b == 0xe0 then some { count := 2, least := 0xa0 }
  else if b == 0xed then some { count := 2, greatest := 0x9f }
  else if b < 0xf0 then some { count := 2 }
  else if b == 0xf0 then some { count := 3, least := 0x90 }
  else if b < 0xf4 then some { count := 3 }
  else if b == 0xf4 then some { count := 3, greatest := 0x8f }
  else none

/-- What is owed after one more byte, unless it cannot stand there. -/
def step? (owed : Owed) (b : UInt8) : Option Owed :=
  if owed.count == 0 then lead? b
  else if owed.least ≤ b && b ≤ owed.greatest then some { count := owed.count - 1 }
  else none

/-- Whether a text completes the character being read and goes on in whole characters. -/
def isValidFrom : Owed → Bytes → Bool
  | owed, [] => owed.count == 0
  | owed, b :: rest =>
    match step? owed b with
    | some next => isValidFrom next rest
    | none => false

/-- Whether a text is UTF-8. -/
def isValid (s : Bytes) : Bool := isValidFrom .nothing s

/-- The bytes of a code point below `0x110000`. -/
def encode (point : Nat) : Bytes :=
  let tail (weight : Nat) : UInt8 := (0x80 + point / weight % 0x40).toUInt8
  if point < 0x80 then [point.toUInt8]
  else if point < 0x800 then [(0xc0 + point / 0x40).toUInt8, tail 1]
  else if point < 0x10000 then [(0xe0 + point / 0x1000).toUInt8, tail 0x40, tail 1]
  else [(0xf0 + point / 0x40000).toUInt8, tail 0x1000, tail 0x40, tail 1]

/-- The character that takes the place of what is no character. -/
def replacement : Bytes := encode 0xfffd

/-- Repairs a text whose bytes `pending` have begun the character being read. -/
def repairFrom : Owed → Bytes → Bytes → Bytes
  | _, pending, [] => if pending.isEmpty then [] else replacement
  | owed, pending, b :: rest =>
    match step? owed b with
    | some next =>
      if next.count == 0 then pending ++ b :: repairFrom .nothing [] rest
      else repairFrom next (pending ++ [b]) rest
    | none =>
      if pending.isEmpty then replacement ++ repairFrom .nothing [] rest
      else
        match lead? b with
        | some next =>
          if next.count == 0 then replacement ++ b :: repairFrom .nothing [] rest
          else replacement ++ repairFrom next [b] rest
        | none => replacement ++ (replacement ++ repairFrom .nothing [] rest)

/-- Puts one replacement character for each maximal malformed run of a text. -/
def repair (s : Bytes) : Bytes := repairFrom .nothing [] s

/-- After a first byte, what is owed restricts the next byte only while something is owed. -/
theorem eq_nothing_of_step? {owed next : Owed} {b : UInt8} (h : step? owed b = some next)
    (hcount : next.count = 0) : next = .nothing := by
  unfold step? at h
  split at h
  · unfold lead? at h
    repeat' split at h
    all_goals first | (cases h; rfl) | (cases h; simp at hcount) | cases h
  · split at h
    · cases h
      simp_all [Owed.nothing]
    · cases h

/-- A text that completes the character being read is repaired to itself. -/
theorem repairFrom_of_isValidFrom {owed : Owed} {s : Bytes} (pending : Bytes)
    (h : isValidFrom owed s = true) (hpending : pending = [] ∨ owed.count ≠ 0) :
    repairFrom owed pending s = pending ++ s := by
  induction s generalizing owed pending with
  | nil => simp_all [isValidFrom, repairFrom]
  | cons b rest ih =>
    rw [isValidFrom] at h
    rw [repairFrom]
    cases hstep : step? owed b with
    | none => simp [hstep] at h
    | some next =>
      simp only [hstep] at h ⊢
      by_cases hcount : next.count = 0
      · have hnext := eq_nothing_of_step? hstep hcount
        subst hnext
        have := ih [] h (.inl rfl)
        simp_all
      · have := ih (pending ++ [b]) h (.inr hcount)
        simp_all

/-- A text that is UTF-8 needs no repair. -/
theorem repair_of_isValid {s : Bytes} (h : isValid s = true) : repair s = s :=
  repairFrom_of_isValidFrom [] h (.inl rfl)

end Utf8

end Stencil
