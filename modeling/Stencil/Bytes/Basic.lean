/-!
# Byte texts

Templates, names and values are texts of bytes in no particular encoding. This file holds the type,
the byte classes that the markup distinguishes, and the cuts made everywhere else: stripping the
ends of a text, and breaking it at the first occurrence of a mark. The main statement says that a
break loses nothing: the two sides with the mark between them are the text.
-/

set_option autoImplicit false

namespace Stencil

/-- Texts are sequences of bytes; nothing is assumed of their encoding. -/
abbrev Bytes := List UInt8

/-- The bytes of a text written in ASCII. -/
def ascii (text : String) : Bytes := text.toList.map Char.toUInt8

namespace Byte

@[match_pattern] abbrev tab : UInt8 := 0x09
@[match_pattern] abbrev newline : UInt8 := 0x0a
@[match_pattern] abbrev carriageReturn : UInt8 := 0x0d
@[match_pattern] abbrev space : UInt8 := 0x20
@[match_pattern] abbrev doubleQuote : UInt8 := 0x22
@[match_pattern] abbrev percent : UInt8 := 0x25
@[match_pattern] abbrev ampersand : UInt8 := 0x26
@[match_pattern] abbrev apostrophe : UInt8 := 0x27
@[match_pattern] abbrev openParen : UInt8 := 0x28
@[match_pattern] abbrev closeParen : UInt8 := 0x29
@[match_pattern] abbrev plus : UInt8 := 0x2b
@[match_pattern] abbrev comma : UInt8 := 0x2c
@[match_pattern] abbrev minus : UInt8 := 0x2d
@[match_pattern] abbrev dot : UInt8 := 0x2e
@[match_pattern] abbrev colon : UInt8 := 0x3a
@[match_pattern] abbrev semicolon : UInt8 := 0x3b
@[match_pattern] abbrev lessThan : UInt8 := 0x3c
@[match_pattern] abbrev equals : UInt8 := 0x3d
@[match_pattern] abbrev greaterThan : UInt8 := 0x3e
@[match_pattern] abbrev openBracket : UInt8 := 0x5b
@[match_pattern] abbrev backslash : UInt8 := 0x5c
@[match_pattern] abbrev closeBracket : UInt8 := 0x5d
@[match_pattern] abbrev underscore : UInt8 := 0x5f
@[match_pattern] abbrev openBrace : UInt8 := 0x7b
@[match_pattern] abbrev bar : UInt8 := 0x7c
@[match_pattern] abbrev closeBrace : UInt8 := 0x7d

/-- The six blanks of ASCII: space, tab, newline, vertical tab, form feed, carriage return. -/
def isBlank (b : UInt8) : Bool := b == 0x20 || (0x09 ≤ b && b ≤ 0x0d)

/-- Whether a byte is a decimal digit. -/
def isDigit (b : UInt8) : Bool := 0x30 ≤ b && b ≤ 0x39

/-- Whether a byte is a letter of ASCII. -/
def isLetter (b : UInt8) : Bool := (0x41 ≤ b && b ≤ 0x5a) || (0x61 ≤ b && b ≤ 0x7a)

/-- Whether a byte is a letter or a digit of ASCII. -/
def isAlphanumeric (b : UInt8) : Bool := isLetter b || isDigit b

/-- The bytes of a word: letters, digits and the underscore. -/
def isWord (b : UInt8) : Bool := isAlphanumeric b || b == underscore

/-- The lower-case form of an ASCII letter; every other byte is left alone. -/
def toLower (b : UInt8) : UInt8 := if 0x41 ≤ b && b ≤ 0x5a then b + 0x20 else b

/-- The upper-case form of an ASCII letter; every other byte is left alone. -/
def toUpper (b : UInt8) : UInt8 := if 0x61 ≤ b && b ≤ 0x7a then b - 0x20 else b

/-- The value of a hexadecimal digit of either case. -/
def hexValue? (b : UInt8) : Option Nat :=
  if isDigit b then some (b.toNat - 0x30)
  else if 0x61 ≤ b && b ≤ 0x66 then some (b.toNat - 0x57)
  else if 0x41 ≤ b && b ≤ 0x46 then some (b.toNat - 0x37)
  else none

/-- The decimal digit of a value below ten. -/
def ofDigit (n : Nat) : UInt8 := (0x30 + n).toUInt8

/-- The lower-case hexadecimal digit of a value below sixteen. -/
def ofHexDigit (n : Nat) : UInt8 := if n < 10 then (0x30 + n).toUInt8 else (0x57 + n).toUInt8

end Byte

namespace Bytes

/-- Drops the longest run of bytes satisfying `p` at the end of a text. -/
def dropEndWhile (p : UInt8 → Bool) (s : Bytes) : Bytes := (s.reverse.dropWhile p).reverse

/-- Drops the bytes satisfying `p` at both ends of a text. -/
def stripWhile (p : UInt8 → Bool) (s : Bytes) : Bytes := dropEndWhile p (s.dropWhile p)

/-- The part of a text up to its first NUL byte. -/
def untilNul (s : Bytes) : Bytes := s.takeWhile (· != 0)

/-- Drops the bytes of a set, and NUL bytes, at both ends of a text. The set is given by a text, up
to its first NUL byte. -/
def stripOf (s set : Bytes) : Bytes := stripWhile (fun b => b == 0 || set.untilNul.contains b) s

/-- Drops spaces, tabs, newlines, carriage returns and NUL bytes at both ends of a text. -/
def strip (s : Bytes) : Bytes := s.stripOf (ascii " \t\n\r")

/-- Whether a text begins with a given one. -/
def startsWith (s start : Bytes) : Bool := start.isPrefixOf s

/-- Drops the blanks at the start of a text. -/
def skipBlanks (s : Bytes) : Bytes := s.dropWhile Byte.isBlank

/-- Whether a text is a word: at least one byte, all of them word bytes. -/
def isWord (s : Bytes) : Bool := !s.isEmpty && s.all Byte.isWord

/-- The longest run of bytes satisfying `p` at the start of a text, and what follows it. -/
def readWhile (p : UInt8 → Bool) (s : Bytes) : Bytes × Bytes := (s.takeWhile p, s.dropWhile p)

/-- The text before the first occurrence of a non-empty mark and the text after it. -/
def breakOn (mark : Bytes) : Bytes → Option (Bytes × Bytes)
  | [] => none
  | b :: rest =>
    if mark.isPrefixOf (b :: rest) then some ([], (b :: rest).drop mark.length)
    else (breakOn mark rest).map fun (before, after) => (b :: before, after)

/-- Whether a mark stands somewhere in a text. -/
def occursIn (mark s : Bytes) : Bool := (breakOn mark s).isSome

/-- Whether a text stands before another in the order of their bytes. -/
def precedes : Bytes → Bytes → Bool
  | _, [] => false
  | [], _ :: _ => true
  | a :: s, b :: t => a < b || (a == b && precedes s t)

/-- No text stands before one that stands before it. -/
theorem precedes_asymm {s t : Bytes} (h : s.precedes t = true) : t.precedes s = false := by
  induction s generalizing t with
  | nil =>
    cases t with
    | nil => cases h
    | cons b t => rfl
  | cons a s ih =>
    cases t with
    | nil => cases h
    | cons b t =>
      simp only [precedes, Bool.or_eq_true, decide_eq_true_eq, Bool.and_eq_true, beq_iff_eq] at h
      simp only [precedes, Bool.or_eq_false_iff, decide_eq_false_iff_not, Bool.and_eq_false_iff,
        beq_eq_false_iff_ne]
      obtain hless | ⟨rfl, hrest⟩ := h
      · exact ⟨UInt8.lt_asymm hless, .inl (UInt8.ne_of_lt hless).symm⟩
      · exact ⟨UInt8.lt_irrefl a, .inr (ih hrest)⟩

/-- The two sides of a break, with the mark between them, are the text. -/
theorem eq_append_of_breakOn {mark s before after : Bytes}
    (h : breakOn mark s = some (before, after)) : s = before ++ mark ++ after := by
  induction s generalizing before with
  | nil => simp [breakOn] at h
  | cons b rest ih =>
    rw [breakOn] at h
    split at h
    · rename_i hmark
      obtain ⟨tail, htail⟩ := List.isPrefixOf_iff_prefix.1 hmark
      have hafter : after = (b :: rest).drop mark.length := by simp_all
      have hbefore : before = [] := by simp_all
      rw [hafter, hbefore, ← htail]
      simp
    · obtain ⟨⟨front, back⟩, hrest, heq⟩ := Option.map_eq_some_iff.1 h
      have hfront : before = b :: front := (Prod.mk.inj heq).1.symm
      have hback : back = after := (Prod.mk.inj heq).2
      subst hback
      rw [hfront, ih hrest]
      simp

/-- What follows a non-empty mark is shorter than the text. -/
theorem length_after_lt {mark s before after : Bytes} (hmark : mark ≠ [])
    (h : breakOn mark s = some (before, after)) : after.length < s.length := by
  have hlen := congrArg List.length (eq_append_of_breakOn h)
  have hpos := List.length_pos_iff.2 hmark
  simp only [List.length_append] at hlen
  omega

/-- A text whose bytes are written one after another is read back by a reader that reads what one
byte is written as and goes on behind it. -/
theorem decode_flatMap {read : Bytes → Bytes} {write : UInt8 → Bytes} (hnil : read [] = [])
    (hwrite : ∀ b rest, read (write b ++ rest) = b :: read rest) (s : Bytes) :
    read (s.flatMap write) = s := by
  induction s with
  | nil => exact hnil
  | cons b rest ih => rw [List.flatMap_cons, hwrite, ih]

/-- Dropping a leading run never lengthens a text. -/
theorem length_dropWhile_le (p : UInt8 → Bool) (s : Bytes) : (s.dropWhile p).length ≤ s.length :=
  (List.dropWhile_suffix p).length_le

end Bytes

end Stencil
