import Stencil.Bytes.Basic

/-!
# Quoted literals

A literal stands between two equal quotes, single or double. Inside, a backslash gives the byte
after it, where `n`, `r` and `t` stand for newline, carriage return and tab. Writing a literal
protects the backslash, the double quote, and the two bytes that could end a markup region or a
comment. The main statement: reading what was written gives the text back.
-/

set_option autoImplicit false

namespace Stencil

namespace Quoted

/-- The byte that a backslash and a given byte stand for. -/
def unescapeByte (b : UInt8) : UInt8 :=
  if b == 0x6e then Byte.newline
  else if b == 0x72 then Byte.carriageReturn
  else if b == 0x74 then Byte.tab
  else b

/-- The text that the inside of a literal stands for; a backslash at its very end is kept. -/
def unescape : Bytes → Bytes
  | [] => []
  | [b] => [b]
  | b :: c :: rest =>
    if b == Byte.backslash then unescapeByte c :: unescape rest else b :: unescape (c :: rest)

/-- The text of a literal, or nothing when the text is not enclosed in a pair of equal quotes. -/
def decode? : Bytes → Option Bytes
  | [] => none
  | q :: rest =>
    if (q == Byte.doubleQuote || q == Byte.apostrophe) && rest.getLast? == some q then
      some (unescape rest.dropLast)
    else none

/-- What begins with no quote is no literal. -/
theorem decode?_cons_eq_none {first : UInt8}
    (h : first ≠ Byte.doubleQuote ∧ first ≠ Byte.apostrophe) (rest : Bytes) :
    decode? (first :: rest) = none := by
  simp [decode?, h]

/-- A literal is a quote, the inside that is read, and the quote again. -/
theorem decode?_eq_some_iff {t text : Bytes} :
    decode? t = some text ↔ ∃ quote ∈ [Byte.doubleQuote, Byte.apostrophe], ∃ inside,
      t = quote :: (inside ++ [quote]) ∧ unescape inside = text := by
  constructor
  · intro h
    unfold decode? at h
    split at h
    · cases h
    · rename_i quote rest
      split at h
      · rename_i hquotes
        simp only [Bool.and_eq_true, Bool.or_eq_true, beq_iff_eq] at hquotes
        obtain ⟨hquote, hlast⟩ := hquotes
        obtain ⟨inside, rfl⟩ := List.getLast?_eq_some_iff.mp hlast
        rw [List.dropLast_concat] at h
        exact ⟨quote, by simpa using hquote, inside, rfl, Option.some.inj h⟩
      · cases h
  · rintro ⟨quote, hquote, inside, rfl, rfl⟩
    have hquotes : (quote == Byte.doubleQuote || quote == Byte.apostrophe) = true := by
      simpa using hquote
    rw [decode?, hquotes, List.getLast?_concat, if_pos (by simp), List.dropLast_concat]

/-- The text of a clause: what a literal holds, or the stripped text itself when it is not one. -/
def literalOrText (s : Bytes) : Bytes := (decode? s.strip).getD s.strip

/-- How one byte is written inside a literal. -/
def escapeByte (b : UInt8) : Bytes :=
  if b == Byte.newline then [Byte.backslash, 0x6e]
  else if b == Byte.carriageReturn then [Byte.backslash, 0x72]
  else if b == Byte.tab then [Byte.backslash, 0x74]
  else if b == Byte.backslash || b == Byte.doubleQuote || b == Byte.closeBrace || b == 0x23 then
    [Byte.backslash, b]
  else [b]

/-- The inside of the literal of a text. -/
def escape (s : Bytes) : Bytes := s.flatMap escapeByte

/-- The literal of a text, in double quotes. -/
def encode (s : Bytes) : Bytes := Byte.doubleQuote :: escape s ++ [Byte.doubleQuote]

/-- Reading the escape of a byte gives the byte and goes on after it. -/
theorem unescape_escapeByte (b : UInt8) (rest : Bytes) :
    unescape (escapeByte b ++ rest) = b :: unescape rest := by
  unfold escapeByte
  split
  · simp_all [unescape, unescapeByte]
  split
  · simp_all [unescape, unescapeByte]
  split
  · simp_all [unescape, unescapeByte]
  split
  · rename_i hmark
    have hkept : unescapeByte b = b := by
      rcases (by simpa using hmark) with ((h | h) | h) | h <;> subst h <;> decide
    simp [unescape, hkept]
  · cases rest with
    | nil => simp [unescape]
    | cons c rest => simp_all [unescape]

/-- Escaping loses nothing: taking the escapes off again gives the text back. -/
theorem unescape_escape (s : Bytes) : unescape (escape s) = s :=
  Bytes.decode_flatMap rfl unescape_escapeByte s

/-- Reading the literal of a text gives the text. -/
theorem decode?_encode (s : Bytes) : decode? (encode s) = some s := by
  simp [decode?, encode, unescape_escape]

end Quoted

end Stencil
