import Mathlib.Data.List.Basic
import Stencil.Text.Url

/-!
# URL encoding is read back

An encoded text is made of units: a byte that may stand for itself, or a percent sign with two
upper-case hexadecimal digits (`Url.IsEncoded`). A percent sign begins an escape wherever it stands
in one, also when it stood in the text, and an escape ends behind its second digit, whatever
follows, so that reading the escapes gives the text back (`Url.encode_faithful`).
-/

set_option autoImplicit false

namespace Stencil

namespace Url

/-- The digits that an escape is written with: decimal ones and the letters `A` to `F`. -/
def isEscapeDigit (b : UInt8) : Bool := Byte.isDigit b || (0x41 ≤ b && b ≤ 0x46)

/-- A text of letters, digits and four marks, and of percent signs with two digits each. -/
inductive IsEncoded : Bytes → Prop
  | nil : IsEncoded []
  | unreserved {b : UInt8} {rest : Bytes}
      (hb : Byte.isLetter b = true ∨ Byte.isDigit b = true ∨ b ∈ ascii "-_.~")
      (hrest : IsEncoded rest) : IsEncoded (b :: rest)
  | escape {high low : UInt8} {rest : Bytes} (hhigh : isEscapeDigit high = true)
      (hlow : isEscapeDigit low = true) (hrest : IsEncoded rest) :
      IsEncoded (Byte.percent :: high :: low :: rest)

/-- The byte of the escape that a text begins with: a percent sign and two hexadecimal digits, of
either case. -/
def readEscape? : Bytes → Option UInt8
  | mark :: high :: low :: _ =>
    if mark = Byte.percent then do
      let h ← Byte.hexValue? high
      let l ← Byte.hexValue? low
      return (16 * h + l).toUInt8
    else none
  | _ => none

/-- A text with its escapes read, from left to right; any other byte stands for itself. -/
def decode : Bytes → Bytes
  | [] => []
  | b :: rest =>
    match readEscape? (b :: rest) with
    | some c => c :: decode (rest.drop 2)
    | none => b :: decode rest
termination_by s => s.length
decreasing_by all_goals simp only [List.length_drop, List.length_cons]; omega

/-- A digit that is written is one of an escape and has the value that it is written for. -/
theorem hexDigit_spec {n : Nat} (hn : n < 16) :
    isEscapeDigit (hexDigit n) = true ∧ Byte.hexValue? (hexDigit n) = some n := by
  have hdigits : ∀ n < 16, isEscapeDigit (hexDigit n) = true ∧
      Byte.hexValue? (hexDigit n) = some n := by decide
  exact hdigits n hn

/-- The bytes that stand for themselves are letters, digits and four marks. -/
theorem isUnreserved_iff {b : UInt8} :
    isUnreserved b = true ↔
      Byte.isLetter b = true ∨ Byte.isDigit b = true ∨ b ∈ ascii "-_.~" := by
  rw [isUnreserved, Byte.isAlphanumeric, Bool.or_eq_true, Bool.or_eq_true, List.contains_iff_mem,
    or_assoc]

/-- Nothing is decoded to nothing. -/
theorem decode_nil : decode [] = [] := by
  rw [decode]

/-- A byte other than the percent sign is read as itself. -/
theorem decode_cons_of_ne {b : UInt8} (hb : b ≠ Byte.percent) (rest : Bytes) :
    decode (b :: rest) = b :: decode rest := by
  have hnone : readEscape? (b :: rest) = none := by
    unfold readEscape?
    split
    · rename_i heq
      obtain ⟨rfl, -⟩ := List.cons.inj heq
      exact if_neg hb
    · rfl
  rw [decode, hnone]

/-- A percent sign with two digits is read as the byte of their value. -/
theorem decode_escape {high low : UInt8} {h l : Nat} (hhigh : Byte.hexValue? high = some h)
    (hlow : Byte.hexValue? low = some l) (rest : Bytes) :
    decode (Byte.percent :: high :: low :: rest) = (16 * h + l).toUInt8 :: decode rest := by
  have hread : readEscape? (Byte.percent :: high :: low :: rest) =
      some (16 * h + l).toUInt8 := by
    rw [readEscape?, if_pos rfl, hhigh, hlow]
    rfl
  rw [decode, hread]
  rfl

/-- What a byte becomes is decoded to it, whatever follows it. -/
theorem decode_encodeByte (b : UInt8) (rest : Bytes) :
    decode (encodeByte b ++ rest) = b :: decode rest := by
  rw [encodeByte]
  split
  · rename_i hunreserved
    have hb : b ≠ Byte.percent := by
      rintro rfl
      exact absurd hunreserved (by decide)
    exact decode_cons_of_ne hb rest
  · have hbyte := b.toNat_lt
    obtain ⟨-, hhigh⟩ := hexDigit_spec (n := b.toNat / 16) (by omega)
    obtain ⟨-, hlow⟩ := hexDigit_spec (n := b.toNat % 16) (by omega)
    have hvalue : (16 * (b.toNat / 16) + b.toNat % 16).toUInt8 = b := by
      rw [Nat.div_add_mod]
      exact UInt8.ofNat_toNat
    rw [List.cons_append, List.cons_append, List.cons_append, List.nil_append,
      decode_escape hhigh hlow, hvalue]

/-- Decoding what is encoded gives the text back. -/
theorem decode_encode (s : Bytes) : decode (encode s) = s :=
  Bytes.decode_flatMap decode_nil decode_encodeByte s

/-- An encoded text is made of unreserved bytes and escapes. -/
theorem isEncoded_encode (s : Bytes) : IsEncoded (encode s) := by
  induction s with
  | nil => exact .nil
  | cons b rest ih =>
    rw [encode, List.flatMap_cons, encodeByte]
    split
    · rename_i hunreserved
      exact .unreserved (isUnreserved_iff.mp hunreserved) ih
    · have hbyte := b.toNat_lt
      exact .escape (hexDigit_spec (by omega)).1 (hexDigit_spec (by omega)).1 ih

/-- URL encoding is safe and loses nothing. What it gives consists of letters, digits and four
marks, and of percent signs with two upper-case hexadecimal digits each; reading the escapes gives
the text back, whatever bytes it is of; and texts may be encoded piece by piece, so that different
texts have different encodings. -/
theorem encode_faithful :
    (∀ s : Bytes, IsEncoded (encode s) ∧ decode (encode s) = s) ∧
    (∀ s t : Bytes, encode (s ++ t) = encode s ++ encode t) ∧
    Function.Injective encode :=
  ⟨fun s => ⟨isEncoded_encode s, decode_encode s⟩, encode_append,
    Function.LeftInverse.injective decode_encode⟩

/-- An escape in the text, digits behind a percent sign, and a byte that is no character. -/
example : encode (ascii "%41%4" ++ [0xff, 0x00] ++ ascii "A~") = ascii "%2541%254%FF%00A~" := by
  decide +kernel

end Url

end Stencil
