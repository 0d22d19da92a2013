import Stencil.Number.Binary64
import Stencil.Number.Decimal
import Stencil.Number.Word

/-!
# Numerals

Reading numbers from texts. A *plain* numeral is an optional minus sign, digits, an optional
fraction and an optional exponent; template operands are such numerals. Values are read more
generously: blanks may surround them, a sign may be a plus, and a floating point text may also be an
infinity, a not-a-number or a hexadecimal numeral.
-/

set_option autoImplicit false

namespace Stencil

namespace Numeral

/-- The digits at the start of a text, at least one, and what follows them. -/
def readDigits? (s : Bytes) : Option (Bytes × Bytes) :=
  let (digits, rest) := Bytes.readWhile Byte.isDigit s
  if digits.isEmpty then none else some (digits, rest)

/-- What is read is the longest run of digits, and what is left follows it. -/
theorem readDigits?_eq_some_iff {s digits rest : Bytes} :
    readDigits? s = some (digits, rest) ↔
      digits ≠ [] ∧ digits = s.takeWhile Byte.isDigit ∧ rest = s.dropWhile Byte.isDigit := by
  unfold readDigits? Bytes.readWhile
  dsimp only
  constructor
  · intro h
    split at h
    · cases h
    · rename_i hnonempty
      obtain ⟨rfl, rfl⟩ := Prod.mk.inj (Option.some.inj h)
      exact ⟨by simpa using hnonempty, rfl, rfl⟩
  · rintro ⟨hnonempty, rfl, rfl⟩
    exact if_neg (by simpa using hnonempty)

/-- A sign at the start of a text, whether it is a minus, and what follows it. -/
def readSign (s : Bytes) : Bool × Bytes :=
  match s with
  | Byte.minus :: rest => (true, rest)
  | Byte.plus :: rest => (false, rest)
  | _ => (false, s)

/-- A text that begins with an exponent mark, an optional sign and digits: the exponent and what
follows. Without digits there is no exponent and nothing is read. -/
def readExponent (marks : Bytes) (s : Bytes) : Int × Bytes :=
  match s with
  | [] => (0, [])
  | b :: rest =>
    if marks.contains b then
      let (negative, rest) := readSign rest
      match readDigits? rest with
      | some (digits, rest) =>
        let n : Int := Decimal.toNat digits
        (if negative then -n else n, rest)
      | none => (0, s)
    else (0, s)

/-! ## Plain numerals -/

/-- The fraction of a plain numeral, when a point follows: what comes after its digits, or nothing
when there are none. -/
def skipFraction? : Bytes → Option Bytes
  | Byte.dot :: rest => (readDigits? rest).map Prod.snd
  | s => some s

/-- The exponent of a plain numeral, when its mark follows: what comes after its digits, or nothing
when there are none. -/
def skipExponent? : Bytes → Option Bytes
  | 0x65 :: rest | 0x45 :: rest => (readDigits? (readSign rest).2).map Prod.snd
  | s => some s

/-- Whether a text is a plain numeral: an optional minus sign, digits, and perhaps a fraction and an
exponent. -/
def isPlain (s : Bytes) : Bool :=
  let unsigned := match s with
    | Byte.minus :: rest => rest
    | _ => s
  match readDigits? unsigned with
  | none => false
  | some (_, rest) => (skipFraction? rest >>= skipExponent?) == some []

/-! ## Integers -/

/-- The integer that a text holds: blanks, an optional sign, and digits up to the end. -/
def integer? (s : Bytes) : Option Int :=
  let (negative, rest) := readSign (Bytes.skipBlanks s)
  match readDigits? rest with
  | some (digits, []) =>
    let n : Int := Decimal.toNat digits
    some (if negative then -n else n)
  | _ => none

/-- The signed 64-bit integer that a stripped text holds. -/
def word? (s : Bytes) : Option Int64 := integer? s.strip >>= Word.ofInt?

/-! ## Floating point numbers -/

/-- The bases of floating point numerals: that of the digits is ten or sixteen, that of the exponent
ten or two. -/
inductive Base where
  | decimal
  | hexadecimal
  deriving DecidableEq, Repr

namespace Base

/-- What the exponent of a numeral is an exponent of. -/
def power : Base → Nat
  | decimal => 10
  | hexadecimal => 2

/-- Whether a last significant digit, the 54th in base two, is lost from a number whose 53rd digit
has the place `e`. Below the normal numbers a reader keeps 53 digits and a mark for whatever follows
the 54th; a decimal numeral is read to 1076 places, so that further down the mark is always set. -/
def losesLastDigit (base : Base) (e : Int) : Bool :=
  match base with
  | decimal => e == -1075
  | hexadecimal => e < -1074

end Base

/-- The quotient that is rounded for a positive quotient `n / d` written in a given base: the same
one, but for a last digit that is lost. -/
def keptQuotient (base : Base) (n d : Nat) : Nat × Nat :=
  let e := Binary64.unitExponent n d
  let (a, b) := Binary64.scaleQuotient n d (1 - e)
  if base.losesLastDigit e && a % b == 0 && a / b % 2 == 1 then
    Binary64.scaleQuotient (a / b - 1) 1 (e - 1)
  else (n, d)

/-- Whether rounding a positive quotient loses digits to the lower bound of the exponent: the result
is inexact, and below `2 ^ (-1022)` also after rounding to 53 digits. -/
def underflows (base : Base) (n d : Nat) : Bool :=
  let e := Binary64.unitExponent n d
  let (n', d') := keptQuotient base n d
  let (a, b) := Binary64.scaleQuotient n' d' 1074
  let (a', b') := Binary64.scaleQuotient n d (-e)
  e < -1074 && a % b != 0 && !(e == -1075 && Binary64.roundQuotient a' b' == 2 * Binary64.hiddenBit)

/-- A number read from a text before rounding. -/
inductive Reading where
  /-- The quotient `n / d` with a sign, written in a given base. -/
  | ratio (negative : Bool) (base : Base) (n d : Nat)
  /-- A value too large for every finite number. -/
  | huge (negative : Bool)
  /-- A positive value too small for every number but zero. -/
  | tiny (negative : Bool)
  | infinite (negative : Bool)
  | notANumber
  deriving DecidableEq, Repr

namespace Reading

/-- The reading of `n` times a power with a sign, for a number of `count` digits of the base. A
power that takes every such number out of the range is not computed. -/
def scaled (negative : Bool) (base : Base) (n : Nat) (e : Int) (count : Nat) : Reading :=
  if n == 0 then .ratio negative base 0 1
  else if 1100 + 5 * count < e.natAbs then
    if 0 ≤ e then .huge negative else .tiny negative
  else
    match e with
    | .ofNat k => .ratio negative base (n * Nat.pow base.power k) 1
    | .negSucc k => .ratio negative base n (Nat.pow base.power (k + 1))

/-- The number that a reading is rounded to. -/
def toBinary64 : Reading → Binary64
  | .ratio negative base n d =>
    if n == 0 then Binary64.zero negative
    else
      let (n, d) := keptQuotient base n d
      Binary64.ofRatio negative n d
  | .huge negative => Binary64.infinity negative
  | .tiny negative => Binary64.zero negative
  | .infinite negative => Binary64.infinity negative
  | .notANumber => Binary64.nan

/-- Whether rounding a reading leaves the range: a finite value becomes infinite, or loses digits
to the lower bound of the exponent. -/
def isOutOfRange (reading : Reading) : Bool :=
  match reading with
  | .ratio _ base n d => reading.toBinary64.isInfinite || (n != 0 && underflows base n d)
  | .huge _ | .tiny _ => true
  | .infinite _ | .notANumber => false

end Reading

/-- Digits with an optional point among or around them, at least one digit: the digits, how many of
them follow the point, and the rest of the text. -/
def readPointed? (isDigit : UInt8 → Bool) (s : Bytes) : Option (Bytes × Nat × Bytes) :=
  let (whole, rest) := Bytes.readWhile isDigit s
  let (fraction, rest) := match rest with
    | Byte.dot :: after =>
      let (fraction, after) := Bytes.readWhile isDigit after
      if whole.isEmpty && fraction.isEmpty then ([], rest) else (fraction, after)
    | _ => ([], rest)
  if whole.isEmpty && fraction.isEmpty then none
  else some (whole ++ fraction, fraction.length, rest)

/-- A decimal numeral at the start of a text, and what follows it. -/
def readDecimal? (negative : Bool) (s : Bytes) : Option (Reading × Bytes) :=
  (readPointed? Byte.isDigit s).map fun (digits, places, rest) =>
    let (e, rest) := readExponent (ascii "eE") rest
    (Reading.scaled negative .decimal (Decimal.toNat digits) (e - places) digits.length, rest)

/-- The number that a run of hexadecimal digits denotes. -/
def hexToNat (digits : Bytes) : Nat :=
  digits.foldl (fun n b => 16 * n + (Byte.hexValue? b).getD 0) 0

/-- A hexadecimal numeral, after its mark, at the start of a text, and what follows it. -/
def readHexadecimal? (negative : Bool) (s : Bytes) : Option (Reading × Bytes) :=
  (readPointed? (fun b => (Byte.hexValue? b).isSome) s).map fun (digits, places, rest) =>
    let (e, rest) := readExponent (ascii "pP") rest
    (Reading.scaled negative .hexadecimal (hexToNat digits) (e - 4 * places) digits.length, rest)

/-- What follows a word at the start of a text, in letters of any case. -/
def dropWord? (word s : Bytes) : Option Bytes :=
  if word.isPrefixOf (s.map Byte.toLower) then some (s.drop word.length) else none

/-- What follows the bracketed tag of a not-a-number, when there is one. -/
def dropTag (s : Bytes) : Bytes :=
  match s with
  | Byte.openParen :: rest =>
    match rest.dropWhile Byte.isWord with
    | Byte.closeParen :: after => after
    | _ => s
  | _ => s

/-- The longest floating point numeral at the start of a text, and what follows it. -/
def readReal? (s : Bytes) : Option (Reading × Bytes) :=
  let (negative, s) := readSign (Bytes.skipBlanks s)
  match dropWord? (ascii "infinity") s, dropWord? (ascii "inf") s, dropWord? (ascii "nan") s,
      dropWord? (ascii "0x") s >>= readHexadecimal? negative with
  | some rest, _, _, _ => some (.infinite negative, rest)
  | none, some rest, _, _ => some (.infinite negative, rest)
  | none, none, some rest, _ => some (.notANumber, dropTag rest)
  | none, none, none, some found => some found
  | none, none, none, none => readDecimal? negative s

/-- The number that a stripped text holds: a floating point numeral up to the end, whose value does
not leave the range. -/
def real? (s : Bytes) : Option Binary64 :=
  match readReal? s.strip with
  | some (reading, []) => if reading.isOutOfRange then none else some reading.toBinary64
  | _ => none

/-- The number that a plain numeral is rounded to, an infinity when it is too large. -/
def rounded (s : Bytes) : Binary64 :=
  match readReal? s with
  | some (reading, _) => reading.toBinary64
  | none => Binary64.zero false

end Numeral

end Stencil
