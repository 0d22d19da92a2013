import Stencil.Json.Basic
import Stencil.Number.Numeral
import Stencil.Text.Utf8

/-!
# Reading JSON

A strict reader of JSON documents: no comments, no trailing commas, no leading zeros, no raw control
characters, no lone surrogates, and strings are UTF-8; a byte order mark may come first. A number
without fraction and exponent is an integer as long as it lies between the least signed and the
greatest unsigned 64-bit integer, else a floating point number, which has to be finite. A repeated
key keeps its first place and takes the last value. The document is read from left to right and the
first fault decides.
-/

set_option autoImplicit false

namespace Stencil

namespace Json

/-- The bytes that may stand between the tokens of a document. -/
def isSpace (b : UInt8) : Bool :=
  b == Byte.space || b == Byte.tab || b == Byte.newline || b == Byte.carriageReturn

/-- Drops the blanks at the start of a text. -/
def skipSpace (s : Bytes) : Bytes := s.dropWhile isSpace

/-- The number that four hexadecimal digits denote. -/
def hex4? (a b c d : UInt8) : Option Nat := do
  return 4096 * (← Byte.hexValue? a) + 256 * (← Byte.hexValue? b) + 16 * (← Byte.hexValue? c) +
    (← Byte.hexValue? d)

/-- What a backslash and a given byte stand for. -/
def unescapeByte? (b : UInt8) : Option UInt8 :=
  if b == Byte.doubleQuote || b == Byte.backslash || b == 0x2f then some b
  else if b == 0x62 then some 0x08
  else if b == 0x66 then some 0x0c
  else if b == 0x6e then some Byte.newline
  else if b == 0x72 then some Byte.carriageReturn
  else if b == 0x74 then some Byte.tab
  else none

/-- The text of a string after its opening quote, and what follows its closing quote. -/
def readString? : Bytes → Option (Bytes × Bytes)
  | [] => none
  | Byte.doubleQuote :: rest => some ([], rest)
  | Byte.backslash :: 0x75 :: a :: b :: c :: d :: rest =>
    match hex4? a b c d with
    | none => none
    | some unit =>
      if 0xdc00 ≤ unit && unit < 0xe000 then none
      else if 0xd800 ≤ unit && unit < 0xdc00 then
        match rest with
        | Byte.backslash :: 0x75 :: a :: b :: c :: d :: rest =>
          match hex4? a b c d with
          | none => none
          | some low =>
            if 0xdc00 ≤ low && low < 0xe000 then
              let point := 0x10000 + (unit - 0xd800) * 0x400 + (low - 0xdc00)
              (readString? rest).map fun (text, rest) => (Utf8.encode point ++ text, rest)
            else none
        | _ => none
      else (readString? rest).map fun (text, rest) => (Utf8.encode unit ++ text, rest)
  | Byte.backslash :: b :: rest =>
    match unescapeByte? b with
    | none => none
    | some byte => (readString? rest).map fun (text, rest) => (byte :: text, rest)
  | b :: rest =>
    if b < 0x20 || b == Byte.backslash then none
    else (readString? rest).map fun (text, rest) => (b :: text, rest)

/-- The text of a string after its opening quote, which must be UTF-8, and what follows its closing
quote. -/
def readText (s : Bytes) : Except JsonFault (Bytes × Bytes) :=
  match readString? s with
  | some (text, rest) => if Utf8.isValid text then .ok (text, rest) else .error .malformed
  | none => .error .malformed

/-- What follows the digits of a number before its point: a zero alone, or digits without a leading
zero. -/
def skipWhole? : Bytes → Option Bytes
  | 0x30 :: rest => some rest
  | s => (Numeral.readDigits? s).map Prod.snd

/-- What follows a number at the start of a text. -/
def skipNumber? (s : Bytes) : Option Bytes :=
  let unsigned := match s with
    | Byte.minus :: rest => rest
    | _ => s
  skipWhole? unsigned >>= Numeral.skipFraction? >>= Numeral.skipExponent?

/-- The longest run of bytes that can stand in a number, and what follows it. -/
def numberBytes (s : Bytes) : Bytes × Bytes :=
  Bytes.readWhile (fun b => Byte.isDigit b || (ascii "+-.eE").contains b) s

/-- The value of a numeral: an integer when it is spelled as one and fits in 64 bits, signed or
unsigned, and the nearest floating point number otherwise. -/
def ofNumeral (s : Bytes) : Except JsonFault Json :=
  let x := Numeral.rounded s
  match Numeral.integer? s with
  | some n =>
    if -0x8000000000000000 ≤ n && n ≤ 0xffffffffffffffff then .ok (.int n)
    else if x.isFinite then .ok (.float x)
    else .error .outOfRange
  | none => if x.isFinite then .ok (.float x) else .error .outOfRange

/-- A number at the start of a text, and what follows it. -/
def readNumber (s : Bytes) : Except JsonFault (Json × Bytes) :=
  let (run, rest) := numberBytes s
  match skipNumber? run with
  | some unread => do
    return (← ofNumeral (run.take (run.length - unread.length)), unread ++ rest)
  | none => .error .malformed

/-- One of the three words at the start of a text, and what follows it. -/
def readWord? (s : Bytes) : Option (Json × Bytes) :=
  if s.startsWith (ascii "null") then some (.null, s.drop 4)
  else if s.startsWith (ascii "true") then some (.bool true, s.drop 4)
  else if s.startsWith (ascii "false") then some (.bool false, s.drop 5)
  else none

/-- A word or a number at the start of a text, and what follows it. -/
def readAtom (s : Bytes) : Except JsonFault (Json × Bytes) :=
  match readWord? s with
  | some found => .ok found
  | none => readNumber s

mutual

/-- A value at the start of a text, and what follows it. -/
def readValue : Nat → Bytes → Except JsonFault (Json × Bytes)
  | 0, _ => .error .malformed
  | fuel + 1, s =>
    match skipSpace s with
    | Byte.doubleQuote :: rest => do
      let (text, rest) ← readText rest
      return (.str text, rest)
    | Byte.openBracket :: rest =>
      match skipSpace rest with
      | Byte.closeBracket :: rest => .ok (.arr [], rest)
      | rest => do
        let (items, rest) ← readItems fuel rest
        return (.arr items, rest)
    | Byte.openBrace :: rest =>
      match skipSpace rest with
      | Byte.closeBrace :: rest => .ok (.obj [], rest)
      | rest => do
        let (fields, rest) ← readFields fuel [] rest
        return (.obj fields, rest)
    | rest => readAtom rest

/-- The items of an array up to its closing bracket, and what follows it. -/
def readItems : Nat → Bytes → Except JsonFault (List Json × Bytes)
  | 0, _ => .error .malformed
  | fuel + 1, s => do
    let (item, rest) ← readValue fuel s
    match skipSpace rest with
    | Byte.comma :: rest =>
      let (items, rest) ← readItems fuel rest
      return (item :: items, rest)
    | Byte.closeBracket :: rest => return ([item], rest)
    | _ => .error .malformed

/-- The fields of an object up to its closing brace, entered after the given ones, and what follows
it. -/
def readFields : Nat → Table Json → Bytes → Except JsonFault (Table Json × Bytes)
  | 0, _, _ => .error .malformed
  | fuel + 1, fields, s =>
    match skipSpace s with
    | Byte.doubleQuote :: rest => do
      let (key, rest) ← readText rest
      match skipSpace rest with
      | Byte.colon :: rest =>
        let (value, rest) ← readValue fuel rest
        let fields := fields.insert key value
        match skipSpace rest with
        | Byte.comma :: rest => readFields fuel fields rest
        | Byte.closeBrace :: rest => return (fields, rest)
        | _ => .error .malformed
      | _ => .error .malformed
    | _ => .error .malformed

end

/-- Skips the byte order mark at the start of a document. -/
def dropMark : Bytes → Bytes
  | 0xef :: 0xbb :: 0xbf :: rest => rest
  | s => s

/-- The value of a JSON document. Every byte leads to at most two nested readings, which bounds the
nesting. -/
def parse (document : Bytes) : Except JsonFault Json := do
  let s := dropMark document
  let (value, rest) ← readValue (2 * s.length + 2) s
  if (skipSpace rest).isEmpty then return value else .error .malformed

end Json

end Stencil
