import Stencil.Bytes.Basic

/-!
# The top level of an expression

Separators count only at the top level of an expression: outside quoted literals, where a backslash
protects the byte after it, and outside parentheses. Splitting at a delimiter and finding a mark are
two walks; each goes along a text with the quote of the literal that it is in and the depth of
parentheses, and takes a backslash in a literal and the byte after it in one step. Where a text is
read byte by byte, a reader state says where the next byte stands.
-/

set_option autoImplicit false

namespace Stencil

/-- Where a scan stands: inside a literal or not, and how deep in parentheses. -/
structure Scan where
  /-- The quote byte of the literal being read. -/
  quote : Option UInt8 := none
  /-- Whether the next byte is protected by a backslash. -/
  escaped : Bool := false
  /-- Opening less closing parentheses seen outside literals; negative after stray closing ones. -/
  depth : Int := 0
  deriving DecidableEq, Repr

namespace Scan

/-- The state before the first byte. -/
def start : Scan := {}

/-- Whether the next byte stands outside every literal. -/
def isOutside (s : Scan) : Bool := s.quote.isNone

/-- Whether the next byte stands outside every literal and at parenthesis depth zero. -/
def isTopLevel (s : Scan) : Bool := s.isOutside && s.depth == 0

/-- Whether a byte opens or closes a literal or a parenthesis when it stands outside literals. -/
def isBracket (b : UInt8) : Bool :=
  b == Byte.doubleQuote || b == Byte.apostrophe || b == Byte.openParen || b == Byte.closeParen

/-- The state after one more byte. A quote opens a literal, and the same quote closes it unless a
backslash protects it; parentheses count outside literals only. -/
def step (s : Scan) (b : UInt8) : Scan :=
  match s.quote with
  | some q =>
    if s.escaped then { s with escaped := false }
    else if b == Byte.backslash then { s with escaped := true }
    else if b == q then { s with quote := none }
    else s
  | none =>
    if b == Byte.doubleQuote || b == Byte.apostrophe then { s with quote := some b }
    else if b == Byte.openParen then { s with depth := s.depth + 1 }
    else if b == Byte.closeParen then { s with depth := s.depth - 1 }
    else s

end Scan

namespace Bytes

/-- A byte at the start of the first part. -/
def consPart (b : UInt8) (parts : Bytes × List Bytes) : Bytes × List Bytes :=
  (b :: parts.1, parts.2)

/-- The first part of a text up to a delimiter at top level, and the other parts, for a text that
follows the opening of a literal or stands outside literals at a depth of parentheses. A quote or a
parenthesis is never a delimiter. -/
def splitWalk (delimiter : UInt8) : Option UInt8 → Int → Bytes → Bytes × List Bytes
  | _, _, [] => ([], [])
  | some quote, depth, b :: rest =>
    if b == Byte.backslash then
      match rest with
      | [] => ([b], [])
      | c :: rest => consPart b (consPart c (splitWalk delimiter (some quote) depth rest))
    else if b == quote then consPart b (splitWalk delimiter none depth rest)
    else consPart b (splitWalk delimiter (some quote) depth rest)
  | none, depth, b :: rest =>
    if b == Byte.doubleQuote || b == Byte.apostrophe then
      consPart b (splitWalk delimiter (some b) depth rest)
    else if b == Byte.openParen then consPart b (splitWalk delimiter none (depth + 1) rest)
    else if b == Byte.closeParen then consPart b (splitWalk delimiter none (depth - 1) rest)
    else if b == delimiter && depth == 0 then
      let (part, parts) := splitWalk delimiter none depth rest
      ([], part :: parts)
    else consPart b (splitWalk delimiter none depth rest)

/-- The first part of a text up to a top-level delimiter, and the other parts. -/
def splitTopLevel (delimiter : UInt8) (s : Bytes) : Bytes × List Bytes :=
  splitWalk delimiter none 0 s

/-- All parts of a text between its top-level delimiters: one more than there are delimiters. -/
def topLevelParts (delimiter : UInt8) (s : Bytes) : List Bytes :=
  let (part, parts) := splitTopLevel delimiter s
  part :: parts

/-- The offsets, counted from `offset`, at which a mark stands at top level, for a text that follows
the opening of a literal or stands outside literals at a depth of parentheses. The mark is looked
for before the byte is looked at, so that it may begin with a quote or a parenthesis. -/
def findWalk (mark : Bytes) : Option UInt8 → Int → Nat → Bytes → List Nat
  | _, _, _, [] => []
  | some quote, depth, offset, b :: rest =>
    if b == Byte.backslash then
      match rest with
      | [] => []
      | _ :: rest => findWalk mark (some quote) depth (offset + 2) rest
    else if b == quote then findWalk mark none depth (offset + 1) rest
    else findWalk mark (some quote) depth (offset + 1) rest
  | none, depth, offset, b :: rest =>
    let later :=
      if b == Byte.doubleQuote || b == Byte.apostrophe then
        findWalk mark (some b) depth (offset + 1) rest
      else if b == Byte.openParen then findWalk mark none (depth + 1) (offset + 1) rest
      else if b == Byte.closeParen then findWalk mark none (depth - 1) (offset + 1) rest
      else findWalk mark none depth (offset + 1) rest
    if depth == 0 && mark.isPrefixOf (b :: rest) then offset :: later else later

/-- The offsets at which a mark stands at top level, in increasing order. -/
def findTopLevel (mark s : Bytes) : List Nat := findWalk mark none 0 0 s

end Bytes

end Stencil
