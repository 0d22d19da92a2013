import Mathlib.Data.List.Induction
import Stencil.Proofs.Bytes.Passing

/-!
# Cuts at the top level

Where a text may be cut is said without a reader: what stands before the place is made of whole
literals and of bytes outside literals, with as many opening as closing parentheses among the latter
(`Bytes.IsOutside`). A reader that has read a text knows whether it is so made
(`Scan.isTopLevel_foldl_iff`). Hence the two scanners agree on every text
(`Bytes.cuts_where_found`): splitting cuts at exactly those places, and finding the delimiter finds
exactly those.
-/

set_option autoImplicit false

namespace Stencil

/-! ## Texts outside literals -/

namespace Bytes

/-- A stretch of the inside of a literal: no byte of it is the quote, but for bytes that a backslash
protects. -/
inductive IsInside (quote : UInt8) : Bytes → Prop
  | nil : IsInside quote []
  | byte {b : UInt8} {rest : Bytes} (hquote : b ≠ quote) (hbackslash : b ≠ Byte.backslash)
      (hrest : IsInside quote rest) : IsInside quote (b :: rest)
  | escape (b : UInt8) {rest : Bytes} (hrest : IsInside quote rest) :
      IsInside quote (Byte.backslash :: b :: rest)

/-- What a byte adds to the count of opening less closing parentheses. -/
def nesting (b : UInt8) : Int :=
  if b = Byte.openParen then 1 else if b = Byte.closeParen then -1 else 0

/-- A text that is made of whole literals and of bytes outside literals, with the count of opening
less closing parentheses among the latter. What stands behind it stands outside every literal. -/
inductive IsOutside : Bytes → Int → Prop
  | nil : IsOutside [] 0
  | byte {b : UInt8} {rest : Bytes} {depth : Int} (hquote : b ≠ Byte.doubleQuote)
      (hapostrophe : b ≠ Byte.apostrophe) (hrest : IsOutside rest depth) :
      IsOutside (b :: rest) (nesting b + depth)
  | literal {quote : UInt8} {inside rest : Bytes} {depth : Int}
      (hquote : quote = Byte.doubleQuote ∨ quote = Byte.apostrophe)
      (hinside : IsInside quote inside) (hrest : IsOutside rest depth) :
      IsOutside (quote :: (inside ++ quote :: rest)) depth

variable {quote : UInt8} {s t : Bytes} {depth other : Int}

/-- The insides of two literals of one kind are the inside of one. -/
theorem IsInside.append (hs : IsInside quote s) (ht : IsInside quote t) :
    IsInside quote (s ++ t) := by
  induction hs with
  | nil => exact ht
  | byte hquote hbackslash _ ih => exact .byte hquote hbackslash ih
  | escape b _ ih => exact .escape b ih

/-- Two texts that end outside literals do so together, and their depths add up. -/
theorem IsOutside.append (hs : IsOutside s depth) (ht : IsOutside t other) :
    IsOutside (s ++ t) (depth + other) := by
  induction hs with
  | nil => rwa [Int.zero_add]
  | byte hquote hapostrophe _ ih =>
    rw [Int.add_assoc]
    exact .byte hquote hapostrophe ih
  | literal hquote hinside _ ih =>
    rw [List.cons_append, List.append_assoc, List.cons_append]
    exact .literal hquote hinside ih

/-- A byte behind a text outside literals. -/
theorem IsOutside.snoc (hs : IsOutside s depth) {b : UInt8} (hquote : b ≠ Byte.doubleQuote)
    (hapostrophe : b ≠ Byte.apostrophe) : IsOutside (s ++ [b]) (depth + nesting b) := by
  have hbyte : IsOutside [b] (nesting b + 0) := .byte hquote hapostrophe .nil
  rw [Int.add_zero] at hbyte
  exact hs.append hbyte

/-- The quote that closes a literal behind a text outside literals. -/
theorem IsOutside.close (hs : IsOutside s depth)
    (hquote : quote = Byte.doubleQuote ∨ quote = Byte.apostrophe) {inside : Bytes}
    (hinside : IsInside quote inside) : IsOutside (s ++ quote :: inside ++ [quote]) depth := by
  have hliteral : IsOutside (quote :: (inside ++ [quote])) 0 := .literal hquote hinside .nil
  have happend := hs.append hliteral
  rwa [Int.add_zero, ← List.cons_append, ← List.append_assoc] at happend

end Bytes

/-! ## What a reader knows -/

namespace Scan

open Bytes (IsInside IsOutside nesting)

/-- What a reader has read when it is in a state: a text outside literals, or one with a literal
begun behind it, of which the last byte may be a backslash that protects the next one. -/
inductive HasRead : Bytes → Scan → Prop
  | outside {s : Bytes} {depth : Int} (hs : IsOutside s depth) : HasRead s (resting none depth)
  | inside {s inside : Bytes} {quote : UInt8} {depth : Int} (hs : IsOutside s depth)
      (hquote : quote = Byte.doubleQuote ∨ quote = Byte.apostrophe)
      (hinside : IsInside quote inside) :
      HasRead (s ++ quote :: inside) (resting (some quote) depth)
  | escaped {s inside : Bytes} {quote : UInt8} {depth : Int} (hs : IsOutside s depth)
      (hquote : quote = Byte.doubleQuote ∨ quote = Byte.apostrophe)
      (hinside : IsInside quote inside) :
      HasRead (s ++ quote :: inside ++ [Byte.backslash])
        { quote := some quote, escaped := true, depth }

/-- Outside literals, a byte that opens none changes the depth only. -/
theorem step_outside {b : UInt8} (hquote : b ≠ Byte.doubleQuote)
    (hapostrophe : b ≠ Byte.apostrophe) (depth : Int) :
    (resting none depth).step b = resting none (depth + nesting b) := by
  by_cases hopen : b = Byte.openParen
  · subst hopen
    rfl
  · by_cases hclose : b = Byte.closeParen
    · subst hclose
      rfl
    · have hnesting : nesting b = 0 := by rw [nesting, if_neg hopen, if_neg hclose]
      rw [hnesting, Int.add_zero]
      exact step_of_isBracket_eq_false
        (by simp [isBracket, hquote, hapostrophe, hopen, hclose]) depth

/-- A step keeps account of what has been read. -/
theorem HasRead.step {s : Bytes} {scan : Scan} (h : HasRead s scan) (b : UInt8) :
    HasRead (s ++ [b]) (scan.step b) := by
  cases h with
  | outside hs =>
    by_cases hquote : b = Byte.doubleQuote ∨ b = Byte.apostrophe
    · rw [step_opening hquote]
      exact .inside hs hquote .nil
    · rw [not_or] at hquote
      rw [step_outside hquote.1 hquote.2]
      exact .outside (hs.snoc hquote.1 hquote.2)
  | @inside s inside quote depth hs hquote hinside =>
    by_cases hbackslash : b = Byte.backslash
    · subst hbackslash
      exact .escaped hs hquote hinside
    · by_cases hclosing : b = quote
      · subst hclosing
        rw [step_closing hbackslash]
        exact .outside (hs.close hquote hinside)
      · rw [step_inside hbackslash hclosing, List.append_assoc, List.cons_append]
        exact .inside hs hquote (hinside.append (.byte hclosing hbackslash .nil))
  | @escaped s inside quote depth hs hquote hinside =>
    have hstep : ({ quote := some quote, escaped := true, depth } : Scan).step b =
        resting (some quote) depth := rfl
    rw [hstep, List.append_assoc, List.append_assoc, List.cons_append]
    exact .inside hs hquote (hinside.append (.escape b .nil))

/-- After a whole text the reader has read it. -/
theorem hasRead_foldl (s : Bytes) : HasRead s (s.foldl Scan.step start) := by
  induction s using List.reverseRecOn with
  | nil => exact .outside .nil
  | append_singleton s b ih =>
    rw [List.foldl_append, List.foldl_cons, List.foldl_nil]
    exact ih.step b

/-- A reader inside a literal is still inside behind a stretch of it. -/
theorem foldl_of_isInside {quote : UInt8} {s : Bytes} (h : IsInside quote s) (depth : Int) :
    s.foldl Scan.step (resting (some quote) depth) = resting (some quote) depth := by
  induction h with
  | nil => rfl
  | byte hquote hbackslash _ ih => rw [List.foldl_cons, step_inside hbackslash hquote, ih]
  | escape b _ ih => rw [List.foldl_cons, List.foldl_cons, step_backslash_step, ih]

/-- A reader outside literals is outside behind whole literals and bytes outside them. -/
theorem foldl_of_isOutside {s : Bytes} {depth : Int} (h : IsOutside s depth) (base : Int) :
    s.foldl Scan.step (resting none base) = resting none (base + depth) := by
  induction h generalizing base with
  | nil => rw [Int.add_zero]; rfl
  | byte hquote hapostrophe _ ih =>
    rw [List.foldl_cons, step_outside hquote hapostrophe, ih, Int.add_assoc]
  | @literal quote inside rest depth hquote hinside _ ih =>
    have hbackslash : quote ≠ Byte.backslash := by
      obtain rfl | rfl := hquote <;> decide
    rw [List.foldl_cons, step_opening hquote, List.foldl_append, foldl_of_isInside hinside,
      List.foldl_cons, step_closing hbackslash, ih]

/-- A reader is at the top level behind exactly the texts outside literals whose parentheses are
balanced in number. -/
theorem isTopLevel_foldl_iff (s : Bytes) :
    (s.foldl Scan.step start).isTopLevel = true ↔ IsOutside s 0 := by
  constructor
  · intro htop
    have hread := hasRead_foldl s
    generalize s.foldl Scan.step start = scan at hread htop
    cases hread with
    | @outside _ depth hs =>
      obtain rfl : depth = 0 := by simpa [isTopLevel, isOutside, resting] using htop
      exact hs
    | inside => cases htop
    | escaped => cases htop
  · intro hs
    have hfold := foldl_of_isOutside hs 0
    rw [show start = resting none 0 from rfl, hfold]
    rfl

end Scan

namespace Bytes

/-! ## Found places -/

/-- A mark is found where it stands and the reader is at top level. -/
theorem mem_findTopLevelFrom {mark : Bytes} {scan : Scan} {offset place : Nat} {s : Bytes} :
    place ∈ findTopLevelFrom mark scan offset s ↔
      ∃ index < s.length, place = offset + index ∧
        ((s.take index).foldl Scan.step scan).isTopLevel = true ∧ mark <+: s.drop index := by
  induction s generalizing scan offset with
  | nil => simp [findTopLevelFrom]
  | cons b rest ih =>
    have hfirst : place ∈ findTopLevelFrom mark scan offset (b :: rest) ↔
        (place = offset ∧ scan.isTopLevel = true ∧ mark <+: b :: rest) ∨
          place ∈ findTopLevelFrom mark (scan.step b) (offset + 1) rest := by
      rw [findTopLevelFrom, ← List.isPrefixOf_iff_prefix, ← Bool.and_eq_true]
      split
      · rename_i hfound
        rw [List.mem_cons, hfound]
        simp
      · rename_i hmissed
        simp [hmissed]
    rw [hfirst, ih, List.length_cons, Nat.exists_lt_succ_left]
    simp [Nat.add_assoc, Nat.add_comm 1]

/-- Places are found in increasing order. -/
theorem pairwise_findTopLevelFrom (mark : Bytes) (scan : Scan) (offset : Nat) (s : Bytes) :
    (findTopLevelFrom mark scan offset s).Pairwise (· < ·) := by
  induction s generalizing scan offset with
  | nil => exact .nil
  | cons b rest ih =>
    have hlater := ih (scan.step b) (offset + 1)
    rw [findTopLevelFrom]
    split
    · refine List.pairwise_cons.mpr ⟨fun place hplace => ?_, hlater⟩
      obtain ⟨index, -, rfl, -⟩ := mem_findTopLevelFrom.mp hplace
      omega
    · exact hlater

/-- A byte is found exactly where it stands outside literals behind as many opening as closing
parentheses. -/
theorem mem_findTopLevel_singleton {delimiter : UInt8} {place : Nat} {s : Bytes} :
    place ∈ findTopLevel [delimiter] s ↔
      s[place]? = some delimiter ∧ IsOutside (s.take place) 0 := by
  have hstands : [delimiter] <+: s.drop place ↔ s[place]? = some delimiter := by
    rw [← List.head?_drop, List.head?_eq_some_iff]
    exact exists_congr fun rest => eq_comm
  rw [findTopLevel_eq, mem_findTopLevelFrom, ← Scan.isTopLevel_foldl_iff, ← hstands]
  constructor
  · rintro ⟨index, -, rfl, htop, hmark⟩
    rw [Nat.zero_add]
    exact ⟨hmark, htop⟩
  · rintro ⟨hmark, htop⟩
    refine ⟨place, ?_, (Nat.zero_add _).symm, htop, hmark⟩
    exact (List.getElem?_eq_some_iff.mp (hstands.mp hmark)).1

/-! ## Cut places -/

/-- Where a text has been cut that its parts are from: the offsets, counted from `offset`, of the
bytes that stood between them. -/
def joints : Nat → List Bytes → List Nat
  | _, [] => []
  | _, [_] => []
  | offset, part :: next :: parts =>
    (offset + part.length) :: joints (offset + part.length + 1) (next :: parts)

/-- A byte put in front of the first part moves the joints on by one. -/
theorem joints_consPart (offset : Nat) (b : UInt8) (parts : Bytes × List Bytes) :
    joints offset ((consPart b parts).1 :: (consPart b parts).2) =
      joints (offset + 1) (parts.1 :: parts.2) := by
  obtain ⟨part, parts⟩ := parts
  cases parts with
  | nil => rfl
  | cons next parts =>
    rw [consPart, joints, joints, List.length_cons]
    simp only [Nat.add_assoc, Nat.add_comm part.length]

/-- A byte put in front of the first part stands in front of the joined text. -/
theorem intercalate_consPart (separator : Bytes) (b : UInt8) (parts : Bytes × List Bytes) :
    separator.intercalate ((consPart b parts).1 :: (consPart b parts).2) =
      b :: separator.intercalate (parts.1 :: parts.2) := by
  obtain ⟨part, parts⟩ := parts
  by_cases hend : parts = []
  · simp [consPart, hend, List.intercalate]
  · simp [consPart, List.intercalate_cons_of_ne_nil hend]

section Reading

variable {delimiter : UInt8} (hdelimiter : Scan.isBracket delimiter = false)
include hdelimiter

/-- A byte is cut out exactly where the delimiter is found. -/
theorem splitTopLevelFrom_cons (scan : Scan) (b : UInt8) (rest : Bytes) :
    splitTopLevelFrom delimiter scan (b :: rest) =
      if scan.isTopLevel && [delimiter].isPrefixOf (b :: rest) then
        ([], (splitTopLevelFrom delimiter (scan.step b) rest).1 ::
          (splitTopLevelFrom delimiter (scan.step b) rest).2)
      else consPart b (splitTopLevelFrom delimiter (scan.step b) rest) := by
  by_cases hb : b = delimiter
  · subst hb
    simp [splitTopLevelFrom, consPart, List.isPrefixOf, hdelimiter]
  · have hother : (delimiter == b) = false := beq_eq_false_iff_ne.mpr (Ne.symm hb)
    rw [splitTopLevelFrom_cons_of_kept (by simp [hb])]
    simp [List.isPrefixOf, hother]

/-- A reader splits where it finds the delimiter. -/
theorem joints_splitTopLevelFrom (scan : Scan) (offset : Nat) (s : Bytes) :
    joints offset ((splitTopLevelFrom delimiter scan s).1 ::
        (splitTopLevelFrom delimiter scan s).2) =
      findTopLevelFrom [delimiter] scan offset s := by
  induction s generalizing scan offset with
  | nil => rfl
  | cons b rest ih =>
    rw [splitTopLevelFrom_cons hdelimiter, findTopLevelFrom]
    split
    · rw [joints, ih]
      rfl
    · rw [joints_consPart, ih]

/-- The parts with the delimiter between them are the text. -/
theorem intercalate_splitTopLevelFrom (scan : Scan) (s : Bytes) :
    [delimiter].intercalate ((splitTopLevelFrom delimiter scan s).1 ::
      (splitTopLevelFrom delimiter scan s).2) = s := by
  induction s generalizing scan with
  | nil => rfl
  | cons b rest ih =>
    have hrest := ih (scan.step b)
    rw [splitTopLevelFrom_cons hdelimiter]
    split
    · rename_i hfound
      obtain ⟨-, hb⟩ := Bool.and_eq_true_iff.mp hfound
      obtain rfl : delimiter = b := by simpa [List.isPrefixOf] using hb
      rw [List.intercalate_cons_of_ne_nil (List.cons_ne_nil _ _), hrest]
      rfl
    · rw [intercalate_consPart, hrest]

end Reading

/-- The two scanners agree. For a delimiter that is neither a quote nor a parenthesis, the parts
that a text is split into give it back when they are joined by the delimiter; the places at which it
is cut are those at which the delimiter is found, in increasing order; and a place is cut exactly
when it holds the delimiter and stands outside literals behind as many opening as closing
parentheses. -/
theorem cuts_where_found {delimiter : UInt8}
    (hdelimiter : delimiter ∉
      [Byte.doubleQuote, Byte.apostrophe, Byte.openParen, Byte.closeParen]) (s : Bytes) :
    [delimiter].intercalate (topLevelParts delimiter s) = s ∧
    joints 0 (topLevelParts delimiter s) = findTopLevel [delimiter] s ∧
    (findTopLevel [delimiter] s).Pairwise (· < ·) ∧
    ∀ place, place ∈ joints 0 (topLevelParts delimiter s) ↔
      s[place]? = some delimiter ∧ IsOutside (s.take place) 0 := by
  have hplain : Scan.isBracket delimiter = false := by
    simpa [Scan.isBracket, and_assoc] using hdelimiter
  have hjoints : joints 0 (topLevelParts delimiter s) = findTopLevel [delimiter] s := by
    rw [topLevelParts, splitTopLevel_eq, findTopLevel_eq]
    exact joints_splitTopLevelFrom hplain Scan.start 0 s
  refine ⟨?_, hjoints, ?_, fun place => ?_⟩
  · rw [topLevelParts, splitTopLevel_eq]
    exact intercalate_splitTopLevelFrom hplain Scan.start s
  · rw [findTopLevel_eq]
    exact pairwise_findTopLevelFrom [delimiter] Scan.start 0 s
  · rw [hjoints, mem_findTopLevel_singleton]

/-- A text with a protected quote in a literal, a stray closing parenthesis, which an opening one
makes up for, and a literal that is not closed. -/
def tangled : Bytes := ascii "a,\"b\\\",c\",(d,e),f),g('h,i"

/-- The law at a text that holds the separator outside and inside a literal and in parentheses, with
a closing parenthesis too many. -/
theorem cuts_where_found_tangled :
    Byte.comma ∉ [Byte.doubleQuote, Byte.apostrophe, Byte.openParen, Byte.closeParen] ∧
    topLevelParts Byte.comma tangled =
      [ascii "a", ascii "\"b\\\",c\"", ascii "(d,e)", ascii "f),g('h,i"] ∧
    [Byte.comma].intercalate (topLevelParts Byte.comma tangled) = tangled ∧
    findTopLevel [Byte.comma] tangled = [1, 9, 15] ∧
    joints 0 (topLevelParts Byte.comma tangled) = findTopLevel [Byte.comma] tangled ∧
    (findTopLevel [Byte.comma] tangled).Pairwise (· < ·) ∧
    ∀ place, place ∈ joints 0 (topLevelParts Byte.comma tangled) ↔
      tangled[place]? = some Byte.comma ∧ IsOutside (tangled.take place) 0 := by
  have hcomma : Byte.comma ∉
      [Byte.doubleQuote, Byte.apostrophe, Byte.openParen, Byte.closeParen] := by decide
  obtain ⟨hjoin, hjoints, hincreasing, hplaces⟩ := cuts_where_found hcomma tangled
  exact ⟨hcomma, by decide +kernel, hjoin, by decide +kernel, hjoints, hincreasing, hplaces⟩

end Bytes

end Stencil
