import Mathlib.Tactic.SplitIfs
import Stencil.Proofs.Bytes.Literal

/-!
# Two walks and one reader

Splitting and finding each go along a text with a quote and a depth of their own, and step over a
backslash in a literal and the byte behind it at once. Both come to the places that a reader comes
to which goes byte by byte and keeps the backslash in its state (`Bytes.splitTopLevel_eq`,
`Bytes.findTopLevel_eq`), so that what is shown of the reader holds of either walk.
-/

set_option autoImplicit false

namespace Stencil

/-! ## Steps of the reader -/

namespace Scan

/-- A reader that is not right behind a backslash: in the literal of a quote or outside literals, at
a depth of parentheses. -/
def resting (quote : Option UInt8) (depth : Int) : Scan := { quote, depth }

variable {quote b : UInt8} {depth : Int}

/-- A backslash in a literal takes the byte behind it along. -/
theorem step_backslash_step (quote b : UInt8) (depth : Int) :
    ((resting (some quote) depth).step Byte.backslash).step b = resting (some quote) depth := rfl

/-- The quote of a literal closes it. -/
theorem step_closing (hquote : quote ≠ Byte.backslash) (depth : Int) :
    (resting (some quote) depth).step quote = resting none depth := by
  simp [step, resting, hquote]

/-- A byte that is neither the quote nor a backslash stays in the literal. -/
theorem step_inside (hbackslash : b ≠ Byte.backslash) (hquote : b ≠ quote) (depth : Int) :
    (resting (some quote) depth).step b = resting (some quote) depth := by
  simp [step, resting, hbackslash, hquote]

/-- Either quote opens a literal of its own. -/
theorem step_opening (hquote : b = Byte.doubleQuote ∨ b = Byte.apostrophe) (depth : Int) :
    (resting none depth).step b = resting (some b) depth := by
  simp [step, resting, hquote]

/-- Outside literals a byte that is no quote and no parenthesis changes nothing. -/
theorem step_of_isBracket_eq_false {c : UInt8} (h : isBracket c = false) (depth : Int) :
    (outside depth).step c = outside depth := by
  simp only [isBracket, Bool.or_eq_false_iff] at h
  simp [step, outside, h]

end Scan

namespace Bytes

/-! ## Splitting -/

/-- The parts of a text between the delimiters that a reader in state `scan` meets at top level;
a quote or a parenthesis is never a delimiter. -/
def splitTopLevelFrom (delimiter : UInt8) : Scan → Bytes → Bytes × List Bytes
  | _, [] => ([], [])
  | scan, b :: rest =>
    let (part, parts) := splitTopLevelFrom delimiter (scan.step b) rest
    if b == delimiter && scan.isTopLevel && !Scan.isBracket b then ([], part :: parts)
    else (b :: part, parts)

section Splitting

variable {delimiter b : UInt8} {scan : Scan}

/-- A byte that is no delimiter at top level goes to the first part. -/
theorem splitTopLevelFrom_cons_of_kept
    (h : (b == delimiter && scan.isTopLevel && !Scan.isBracket b) = false) (rest : Bytes) :
    splitTopLevelFrom delimiter scan (b :: rest) =
      consPart b (splitTopLevelFrom delimiter (scan.step b) rest) := by
  simp only [splitTopLevelFrom, h, Bool.false_eq_true, if_false, consPart]

/-- A byte that does not stand at top level goes to the first part. -/
theorem splitTopLevelFrom_cons_of_isTopLevel (h : scan.isTopLevel = false) (b : UInt8)
    (rest : Bytes) :
    splitTopLevelFrom delimiter scan (b :: rest) =
      consPart b (splitTopLevelFrom delimiter (scan.step b) rest) :=
  splitTopLevelFrom_cons_of_kept (by rw [h, Bool.and_false, Bool.false_and]) rest

/-- A quote or a parenthesis goes to the first part. -/
theorem splitTopLevelFrom_cons_of_isBracket (h : Scan.isBracket b = true) (scan : Scan)
    (rest : Bytes) :
    splitTopLevelFrom delimiter scan (b :: rest) =
      consPart b (splitTopLevelFrom delimiter (scan.step b) rest) :=
  splitTopLevelFrom_cons_of_kept (by rw [h, Bool.not_true, Bool.and_false]) rest

end Splitting

/-- A walk splits where the reader does that rests at the same place. -/
theorem splitWalk_eq (delimiter : UInt8) (quote : Option UInt8) (depth : Int) (s : Bytes) :
    splitWalk delimiter quote depth s =
      splitTopLevelFrom delimiter (Scan.resting quote depth) s := by
  fun_induction splitWalk delimiter quote depth s with
  | case1 => rfl
  | case2 =>
    rw [splitTopLevelFrom_cons_of_isTopLevel rfl]
    rfl
  | case3 quote depth b hbackslash c rest ih =>
    obtain rfl := beq_iff_eq.mp hbackslash
    rw [splitTopLevelFrom_cons_of_isTopLevel rfl, splitTopLevelFrom_cons_of_isTopLevel rfl,
      Scan.step_backslash_step, ih]
  | case4 quote depth b rest hbackslash hclosing ih =>
    obtain rfl := beq_iff_eq.mp hclosing
    rw [splitTopLevelFrom_cons_of_isTopLevel rfl,
      Scan.step_closing (by simpa using hbackslash), ih]
  | case5 quote depth b rest hbackslash hinside ih =>
    rw [splitTopLevelFrom_cons_of_isTopLevel rfl,
      Scan.step_inside (by simpa using hbackslash) (by simpa using hinside), ih]
  | case6 depth b rest hopening ih =>
    rw [splitTopLevelFrom_cons_of_isBracket (by simp_all [Scan.isBracket]),
      Scan.step_opening (by simpa using hopening), ih]
  | case7 depth b rest hquote hopen ih =>
    obtain rfl := beq_iff_eq.mp hopen
    rw [splitTopLevelFrom_cons_of_isBracket rfl, ih]
    rfl
  | case8 depth b rest hquote hopen hclose ih =>
    obtain rfl := beq_iff_eq.mp hclose
    rw [splitTopLevelFrom_cons_of_isBracket rfl, ih]
    rfl
  | case9 depth b rest hquote hopen hclose hcut part parts hparts ih =>
    have hplain : Scan.isBracket b = false := by simp_all [Scan.isBracket]
    have hstep : (Scan.resting none depth).step b = Scan.resting none depth :=
      Scan.step_of_isBracket_eq_false hplain depth
    rw [Bool.and_eq_true] at hcut
    have htop : (Scan.resting none depth).isTopLevel = true := hcut.2
    rw [splitTopLevelFrom, hstep, ← ih, hparts]
    simp only [hcut.1, htop, hplain, Bool.not_false, Bool.and_self, if_true]
  | case10 depth b rest hquote hopen hclose hkept ih =>
    have hplain : Scan.isBracket b = false := by simp_all [Scan.isBracket]
    have hstep : (Scan.resting none depth).step b = Scan.resting none depth :=
      Scan.step_of_isBracket_eq_false hplain depth
    have hnot : (b == delimiter && (Scan.resting none depth).isTopLevel) = false :=
      Bool.eq_false_iff.mpr hkept
    rw [splitTopLevelFrom_cons_of_kept (by rw [hnot, Bool.false_and]), hstep, ih]

/-- The parts of a text are those that the walk with a state for each byte finds. -/
theorem splitTopLevel_eq (delimiter : UInt8) (s : Bytes) :
    splitTopLevel delimiter s = splitTopLevelFrom delimiter Scan.start s :=
  splitWalk_eq delimiter none 0 s

/-! ## Finding -/

/-- The offsets, counted from `offset`, at which a mark stands at top level for a reader in state
`scan`. -/
def findTopLevelFrom (mark : Bytes) : Scan → Nat → Bytes → List Nat
  | _, _, [] => []
  | scan, offset, b :: rest =>
    let later := findTopLevelFrom mark (scan.step b) (offset + 1) rest
    if scan.isTopLevel && mark.isPrefixOf (b :: rest) then offset :: later else later

/-- Nothing is found where a byte does not stand at top level. -/
theorem findTopLevelFrom_cons_of_isTopLevel {scan : Scan} (h : scan.isTopLevel = false)
    (mark : Bytes) (offset : Nat) (b : UInt8) (rest : Bytes) :
    findTopLevelFrom mark scan offset (b :: rest) =
      findTopLevelFrom mark (scan.step b) (offset + 1) rest := by
  simp only [findTopLevelFrom, h, Bool.false_and, Bool.false_eq_true, if_false]

/-- Outside literals the reader goes on by what it has just read. -/
theorem findTopLevelFrom_step (mark : Bytes) (depth : Int) (offset : Nat) (b : UInt8)
    (rest : Bytes) :
    findTopLevelFrom mark ((Scan.resting none depth).step b) offset rest =
      if b == Byte.doubleQuote || b == Byte.apostrophe then
        findTopLevelFrom mark (Scan.resting (some b) depth) offset rest
      else if b == Byte.openParen then
        findTopLevelFrom mark (Scan.resting none (depth + 1)) offset rest
      else if b == Byte.closeParen then
        findTopLevelFrom mark (Scan.resting none (depth - 1)) offset rest
      else findTopLevelFrom mark (Scan.resting none depth) offset rest := by
  simp only [Scan.step, Scan.resting]
  split_ifs <;> rfl

/-- A walk finds a mark where the reader does that rests at the same place. -/
theorem findWalk_eq (mark : Bytes) (quote : Option UInt8) (depth : Int) (offset : Nat) (s : Bytes) :
    findWalk mark quote depth offset s =
      findTopLevelFrom mark (Scan.resting quote depth) offset s := by
  fun_induction findWalk mark quote depth offset s with
  | case1 => rfl
  | case2 =>
    rw [findTopLevelFrom_cons_of_isTopLevel rfl]
    rfl
  | case3 quote depth offset b hbackslash c rest ih =>
    obtain rfl := beq_iff_eq.mp hbackslash
    rw [findTopLevelFrom_cons_of_isTopLevel rfl, findTopLevelFrom_cons_of_isTopLevel rfl,
      Scan.step_backslash_step, ih]
  | case4 quote depth offset b rest hbackslash hclosing ih =>
    obtain rfl := beq_iff_eq.mp hclosing
    rw [findTopLevelFrom_cons_of_isTopLevel rfl,
      Scan.step_closing (by simpa using hbackslash), ih]
  | case5 quote depth offset b rest hbackslash hinside ih =>
    rw [findTopLevelFrom_cons_of_isTopLevel rfl,
      Scan.step_inside (by simpa using hbackslash) (by simpa using hinside), ih]
  | case6 depth offset b rest later hfound ih ihClose ihOpen ihQuote =>
    have hlater := findTopLevelFrom_step mark depth (offset + 1) b rest
    rw [← ih, ← ihClose, ← ihOpen, ← ihQuote] at hlater
    have htop : ((Scan.resting none depth).isTopLevel && mark.isPrefixOf (b :: rest)) = true :=
      hfound
    rw [findTopLevelFrom, hlater, htop]
    rfl
  | case7 depth offset b rest later hmissed ih ihClose ihOpen ihQuote =>
    have hlater := findTopLevelFrom_step mark depth (offset + 1) b rest
    rw [← ih, ← ihClose, ← ihOpen, ← ihQuote] at hlater
    have htop : ((Scan.resting none depth).isTopLevel && mark.isPrefixOf (b :: rest)) = false :=
      Bool.eq_false_iff.mpr hmissed
    rw [findTopLevelFrom, hlater, htop]
    rfl

/-- The places of a mark are those that the walk with a state for each byte finds. -/
theorem findTopLevel_eq (mark s : Bytes) :
    findTopLevel mark s = findTopLevelFrom mark Scan.start 0 s :=
  findWalk_eq mark none 0 0 s

end Bytes

end Stencil
