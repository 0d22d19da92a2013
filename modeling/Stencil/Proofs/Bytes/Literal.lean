import Stencil.Bytes.Quoted
import Stencil.Bytes.TopLevel

/-!
# Literals under the scanners

A text that is written as a literal passes every scanner as one piece. No byte of it behind the
opening quote stands outside of literals, so that nothing in it is a delimiter or a mark at top
level, and after it the scan is where it was before it. A closing brace or a hash stands in it only
behind a backslash, so that it ends no region and no comment. Both facts are stated for any text
that has them (`Scan.Encloses`, `Bytes.Protects`) and hold for `Quoted.encode`.
-/

set_option autoImplicit false

namespace Stencil

/-! ## Scans inside literals -/

namespace Scan

/-- Outside literals, at a depth of parentheses. -/
def outside (depth : Int) : Scan := { depth }

/-- Inside a literal in double quotes, at a depth of parentheses. -/
def inLiteral (depth : Int) : Scan := { quote := some Byte.doubleQuote, depth }

/-- Whether each byte of a text stands inside a literal when the text is read from a state. -/
def Encloses : Scan → Bytes → Prop
  | _, [] => True
  | scan, b :: rest => scan.isOutside = false ∧ (scan.step b).Encloses rest

/-- A text in two parts is enclosed exactly when both are, the second one from where the first
ends. -/
theorem encloses_append {scan : Scan} {s t : Bytes} :
    scan.Encloses (s ++ t) ↔ scan.Encloses s ∧ (s.foldl step scan).Encloses t := by
  induction s generalizing scan with
  | nil => simp [Encloses]
  | cons b rest ih => simp [Encloses, ih, and_assoc]

/-- Inside a literal nothing is at the top level. -/
theorem isTopLevel_eq_false {scan : Scan} (h : scan.isOutside = false) :
    scan.isTopLevel = false := by
  rw [isTopLevel, h, Bool.false_and]

/-- What stands for a byte inside a literal stays inside it. -/
theorem encloses_escapeByte (depth : Int) (b : UInt8) :
    (inLiteral depth).Encloses (Quoted.escapeByte b) ∧
      (Quoted.escapeByte b).foldl step (inLiteral depth) = inLiteral depth := by
  unfold Quoted.escapeByte
  split
  · exact ⟨⟨rfl, rfl, trivial⟩, rfl⟩
  split
  · exact ⟨⟨rfl, rfl, trivial⟩, rfl⟩
  split
  · exact ⟨⟨rfl, rfl, trivial⟩, rfl⟩
  split
  · exact ⟨⟨rfl, rfl, trivial⟩, rfl⟩
  · rename_i hplain
    simp only [Bool.or_eq_true, not_or, Bool.not_eq_true] at hplain
    refine ⟨⟨rfl, trivial⟩, ?_⟩
    simp [step, inLiteral, hplain]

/-- What is escaped stays in its literal, and leaves the literal open. -/
theorem encloses_escape (depth : Int) (s : Bytes) :
    (inLiteral depth).Encloses (Quoted.escape s) ∧
      (Quoted.escape s).foldl step (inLiteral depth) = inLiteral depth := by
  induction s with
  | nil => exact ⟨trivial, rfl⟩
  | cons b rest ih =>
    obtain ⟨hencloses, hstep⟩ := encloses_escapeByte depth b
    rw [Quoted.escape, List.flatMap_cons, encloses_append, List.foldl_append, hstep]
    exact ⟨⟨hencloses, ih.1⟩, ih.2⟩

/-- The inside of a literal and its closing quote are enclosed, and the quote leads out of it. -/
theorem encloses_rest_encode (depth : Int) (s : Bytes) :
    (inLiteral depth).Encloses (Quoted.escape s ++ [Byte.doubleQuote]) ∧
      (Quoted.escape s ++ [Byte.doubleQuote]).foldl step (inLiteral depth) = outside depth := by
  obtain ⟨hencloses, hstep⟩ := encloses_escape depth s
  rw [encloses_append, List.foldl_append, hstep]
  exact ⟨⟨hencloses, rfl, trivial⟩, rfl⟩

end Scan

namespace Bytes

/-! ## Bytes behind a backslash -/

/-- Whether a byte stands in a text only right behind a backslash. -/
def Protects (b : UInt8) (s : Bytes) : Prop :=
  ∀ before after, s = before ++ b :: after → before.getLast? = some Byte.backslash

namespace Protects

variable {b : UInt8} {s t : Bytes}

/-- A byte that does not occur needs no protection. -/
theorem of_notMem (h : b ∉ s) : Protects b s := by
  rintro before after rfl
  simp at h

/-- What stands behind a backslash is protected. -/
theorem behind (hb : b ≠ Byte.backslash) (c : UInt8) : Protects b [Byte.backslash, c] := by
  intro before after heq
  cases before with
  | nil => exact absurd (List.cons.inj heq).1.symm hb
  | cons first rest =>
    obtain ⟨rfl, hrest⟩ := List.cons.inj heq
    cases rest with
    | nil => rfl
    | cons second rest => simp at hrest

/-- Protection goes over to two texts in a row. -/
theorem append (hs : Protects b s) (ht : Protects b t) : Protects b (s ++ t) := by
  intro before after heq
  obtain ⟨middle, rfl, hmiddle⟩ | ⟨middle, rfl, hmiddle⟩ := List.append_eq_append_iff.mp heq
  · -- The byte stands in the second text, whatever of it stands before the byte.
    have hlast := ht middle after hmiddle
    simp [List.getLast?_append, hlast]
  · cases middle with
    | nil =>
      have hlast := ht [] after hmiddle.symm
      simp at hlast
    | cons first rest =>
      obtain ⟨rfl, hrest⟩ := List.cons.inj hmiddle
      exact hs before rest rfl

/-- Protection goes over to what is put together byte by byte. -/
theorem flatMap {f : UInt8 → Bytes} (hf : ∀ c, Protects b (f c)) (s : Bytes) :
    Protects b (s.flatMap f) := by
  induction s with
  | nil => exact of_notMem (by simp)
  | cons c rest ih =>
    rw [List.flatMap_cons]
    exact (hf c).append ih

/-- A mark that ends in a protected byte does not occur. -/
theorem breakOn_eq_none (h : Protects b s) {a : UInt8} (ha : a ≠ Byte.backslash) :
    breakOn [a, b] s = none := by
  cases hbreak : breakOn [a, b] s with
  | none => rfl
  | some parts =>
    obtain ⟨before, after⟩ := parts
    have hlast := h (before ++ [a]) after (by simpa using eq_append_of_breakOn hbreak)
    simp [ha] at hlast

end Protects

/-- A text is broken at a mark that does not begin earlier. -/
theorem breakOn_append (mark before after : Bytes) (hmark : mark ≠ [])
    (h : ∀ index < before.length, ¬mark <+: before.drop index ++ mark ++ after) :
    breakOn mark (before ++ mark ++ after) = some (before, after) := by
  induction before with
  | nil =>
    obtain ⟨first, more, rfl⟩ := List.exists_cons_of_ne_nil hmark
    have hstarts : (first :: more).isPrefixOf (first :: (more ++ after)) = true :=
      List.isPrefixOf_iff_prefix.mpr ⟨after, rfl⟩
    rw [List.nil_append, List.cons_append, breakOn, if_pos hstarts]
    simp
  | cons b rest ih =>
    have hfirst : ¬mark.isPrefixOf (b :: (rest ++ mark ++ after)) = true := fun hstarts =>
      h 0 (by simp) (List.isPrefixOf_iff_prefix.mp hstarts)
    rw [List.cons_append, List.cons_append, breakOn, if_neg hfirst,
      ih fun index hindex => h (index + 1) (by simpa using hindex)]
    rfl

/-- A text that protects the second byte of a mark is broken at the mark behind it. -/
theorem Protects.breakOn_append {a b : UInt8} {before : Bytes} (h : Protects b before)
    (ha : a ≠ Byte.backslash) (hne : a ≠ b) (after : Bytes) :
    breakOn [a, b] (before ++ [a, b] ++ after) = some (before, after) := by
  apply Bytes.breakOn_append _ _ after (by simp)
  intro index hindex hstarts
  obtain ⟨tail, htail⟩ := hstarts
  have hsplit : before.take index ++ before.drop index = before := List.take_append_drop _ _
  cases hdrop : before.drop index with
  | nil => simp at hdrop; omega
  | cons first rest =>
    cases rest with
    | nil => simp_all
    | cons second rest =>
      simp only [hdrop, List.cons_append, List.nil_append, List.cons.injEq] at htail
      obtain ⟨rfl, rfl, -⟩ := htail
      have heq : before = before.take index ++ [a] ++ b :: rest := by
        calc before = before.take index ++ before.drop index := hsplit.symm
          _ = before.take index ++ [a] ++ b :: rest := by rw [hdrop, List.append_assoc]; rfl
      have hlast := h _ rest heq
      simp [ha] at hlast

end Bytes

namespace Quoted

variable {b : UInt8}

/-- A closing brace or a hash is written behind a backslash. -/
theorem protects_escapeByte (hb : b = Byte.closeBrace ∨ b = 0x23) (c : UInt8) :
    Bytes.Protects b (escapeByte c) := by
  have hbackslash : b ≠ Byte.backslash := by
    obtain rfl | rfl := hb <;> decide
  unfold escapeByte
  split
  · exact .behind hbackslash _
  split
  · exact .behind hbackslash _
  split
  · exact .behind hbackslash _
  split
  · exact .behind hbackslash _
  · rename_i hplain
    apply Bytes.Protects.of_notMem
    rw [List.mem_singleton]
    rintro rfl
    obtain rfl | rfl := hb <;> exact hplain (by decide)

/-- A closing brace or a hash stands in a literal only behind a backslash. -/
theorem protects_encode (hb : b = Byte.closeBrace ∨ b = 0x23) (s : Bytes) :
    Bytes.Protects b (encode s) := by
  have hquote : Bytes.Protects b [Byte.doubleQuote] := by
    apply Bytes.Protects.of_notMem
    obtain rfl | rfl := hb <;> decide
  exact (hquote.append (.flatMap (protects_escapeByte hb) s)).append hquote

/-- No newline stands in a literal. -/
theorem newline_notMem_encode (s : Bytes) : Byte.newline ∉ encode s := by
  have hbyte : ∀ c, Byte.newline ∉ escapeByte c := by
    intro c
    unfold escapeByte
    split
    · decide
    split
    · decide
    split
    · decide
    split
    · rename_i hmark
      rintro hmem
      obtain hbackslash | rfl : Byte.newline = Byte.backslash ∨ Byte.newline = c := by
        simpa using hmem
      · exact absurd hbackslash (by decide)
      · exact absurd hmark (by decide)
    · rename_i hnewline _ _ _
      rintro hmem
      obtain rfl : Byte.newline = c := by simpa using hmem
      exact hnewline (by decide)
  have hquote : Byte.newline ≠ Byte.doubleQuote := by decide
  simp [encode, escape, hbyte, hquote]

end Quoted

/-! ## Stripping -/

namespace Bytes

/-- A text with nothing to strip at its ends is what is left when bytes to be stripped stand around
it. -/
theorem stripWhile_append {p : UInt8 → Bool} (lead core trail : Bytes)
    (hlead : lead.all p = true) (htrail : trail.all p = true)
    (hfirst : core.head?.map p = some false) (hlast : core.getLast?.map p = some false) :
    stripWhile p (lead ++ core ++ trail) = core := by
  obtain ⟨first, hhead, hpfirst⟩ := Option.map_eq_some_iff.mp hfirst
  obtain ⟨last, hend, hplast⟩ := Option.map_eq_some_iff.mp hlast
  have hdropLead : (lead ++ core ++ trail).dropWhile p = core ++ trail := by
    obtain ⟨more, rfl⟩ := List.head?_eq_some_iff.mp hhead
    rw [List.append_assoc, List.dropWhile_append_of_pos (by simpa using hlead), List.cons_append,
      List.dropWhile_cons_of_neg (by simp [hpfirst])]
  have hdropTrail : (core ++ trail).reverse.dropWhile p = core.reverse := by
    obtain ⟨more, hcore⟩ : ∃ more, core.reverse = last :: more := by
      rw [← List.head?_reverse] at hend
      exact List.head?_eq_some_iff.mp hend
    rw [List.reverse_append, List.dropWhile_append_of_pos (by simpa using htrail), hcore,
      List.dropWhile_cons_of_neg (by simp [hplast])]
  rw [stripWhile, hdropLead, dropEndWhile, hdropTrail, List.reverse_reverse]

/-- Whether a byte of a set, or a NUL byte, is dropped at the ends of a text. -/
def isStripped (set : Bytes) (b : UInt8) : Bool := b == 0 || set.untilNul.contains b

/-- A text with nothing to strip at its ends is left as it is. -/
theorem stripOf_eq_self {set core : Bytes} (hfirst : core.head?.map (isStripped set) = some false)
    (hlast : core.getLast?.map (isStripped set) = some false) : core.stripOf set = core := by
  have hstrip := stripWhile_append [] core [] rfl rfl hfirst hlast
  rwa [List.nil_append, List.append_nil] at hstrip

/-- Whether a byte is dropped at the ends of a statement. -/
abbrev isGap : UInt8 → Bool := isStripped (ascii " \t\n\r")

/-- Stripping takes off the blanks on both sides of a text that begins and ends with none. -/
theorem strip_append (lead core trail : Bytes) (hlead : lead.all isGap = true)
    (htrail : trail.all isGap = true) (hfirst : core.head?.map isGap = some false)
    (hlast : core.getLast?.map isGap = some false) : strip (lead ++ core ++ trail) = core :=
  stripWhile_append lead core trail hlead htrail hfirst hlast

/-- A text with nothing to strip at its end is what is left of it behind bytes to be stripped. -/
theorem strip_lead (lead core : Bytes) (hlead : lead.all isGap = true)
    (hfirst : core.head?.map isGap = some false) (hlast : core.getLast?.map isGap = some false) :
    strip (lead ++ core) = core := by
  have hstrip := strip_append lead core [] hlead rfl hfirst hlast
  rwa [List.append_nil] at hstrip

end Bytes

end Stencil
