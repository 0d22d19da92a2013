import Stencil.Proofs.Bytes.Walk

/-!
# Texts that a scanner passes

A text is passed at a depth of parentheses when a reader that comes to it outside of literals meets
a given byte nowhere in it at top level, and is back outside at the same depth behind it. Words,
literals, and passed texts in parentheses or behind one another are passed. A walk goes over a
passed text as one piece, so that parts joined by a delimiter are split where they were joined
(`Bytes.topLevelParts_intercalate`).
-/

set_option autoImplicit false

namespace Stencil

namespace Bytes

/-- A run of bytes of a kind is read up to where it stops. -/
theorem readWhile_append {p : UInt8 → Bool} {s : Bytes} (rest : Bytes) (hs : ∀ b ∈ s, p b = true)
    (hrest : ∀ b, rest.head? = some b → p b = false) : readWhile p (s ++ rest) = (s, rest) := by
  rw [readWhile, List.takeWhile_append_of_pos hs, List.dropWhile_append_of_pos hs]
  cases rest with
  | nil => simp
  | cons b more => simp [hrest b rfl]

/-! ## Texts joined by a separator -/

/-- What holds of the parts and the separator, and of texts behind one another, holds of the parts
joined by the separator. -/
theorem intercalate_induction (property : Bytes → Prop) (hnil : property [])
    (happend : ∀ s t, property s → property t → property (s ++ t)) {separator : Bytes}
    (hseparator : property separator) {parts : List Bytes}
    (hparts : ∀ part ∈ parts, property part) : property (separator.intercalate parts) := by
  induction parts with
  | nil => exact hnil
  | cons part parts ih =>
    rw [List.forall_mem_cons] at hparts
    by_cases hend : parts = []
    · simpa [hend, List.intercalate] using hparts.1
    · rw [List.intercalate_cons_of_ne_nil hend]
      exact happend _ _ (happend _ _ hparts.1 hseparator) (ih hparts.2)

/-! ## Texts without blanks at their ends -/

/-- A text that begins and ends with a byte that is not stripped. -/
structure IsTrimmed (s : Bytes) : Prop where
  first : s.head?.map isGap = some false
  last : s.getLast?.map isGap = some false

namespace IsTrimmed

variable {s t : Bytes}

/-- A trimmed text has nothing to strip. -/
theorem strip_eq (h : IsTrimmed s) : s.strip = s := stripOf_eq_self h.first h.last

/-- A trimmed text has a first byte. -/
theorem ne_nil (h : IsTrimmed s) : s ≠ [] := by
  rintro rfl
  cases h.first

/-- Bytes to be stripped before a trimmed text are stripped. -/
theorem strip_append (h : IsTrimmed s) (lead : Bytes) (hlead : lead.all isGap = true) :
    Bytes.strip (lead ++ s) = s :=
  strip_lead lead s hlead h.first h.last

/-- A text without blanks is trimmed, unless it is empty. -/
theorem of_forall (hne : s ≠ []) (h : ∀ b ∈ s, isGap b = false) : IsTrimmed s where
  first := by
    obtain ⟨first, rest, rfl⟩ := List.exists_cons_of_ne_nil hne
    exact congrArg some (h first (.head _))
  last := by
    rw [List.getLast?_eq_some_getLast hne]
    exact congrArg some (h _ (List.getLast_mem hne))

/-- Whatever stands between two trimmed texts. -/
theorem around (hs : IsTrimmed s) (ht : IsTrimmed t) (middle : Bytes) :
    IsTrimmed (s ++ middle ++ t) where
  first := by
    obtain ⟨first, rest, rfl⟩ := List.exists_cons_of_ne_nil hs.ne_nil
    exact hs.first
  last := by
    obtain ⟨last, hlast⟩ := Option.isSome_iff_exists.mp (by simpa using ht.ne_nil :
      t.getLast?.isSome = true)
    rw [List.getLast?_append, hlast]
    simpa [hlast] using ht.last

/-- Trimmed texts stay trimmed when they are joined, whatever stands between them. -/
theorem intercalate (separator : Bytes) {parts : List Bytes} (hne : parts ≠ [])
    (h : ∀ part ∈ parts, IsTrimmed part) : IsTrimmed (separator.intercalate parts) := by
  induction parts with
  | nil => exact absurd rfl hne
  | cons part parts ih =>
    rw [List.forall_mem_cons] at h
    by_cases hend : parts = []
    · simpa [hend, List.intercalate] using h.1
    · rw [List.intercalate_cons_of_ne_nil hend]
      exact h.1.around (ih hend h.2) separator

end IsTrimmed

end Bytes

/-! ## Passed texts -/

namespace Scan

/-- No byte of a text read from a state is a given one at top level. -/
def Hides (b : UInt8) : Scan → Bytes → Prop
  | _, [] => True
  | scan, c :: rest => (scan.isTopLevel = true → c ≠ b) ∧ (scan.step c).Hides b rest

/-- A text in two parts hides a byte exactly when both do, the second one from where the first
ends. -/
theorem hides_append {b : UInt8} {scan : Scan} {s t : Bytes} :
    scan.Hides b (s ++ t) ↔ scan.Hides b s ∧ (s.foldl step scan).Hides b t := by
  induction s generalizing scan with
  | nil => simp [Hides]
  | cons c rest ih => simp [Hides, ih, and_assoc]

/-- An enclosed text hides every byte. -/
theorem Encloses.hides {b : UInt8} {scan : Scan} {s : Bytes} (h : scan.Encloses s) :
    scan.Hides b s := by
  induction s generalizing scan with
  | nil => trivial
  | cons c rest ih =>
    refine ⟨fun htop => ?_, ih h.2⟩
    rw [isTopLevel_eq_false h.1] at htop
    cases htop

/-- A reader that is outside of literals at a depth meets no byte of a kind at top level in a text,
and is there again behind it. -/
structure Passes (b : UInt8) (depth : Int) (s : Bytes) : Prop where
  hides : (outside depth).Hides b s
  returns : s.foldl step (outside depth) = outside depth

namespace Passes

variable {b : UInt8} {depth : Int} {s t : Bytes}

/-- The empty text is passed over. -/
theorem nil : Passes b depth [] := ⟨trivial, rfl⟩

/-- Two texts in a row are passed over when each is. -/
theorem append (hs : Passes b depth s) (ht : Passes b depth t) : Passes b depth (s ++ t) where
  hides := hides_append.mpr ⟨hs.hides, by rw [hs.returns]; exact ht.hides⟩
  returns := by rw [List.foldl_append, hs.returns, ht.returns]

/-- A text without quotes and parentheses is passed over when the byte is not in it. -/
theorem of_plain (hplain : ∀ c ∈ s, isBracket c = false) (hb : b ∉ s) : Passes b depth s := by
  induction s with
  | nil => exact nil
  | cons c rest ih =>
    rw [List.forall_mem_cons] at hplain
    rw [List.mem_cons, not_or] at hb
    obtain ⟨hhides, hreturns⟩ := ih hplain.2 hb.2
    have hstep : (outside depth).step c = outside depth :=
      step_of_isBracket_eq_false hplain.1 depth
    exact ⟨⟨fun _ => Ne.symm hb.1, by rw [hstep]; exact hhides⟩,
      by rw [List.foldl_cons, hstep]; exact hreturns⟩

/-- A delimiter other than the byte that is looked for. -/
theorem singleton {c : UInt8} (hplain : isBracket c = false) (hne : b ≠ c) : Passes b depth [c] :=
  of_plain (List.forall_mem_singleton.mpr hplain) fun hmem => hne (List.mem_singleton.mp hmem)

/-- A quoted literal is passed over whatever it holds. -/
theorem encode (hb : b ≠ Byte.doubleQuote) (s : Bytes) : Passes b depth (Quoted.encode s) := by
  obtain ⟨hencloses, hreturns⟩ := encloses_rest_encode depth s
  exact ⟨⟨fun _ => hb.symm, hencloses.hides⟩, hreturns⟩

/-- Parentheses around a text that is passed one level deeper. -/
theorem parens (hb : isBracket b = false) (hs : Passes b (depth + 1) s) :
    Passes b depth (Byte.openParen :: (s ++ [Byte.closeParen])) := by
  have hopen : (outside depth).step Byte.openParen = outside (depth + 1) := rfl
  have hclose : (outside (depth + 1)).step Byte.closeParen = outside depth := by
    show outside (depth + 1 - 1) = outside depth
    rw [Int.add_sub_cancel]
  have hne : Byte.openParen ≠ b ∧ Byte.closeParen ≠ b := by
    constructor <;> rintro rfl <;> cases hb
  constructor
  · refine ⟨fun _ => hne.1, ?_⟩
    rw [hopen, hides_append, hs.returns]
    exact ⟨hs.hides, fun _ => hne.2, trivial⟩
  · rw [List.foldl_cons, hopen, List.foldl_append, hs.returns]
    exact hclose

/-- Texts with a separator between them are passed over when all of these are. -/
theorem intercalate {separator : Bytes} (hseparator : Passes b depth separator)
    {parts : List Bytes} (hparts : ∀ part ∈ parts, Passes b depth part) :
    Passes b depth (separator.intercalate parts) :=
  Bytes.intercalate_induction (Passes b depth) nil (fun _ _ hs ht => hs.append ht) hseparator hparts

end Passes

end Scan

/-! ## Walks over passed texts -/

namespace Bytes

/-- A text that hides the delimiter is not split. -/
theorem splitTopLevelFrom_of_hides {delimiter : UInt8} {scan : Scan} {s : Bytes}
    (h : scan.Hides delimiter s) (rest : Bytes) :
    splitTopLevelFrom delimiter scan (s ++ rest) =
      (s ++ (splitTopLevelFrom delimiter (s.foldl Scan.step scan) rest).1,
        (splitTopLevelFrom delimiter (s.foldl Scan.step scan) rest).2) := by
  induction s generalizing scan with
  | nil => rfl
  | cons c tail ih =>
    have hkept : (c == delimiter && scan.isTopLevel && !Scan.isBracket c) = false := by
      cases htop : scan.isTopLevel with
      | false => simp
      | true => simp [h.1 htop]
    rw [List.cons_append, splitTopLevelFrom, ih h.2]
    simp [hkept]

/-- No mark is found in a text that hides its first byte. -/
theorem findTopLevelFrom_of_hides {first : UInt8} {more : Bytes} {scan : Scan} {s : Bytes}
    (h : scan.Hides first s) (offset : Nat) (rest : Bytes) :
    findTopLevelFrom (first :: more) scan offset (s ++ rest) =
      findTopLevelFrom (first :: more) (s.foldl Scan.step scan) (offset + s.length) rest := by
  induction s generalizing scan offset with
  | nil => rfl
  | cons c tail ih =>
    have hnot : (scan.isTopLevel && (first :: more).isPrefixOf (c :: (tail ++ rest))) = false := by
      cases htop : scan.isTopLevel with
      | false => rfl
      | true => simp [List.isPrefixOf, (h.1 htop).symm]
    rw [List.cons_append, findTopLevelFrom, ih h.2]
    simp [hnot, Nat.add_comm tail.length, Nat.add_assoc]

variable {delimiter first : UInt8} {more s : Bytes} {depth : Int}

/-- A part goes on behind a text that the delimiter is passed over in. -/
theorem splitTopLevelFrom_of_passes (h : Scan.Passes delimiter depth s) (rest : Bytes) :
    splitTopLevelFrom delimiter (Scan.outside depth) (s ++ rest) =
      (s ++ (splitTopLevelFrom delimiter (Scan.outside depth) rest).1,
        (splitTopLevelFrom delimiter (Scan.outside depth) rest).2) := by
  rw [splitTopLevelFrom_of_hides h.hides, h.returns]

/-- A search goes on behind a text that the first byte of its mark is passed over in. -/
theorem findTopLevelFrom_of_passes (h : Scan.Passes first depth s) (offset : Nat) (rest : Bytes) :
    findTopLevelFrom (first :: more) (Scan.outside depth) offset (s ++ rest) =
      findTopLevelFrom (first :: more) (Scan.outside depth) (offset + s.length) rest := by
  rw [findTopLevelFrom_of_hides h.hides, h.returns]

/-- Parts joined by a delimiter that none of them shows are split where they were joined. -/
theorem topLevelParts_intercalate (hdelimiter : Scan.isBracket delimiter = false)
    {parts : List Bytes} (hne : parts ≠ [])
    (hparts : ∀ part ∈ parts, Scan.Passes delimiter 0 part) :
    topLevelParts delimiter ([delimiter].intercalate parts) = parts := by
  induction parts with
  | nil => exact absurd rfl hne
  | cons part parts ih =>
    rw [List.forall_mem_cons] at hparts
    by_cases hend : parts = []
    · have hwalk := splitTopLevelFrom_of_passes hparts.1 []
      rw [List.append_nil, splitTopLevelFrom, List.append_nil] at hwalk
      rw [hend, List.intercalate_singleton, topLevelParts, splitTopLevel_eq]
      simp only [show Scan.start = Scan.outside 0 from rfl, hwalk]
    · have hrest := ih hend hparts.2
      have hstep : (Scan.outside 0).step delimiter = Scan.outside 0 :=
        Scan.step_of_isBracket_eq_false hdelimiter 0
      have htop : (Scan.outside 0).isTopLevel = true := rfl
      rw [topLevelParts, splitTopLevel_eq, show Scan.start = Scan.outside 0 from rfl] at hrest ⊢
      rw [List.intercalate_cons_of_ne_nil hend, List.append_assoc,
        splitTopLevelFrom_of_passes hparts.1, List.singleton_append, splitTopLevelFrom, hstep]
      simp only [beq_self_eq_true, htop, hdelimiter, Bool.not_false, Bool.and_self, if_true,
        List.append_nil, hrest]

end Bytes

end Stencil
