import Stencil.Proofs.Number.Plain

/-!
# The spellings of a floating point number

What is read up to its end as a floating point number is spelled in one of two ways
(`Numeral.readReal?_eq_some_iff`). A decimal spelling has a sign or none, digits with an optional
point among or around them, and an optional exponent. The others are foreign to the markup: words
for an infinity, words for no number with an optional tag, and hexadecimal numerals. A stripped text
that spells a number in range holds that number, and no other text holds one
(`Numeral.real?_eq_some_iff`).
-/

set_option autoImplicit false

namespace Stencil

namespace Numeral

/-! ## Signs and exponents -/

/-- The spellings of a sign, and whether it is a minus. -/
inductive IsSign : Bytes → Bool → Prop
  | absent : IsSign [] false
  | plus : IsSign [Byte.plus] false
  | minus : IsSign [Byte.minus] true

/-- Whether a text begins with no sign. -/
def IsUnsigned (s : Bytes) : Prop := ∀ b, s.head? = some b → b ≠ Byte.plus ∧ b ≠ Byte.minus

section Exponent

variable {negative : Bool} {sign s digits marks : Bytes} {e : Int}

/-- Every text begins with one of the spellings of a sign, the empty one included. -/
theorem exists_isSign (s : Bytes) :
    ∃ sign, IsSign sign (readSign s).1 ∧ s = sign ++ (readSign s).2 := by
  unfold readSign
  split
  · exact ⟨_, .minus, rfl⟩
  · exact ⟨_, .plus, rfl⟩
  · exact ⟨_, .absent, rfl⟩

/-- A sign in front of a text without one is read off it. -/
theorem IsSign.readSign_append (h : IsSign sign negative) (hs : IsUnsigned s) :
    readSign (sign ++ s) = (negative, s) := by
  cases h with
  | plus | minus => rfl
  | absent =>
    cases s with
    | nil => rfl
    | cons b more => simp [readSign, hs b rfl]

/-- Digits begin with no sign. -/
theorem isUnsigned_of_decimal (hdecimal : ∀ b ∈ digits, Byte.isDigit b = true) :
    IsUnsigned digits := fun _ hb =>
  Byte.forall_of_isDigit (fun b => b ≠ Byte.plus ∧ b ≠ Byte.minus) (by decide)
    (hdecimal _ (List.mem_of_mem_head? hb))

/-- The spellings of an exponent behind one of some marks, and its value. Nothing spells zero. -/
inductive IsExponent (marks : Bytes) : Bytes → Int → Prop
  | absent : IsExponent marks [] 0
  | marked {mark : UInt8} {sign digits : Bytes} {negative : Bool} (hmark : mark ∈ marks)
      (hsign : IsSign sign negative) (hnonempty : digits ≠ [])
      (hdecimal : ∀ b ∈ digits, Byte.isDigit b = true) :
      IsExponent marks (mark :: (sign ++ digits))
        (if negative then -(Decimal.toNat digits : Int) else Decimal.toNat digits)

/-- The reader of exponents is sound and complete for their spellings. -/
theorem readExponent_eq_iff : readExponent marks s = (e, []) ↔ IsExponent marks s e := by
  constructor
  · intro h
    cases s with
    | nil =>
      cases h
      exact .absent
    | cons mark tail =>
      simp only [readExponent] at h
      split at h
      · rename_i hmark
        split at h
        · rename_i digits _ hread
          obtain ⟨rfl, rfl⟩ := Prod.mk.inj h
          obtain ⟨hdigits, hnonempty, hdecimal⟩ := eq_append_of_readDigits? hread
          obtain ⟨sign, hsign, htail⟩ := exists_isSign tail
          have hexponent :=
            IsExponent.marked (List.contains_iff_mem.mp hmark) hsign hnonempty hdecimal
          rw [hdigits, List.append_nil] at htail
          rwa [← htail] at hexponent
        · cases (Prod.mk.inj h).2
      · cases (Prod.mk.inj h).2
  · intro h
    cases h with
    | absent => rfl
    | marked hmark hsign hnonempty hdecimal =>
      rw [readExponent, if_pos (List.contains_iff_mem.mpr hmark),
        hsign.readSign_append (isUnsigned_of_decimal hdecimal)]
      simp only [readDigits?_of_decimal hnonempty hdecimal]

end Exponent

/-! ## Digits around a point -/

section Pointed

/-- The spellings of digits with an optional point among or around them: the digits, at least one,
and how many of them follow the point. -/
inductive IsPointed (isDigit : UInt8 → Bool) : Bytes → Bytes → Nat → Prop
  | whole {digits : Bytes} (hnonempty : digits ≠ []) (hdigits : ∀ b ∈ digits, isDigit b = true) :
      IsPointed isDigit digits digits 0
  | pointed {whole fraction : Bytes} (hnonempty : whole ++ fraction ≠ [])
      (hdigits : ∀ b ∈ whole ++ fraction, isDigit b = true) :
      IsPointed isDigit (whole ++ Byte.dot :: fraction) (whole ++ fraction) fraction.length

variable {isDigit : UInt8 → Bool} {s whole tail rest digits : Bytes} {places : Nat}

/-- At a point the digits go on behind it; at least one is needed on either side. -/
theorem readPointed?_of_point (h : Bytes.readWhile isDigit s = (whole, Byte.dot :: tail)) :
    readPointed? isDigit s =
      if whole.isEmpty && (tail.takeWhile isDigit).isEmpty then none
      else some (whole ++ tail.takeWhile isDigit, (tail.takeWhile isDigit).length,
        tail.dropWhile isDigit) := by
  rw [readPointed?, h]
  show (let found :=
      if whole.isEmpty && (tail.takeWhile isDigit).isEmpty then ([], Byte.dot :: tail)
      else (tail.takeWhile isDigit, tail.dropWhile isDigit)
    if whole.isEmpty && found.1.isEmpty then none
    else some (whole ++ found.1, found.1.length, found.2)) = _
  cases hnone : whole.isEmpty && (tail.takeWhile isDigit).isEmpty with
  | true => simp [(Bool.and_eq_true_iff.mp hnone).1]
  | false => simp only [Bool.false_eq_true, if_false, hnone]

/-- Without a point the digits before it are all there are. -/
theorem readPointed?_of_no_point (h : Bytes.readWhile isDigit s = (whole, rest))
    (hrest : ∀ b, rest.head? = some b → b ≠ Byte.dot) :
    readPointed? isDigit s = if whole.isEmpty then none else some (whole, 0, rest) := by
  rw [readPointed?, h]
  cases rest with
  | nil => simp
  | cons b more => simp [hrest b rfl]

/-- The digits that are read around a point are spelled so. -/
theorem exists_isPointed (h : readPointed? isDigit s = some (digits, places, rest)) :
    ∃ front, IsPointed isDigit front digits places ∧ s = front ++ rest := by
  have hmem {b : UInt8} {s : Bytes} (hb : b ∈ s.takeWhile isDigit) : isDigit b = true :=
    List.mem_takeWhile_imp hb
  have hs : s.takeWhile isDigit ++ s.dropWhile isDigit = s := List.takeWhile_append_dropWhile
  by_cases hpoint : ∃ tail, s.dropWhile isDigit = Byte.dot :: tail
  · obtain ⟨tail, hafter⟩ := hpoint
    have hread : Bytes.readWhile isDigit s = (s.takeWhile isDigit, Byte.dot :: tail) :=
      Prod.ext rfl hafter
    rw [readPointed?_of_point hread] at h
    split at h
    · cases h
    · rename_i hnone
      cases h
      have hnonempty : s.takeWhile isDigit ++ tail.takeWhile isDigit ≠ [] := fun hnil => by
        rw [List.append_eq_nil_iff] at hnil
        exact hnone (by rw [hnil.1, hnil.2]; rfl)
      refine ⟨_, .pointed hnonempty fun b hb => (List.mem_append.mp hb).elim hmem hmem, ?_⟩
      rw [List.append_assoc, List.cons_append, List.takeWhile_append_dropWhile, ← hafter, hs]
  · have hother : ∀ b, (s.dropWhile isDigit).head? = some b → b ≠ Byte.dot := by
      rintro b hb rfl
      exact hpoint (List.head?_eq_some_iff.mp hb)
    rw [readPointed?_of_no_point rfl hother] at h
    split at h
    · cases h
    · rename_i hnone
      cases h
      exact ⟨_, .whole (fun hnil => hnone (by rw [hnil]; rfl)) fun b hb => hmem hb, hs.symm⟩

/-- Digits that are spelled around a point are read, whatever else follows them. -/
theorem IsPointed.readPointed?_append {front : Bytes} (h : IsPointed isDigit front digits places)
    (hdot : isDigit Byte.dot = false)
    (hrest : ∀ b, rest.head? = some b → isDigit b = false ∧ b ≠ Byte.dot) :
    readPointed? isDigit (front ++ rest) = some (digits, places, rest) := by
  have hstop : ∀ b, rest.head? = some b → isDigit b = false := fun b hb => (hrest b hb).1
  cases h with
  | whole hnonempty hdigits =>
    rw [readPointed?_of_no_point (Bytes.readWhile_append rest hdigits hstop)
      fun b hb => (hrest b hb).2, if_neg (by simpa using hnonempty)]
  | @pointed whole fraction hnonempty hdigits =>
    have hpoint : ∀ b, (Byte.dot :: (fraction ++ rest)).head? = some b → isDigit b = false := by
      rintro b ⟨⟩
      exact hdot
    have hwhole := Bytes.readWhile_append (Byte.dot :: (fraction ++ rest))
      (fun b hb => hdigits b (List.mem_append_left _ hb)) hpoint
    obtain ⟨hfraction, hafter⟩ := Prod.mk.inj (Bytes.readWhile_append rest
      (fun b hb => hdigits b (List.mem_append_right _ hb)) hstop)
    rw [List.append_assoc, List.cons_append, readPointed?_of_point hwhole, hfraction, hafter,
      if_neg (by simpa [List.isEmpty_iff] using hnonempty)]

end Pointed

/-! ## Numerals in a base -/

namespace Base

/-- Whether a byte is a digit of a base. -/
def isDigit : Base → UInt8 → Bool
  | decimal => Byte.isDigit
  | hexadecimal => fun b => (Byte.hexValue? b).isSome

/-- The marks of an exponent. -/
def marks : Base → Bytes
  | decimal => ascii "eE"
  | hexadecimal => ascii "pP"

/-- The number that a run of digits denotes. -/
def toNat : Base → Bytes → Nat
  | decimal => Decimal.toNat
  | hexadecimal => hexToNat

/-- What a place behind the point takes from the exponent. -/
def place : Base → Int
  | decimal => 1
  | hexadecimal => 4

/-- The mark of an exponent is neither a digit nor the point. -/
theorem isDigit_eq_false_of_mem_marks {base : Base} {b : UInt8} (h : b ∈ base.marks) :
    base.isDigit b = false ∧ b ≠ Byte.dot := by
  have hmarks : ∀ base : Base, ∀ b ∈ base.marks, base.isDigit b = false ∧ b ≠ Byte.dot := by
    intro base
    cases base <;> decide +kernel
  exact hmarks base b h

/-- The point is no digit. -/
theorem isDigit_dot (base : Base) : base.isDigit Byte.dot = false := by
  cases base <;> decide +kernel

/-- A numeral of a base at the start of a text, and what follows it. -/
def read? (base : Base) (negative : Bool) (s : Bytes) : Option (Reading × Bytes) :=
  (readPointed? base.isDigit s).map fun (digits, places, rest) =>
    let (e, rest) := readExponent base.marks rest
    (.scaled negative base (base.toNat digits) (e - base.place * places) digits.length, rest)

/-- In base ten the reader is that of decimal numerals. -/
theorem read?_decimal : read? decimal = readDecimal? := by
  funext negative s
  simp only [read?, readDecimal?, place, Int.one_mul]
  rfl

/-- In base sixteen the reader is that of hexadecimal numerals. -/
theorem read?_hexadecimal : read? hexadecimal = readHexadecimal? := rfl

end Base

/-- The spellings of a number in a base behind its sign, and what they are read as. -/
inductive IsPositional (base : Base) (negative : Bool) : Bytes → Reading → Prop
  | intro {front digits exponent : Bytes} {places : Nat} {e : Int}
      (hpointed : IsPointed base.isDigit front digits places)
      (hexponent : IsExponent base.marks exponent e) :
      IsPositional base negative (front ++ exponent)
        (.scaled negative base (base.toNat digits) (e - base.place * places) digits.length)

variable {base : Base} {negative : Bool} {sign s rest : Bytes} {e : Int} {reading : Reading}

/-- The reader of a base is sound and complete for the spellings in it. -/
theorem Base.read?_eq_some_iff :
    base.read? negative s = some (reading, []) ↔ IsPositional base negative s reading := by
  constructor
  · intro h
    obtain ⟨⟨digits, places, after⟩, hread, hreading⟩ := Option.map_eq_some_iff.mp h
    obtain ⟨front, hpointed, rfl⟩ := exists_isPointed hread
    obtain ⟨rfl, hrest⟩ := Prod.mk.inj hreading
    exact .intro hpointed (readExponent_eq_iff.mp (Prod.ext rfl hrest))
  · rintro ⟨hpointed, hexponent⟩
    rename_i front digits exponent places e
    have hstop : ∀ b, exponent.head? = some b → base.isDigit b = false ∧ b ≠ Byte.dot := by
      cases hexponent with
      | absent => simp
      | marked hmark =>
        rintro b ⟨⟩
        exact isDigit_eq_false_of_mem_marks hmark
    rw [read?, hpointed.readPointed?_append base.isDigit_dot hstop, Option.map_some]
    simp only [readExponent_eq_iff.mpr hexponent]

/-- A sign is a byte of numerals. -/
theorem IsSign.isByte_of_mem {b : UInt8} (h : IsSign sign negative) (hb : b ∈ sign) :
    WrittenDecimal.isByte b = true := by
  cases h with
  | absent => cases hb
  | plus | minus =>
    rw [List.mem_singleton.mp hb]
    rfl

/-- A decimal exponent holds bytes of numerals only. -/
theorem IsExponent.isByte_of_mem {b : UInt8} (h : IsExponent (ascii "eE") s e) (hb : b ∈ s) :
    WrittenDecimal.isByte b = true := by
  have hmarks : ∀ b ∈ ascii "eE", WrittenDecimal.isByte b = true := by decide +kernel
  cases h with
  | absent => cases hb
  | marked hmark hsign hnonempty hdecimal =>
    obtain rfl | hb := List.mem_cons.mp hb
    · exact hmarks _ hmark
    · obtain hb | hb := List.mem_append.mp hb
      · exact hsign.isByte_of_mem hb
      · exact WrittenDecimal.isByte_of_isDigit (hdecimal b hb)

/-- A decimal numeral has no bytes but digits, signs, a point and a mark. -/
theorem IsPositional.isByte_of_mem {b : UInt8} (h : IsPositional .decimal negative s reading)
    (hb : b ∈ s) : WrittenDecimal.isByte b = true := by
  obtain ⟨hpointed, hexponent⟩ := h
  obtain hb | hb := List.mem_append.mp hb
  · cases hpointed with
    | whole hnonempty hdigits => exact WrittenDecimal.isByte_of_isDigit (hdigits b hb)
    | pointed hnonempty hdigits =>
      obtain hb | hb := List.mem_append.mp hb
      · exact WrittenDecimal.isByte_of_isDigit (hdigits b (List.mem_append_left _ hb))
      · obtain rfl | hb := List.mem_cons.mp hb
        · rfl
        · exact WrittenDecimal.isByte_of_isDigit (hdigits b (List.mem_append_right _ hb))
  · exact hexponent.isByte_of_mem hb

/-- A decimal numeral begins with no sign of its own. -/
theorem IsPositional.isUnsigned (h : IsPositional .decimal negative s reading) : IsUnsigned s := by
  obtain ⟨hpointed, -⟩ := h
  have hdigit {b : UInt8} (hb : Byte.isDigit b = true) : b ≠ Byte.plus ∧ b ≠ Byte.minus :=
    Byte.forall_of_isDigit (fun b => b ≠ Byte.plus ∧ b ≠ Byte.minus) (by decide) hb
  intro b hb
  cases hpointed with
  | whole hnonempty hdigits =>
    obtain ⟨first, more, rfl⟩ := List.exists_cons_of_ne_nil hnonempty
    cases hb
    exact hdigit (hdigits _ (.head _))
  | @pointed whole fraction hnonempty hdigits =>
    cases whole with
    | nil =>
      cases hb
      decide
    | cons first more =>
      cases hb
      exact hdigit (hdigits _ (.head _))

/-! ## Words -/

/-- A word is dropped exactly when it stands there, in letters of any case. -/
theorem dropWord?_eq_some_iff {word : Bytes} :
    dropWord? word s = some rest ↔
      ∃ front : Bytes, front.map Byte.toLower = word ∧ s = front ++ rest := by
  constructor
  · intro h
    rw [dropWord?] at h
    split at h
    · rename_i hprefix
      obtain ⟨tail, htail⟩ := List.isPrefixOf_iff_prefix.mp hprefix
      obtain ⟨front, back, rfl, rfl, -⟩ := List.map_eq_append_iff.mp htail.symm
      refine ⟨front, rfl, ?_⟩
      rw [← Option.some.inj h, List.length_map, List.drop_left]
    · cases h
  · rintro ⟨front, rfl, rfl⟩
    rw [dropWord?, if_pos, List.length_map, List.drop_left]
    rw [List.isPrefixOf_iff_prefix, List.map_append]
    exact List.prefix_append _ _

/-- The spellings of a tag: nothing, or a word in parentheses. -/
inductive IsTag : Bytes → Prop
  | absent : IsTag []
  | bracketed {name : Bytes} (hword : ∀ b ∈ name, Byte.isWord b = true) :
      IsTag (Byte.openParen :: (name ++ [Byte.closeParen]))

/-- What may follow the word for no number is dropped as a whole exactly when it is spelled so. -/
theorem dropTag_eq_nil_iff : dropTag s = [] ↔ IsTag s := by
  constructor
  · intro h
    unfold dropTag at h
    split at h
    · rename_i tail
      split at h
      · rename_i hclose
        rw [h] at hclose
        rw [← List.takeWhile_append_dropWhile (p := Byte.isWord) (l := tail), hclose]
        exact .bracketed fun b hb => List.mem_takeWhile_imp hb
      · cases h
    · rw [h]
      exact .absent
  · intro h
    cases h with
    | absent => rfl
    | @bracketed name hword =>
      unfold dropTag
      split
      case h_1 tail hpattern =>
        cases hpattern
        rw [List.dropWhile_append_of_pos hword]
        rfl
      case h_2 hnot => exact absurd rfl (hnot _)

/-- A word that begins with a letter is no sign. -/
theorem isUnsigned_of_map_toLower {word : Bytes} {first : UInt8} {more : Bytes}
    (hword : word.map Byte.toLower = first :: more)
    (hfirst : first ≠ Byte.plus ∧ first ≠ Byte.minus) (rest : Bytes) :
    IsUnsigned (word ++ rest) := by
  obtain ⟨b, tail, rfl, hlower, -⟩ := List.map_eq_cons_iff.mp hword
  rintro _ ⟨⟩
  constructor
  · rintro rfl
    exact hfirst.1 hlower.symm
  · rintro rfl
    exact hfirst.2 hlower.symm

/-! ## Spellings -/

/-- The decimal spellings of a number, and what they are read as. -/
inductive IsDecimal : Bytes → Reading → Prop
  | intro {sign body : Bytes} {negative : Bool} {reading : Reading} (hsign : IsSign sign negative)
      (hbody : IsPositional .decimal negative body reading) : IsDecimal (sign ++ body) reading

/-- The spellings of a number that are not decimal, and what they are read as: words in letters of
any case, and hexadecimal numerals. -/
inductive IsForeign : Bytes → Reading → Prop
  | infinity {sign word : Bytes} {negative : Bool} (hsign : IsSign sign negative)
      (hword : word.map Byte.toLower = ascii "inf" ∨ word.map Byte.toLower = ascii "infinity") :
      IsForeign (sign ++ word) (.infinite negative)
  | notANumber {sign word tag : Bytes} {negative : Bool} (hsign : IsSign sign negative)
      (hword : word.map Byte.toLower = ascii "nan") (htag : IsTag tag) :
      IsForeign (sign ++ (word ++ tag)) .notANumber
  | hexadecimal {sign mark body : Bytes} {negative : Bool} {reading : Reading}
      (hsign : IsSign sign negative) (hmark : mark.map Byte.toLower = ascii "0x")
      (hbody : IsPositional .hexadecimal negative body reading) :
      IsForeign (sign ++ (mark ++ body)) reading

/-- The spellings of a number, and what they are read as. -/
def Spells (s : Bytes) (reading : Reading) : Prop := IsDecimal s reading ∨ IsForeign s reading

/-- A decimal spelling holds bytes of numerals only. -/
theorem IsDecimal.isByte_of_mem {b : UInt8} (h : IsDecimal s reading) (hb : b ∈ s) :
    WrittenDecimal.isByte b = true := by
  obtain ⟨hsign, hbody⟩ := h
  obtain hb | hb := List.mem_append.mp hb
  · exact hsign.isByte_of_mem hb
  · exact hbody.isByte_of_mem hb

/-- What is read as a number to its end is one of the spellings. -/
theorem spells_of_readReal? (h : readReal? s = some (reading, [])) :
    Spells (Bytes.skipBlanks s) reading := by
  obtain ⟨sign, hsign, hs⟩ := exists_isSign (Bytes.skipBlanks s)
  rw [hs]
  rw [readReal?] at h
  generalize readSign (Bytes.skipBlanks s) = signed at h hsign
  obtain ⟨negative, body⟩ := signed
  dsimp only at h hsign ⊢
  split at h
  · rename_i hinfinity
    obtain ⟨rfl, rfl⟩ := Prod.mk.inj (Option.some.inj h)
    obtain ⟨word, hword, rfl⟩ := dropWord?_eq_some_iff.mp hinfinity
    rw [List.append_nil]
    exact .inr (.infinity hsign (.inr hword))
  · rename_i hinf
    obtain ⟨rfl, rfl⟩ := Prod.mk.inj (Option.some.inj h)
    obtain ⟨word, hword, rfl⟩ := dropWord?_eq_some_iff.mp hinf
    rw [List.append_nil]
    exact .inr (.infinity hsign (.inl hword))
  · rename_i hnan
    obtain ⟨rfl, htag⟩ := Prod.mk.inj (Option.some.inj h)
    obtain ⟨word, hword, rfl⟩ := dropWord?_eq_some_iff.mp hnan
    exact .inr (.notANumber hsign hword (dropTag_eq_nil_iff.mp htag))
  · rename_i hfound
    cases h
    obtain ⟨after, hmark, hread⟩ := Option.bind_eq_some_iff.mp hfound
    obtain ⟨mark, hlower, rfl⟩ := dropWord?_eq_some_iff.mp hmark
    rw [← Base.read?_hexadecimal] at hread
    exact .inr (.hexadecimal hsign hlower (Base.read?_eq_some_iff.mp hread))
  · rw [← Base.read?_decimal] at h
    exact .inl ⟨hsign, Base.read?_eq_some_iff.mp h⟩

/-- Decimal spellings are read to their end. -/
theorem readReal?_of_isDecimal (h : IsDecimal (Bytes.skipBlanks s) reading) :
    readReal? s = some (reading, []) := by
  generalize hs : Bytes.skipBlanks s = spelled at h
  obtain ⟨hsign, hbody⟩ := h
  have hread := hsign.readSign_append hbody.isUnsigned
  have hletter : ∀ {c : UInt8}, WrittenDecimal.isByte c = true →
      ∀ b ∈ ascii "nx", Byte.toLower c ≠ b :=
    WrittenDecimal.forall_isByte (fun c => ∀ b ∈ ascii "nx", Byte.toLower c ≠ b) (by decide +kernel)
      (by decide +kernel)
  rw [← hs] at hread
  rw [readReal?_eq_readDecimal? hread fun b hb c hc => hletter (hbody.isByte_of_mem hc) b hb,
    ← Base.read?_decimal, Base.read?_eq_some_iff.mpr hbody]

/-- What is not one of the words begins differently. -/
theorem dropWord?_eq_none_of_map (word : Bytes) {lower : Bytes} (hs : s.map Byte.toLower = lower)
    (hword : word.isPrefixOf lower = false) : dropWord? word s = none := by
  rw [dropWord?, hs, hword]
  rfl

/-- The spellings that are not decimal are read to their end. -/
theorem readReal?_of_isForeign (h : IsForeign (Bytes.skipBlanks s) reading) :
    readReal? s = some (reading, []) := by
  generalize hs : Bytes.skipBlanks s = spelled at h
  cases h with
  | @infinity sign word negative hsign hword =>
    have hwhole {lower : Bytes} (hlower : word.map Byte.toLower = lower) :
        dropWord? lower word = some [] :=
      dropWord?_eq_some_iff.mpr ⟨word, hlower, (List.append_nil word).symm⟩
    have hunsigned : IsUnsigned word := by
      rw [← List.append_nil word]
      obtain hword | hword := hword
      · exact isUnsigned_of_map_toLower hword (by decide) []
      · exact isUnsigned_of_map_toLower hword (by decide) []
    rw [readReal?, hs, hsign.readSign_append hunsigned]
    obtain hword | hword := hword
    · simp only [hwhole hword, dropWord?_eq_none_of_map (ascii "infinity") hword rfl]
    · simp only [hwhole hword]
  | @notANumber sign word tag negative hsign hword htag =>
    have hmap : (word ++ tag).map Byte.toLower = ascii "nan" ++ tag.map Byte.toLower := by
      rw [List.map_append, hword]
    rw [readReal?, hs, hsign.readSign_append (isUnsigned_of_map_toLower hword (by decide) _)]
    simp only [dropWord?_eq_none_of_map (ascii "infinity") hmap rfl,
      dropWord?_eq_none_of_map (ascii "inf") hmap rfl,
      dropWord?_eq_some_iff.mpr ⟨_, hword, rfl⟩, dropTag_eq_nil_iff.mpr htag]
  | @hexadecimal sign mark body negative reading hsign hmark hbody =>
    have hmap : (mark ++ body).map Byte.toLower = ascii "0x" ++ body.map Byte.toLower := by
      rw [List.map_append, hmark]
    have hread := Base.read?_eq_some_iff.mpr hbody
    rw [Base.read?_hexadecimal] at hread
    rw [readReal?, hs, hsign.readSign_append (isUnsigned_of_map_toLower hmark (by decide) _)]
    simp only [dropWord?_eq_none_of_map (ascii "infinity") hmap rfl,
      dropWord?_eq_none_of_map (ascii "inf") hmap rfl,
      dropWord?_eq_none_of_map (ascii "nan") hmap rfl,
      dropWord?_eq_some_iff.mpr ⟨_, hmark, rfl⟩, Option.bind_eq_bind, Option.bind_some, hread]

/-- What is read up to its end is spelled behind its blanks, and what is spelled so is read. -/
theorem readReal?_eq_some_iff :
    readReal? s = some (reading, []) ↔ Spells (Bytes.skipBlanks s) reading :=
  ⟨spells_of_readReal?, fun h => h.elim readReal?_of_isDecimal readReal?_of_isForeign⟩

/-- A text holds the numbers in range that it spells without the blanks around it. -/
theorem real?_eq_some_iff {x : Binary64} :
    real? s = some x ↔ ∃ reading, Spells (Bytes.skipBlanks s.strip) reading ∧
      reading.isOutOfRange = false ∧ reading.toBinary64 = x := by
  simp only [← readReal?_eq_some_iff, real?]
  constructor
  · intro h
    split at h
    · rename_i reading hread
      split at h
      · cases h
      · rename_i hrange
        exact ⟨reading, hread, Bool.eq_false_iff.mpr hrange, Option.some.inj h⟩
    · cases h
  · rintro ⟨reading, hread, hrange, rfl⟩
    simp only [hread, hrange, Bool.false_eq_true, if_false]

end Numeral

end Stencil
