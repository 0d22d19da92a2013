import Stencil.Json.Printer
import Stencil.Text.Html
import Stencil.Text.Url

/-!
# Well-formed texts

Reading UTF-8 goes through a text byte by byte, so that a text is well formed in two parts exactly
when both are, once the first is (`Utf8.isValid_append`). A byte of ASCII is a character of its own
wherever it stands, so a well-formed text may be cut there (`Utf8.isValid_append_cons`); and putting
other ASCII texts for bytes of ASCII leaves a text well formed (`Utf8.isValid_flatMap`).
-/

set_option autoImplicit false

namespace Stencil

/-- Whether all bytes of a text are ASCII. -/
def Bytes.isAscii (s : Bytes) : Bool := s.all (· < 0x80)

namespace Bytes

/-- The empty text is ASCII. -/
@[simp] theorem isAscii_nil : isAscii [] = true := rfl

/-- A text is ASCII when its first byte and the others are. -/
@[simp] theorem isAscii_cons (b : UInt8) (s : Bytes) :
    isAscii (b :: s) = (decide (b < 0x80) && isAscii s) := rfl

/-- Two texts in a row are ASCII when both are. -/
@[simp] theorem isAscii_append (s t : Bytes) : isAscii (s ++ t) = (isAscii s && isAscii t) :=
  List.all_append

/-- A text that is put together byte by byte is ASCII when all of its pieces are. -/
theorem isAscii_flatMap {f : UInt8 → Bytes} (hf : ∀ b, isAscii (f b) = true) (s : Bytes) :
    isAscii (s.flatMap f) = true := by
  induction s with
  | nil => rfl
  | cons b rest ih => simp [List.flatMap_cons, hf b, ih]

end Bytes

namespace Utf8

/-! ## Reading on -/

/-- What is owed after a text, when it can be read. -/
def owedAfter? : Owed → Bytes → Option Owed
  | owed, [] => some owed
  | owed, b :: rest => step? owed b >>= fun next => owedAfter? next rest

/-- A text is valid from a state when reading it ends with nothing owed. -/
theorem isValidFrom_eq (owed : Owed) (s : Bytes) :
    isValidFrom owed s = (owedAfter? owed s).any (·.count == 0) := by
  induction s generalizing owed with
  | nil => rfl
  | cons b rest ih =>
    rw [isValidFrom, owedAfter?]
    cases step? owed b with
    | none => rfl
    | some next => exact ih next

/-- A text in two parts is read one part after the other. -/
theorem owedAfter?_append (owed : Owed) (s t : Bytes) :
    owedAfter? owed (s ++ t) = owedAfter? owed s >>= fun next => owedAfter? next t := by
  induction s generalizing owed with
  | nil => rfl
  | cons b rest ih =>
    rw [List.cons_append, owedAfter?, owedAfter?]
    cases step? owed b with
    | none => rfl
    | some next => exact ih next

/-- After a text nothing is owed, or the next byte is none of ASCII. -/
def Owed.Sound (owed : Owed) : Prop := (owed.count = 0 → owed = .nothing) ∧ 0x80 ≤ owed.least

/-- To owe nothing is sound. -/
theorem Owed.sound_nothing : Owed.nothing.Sound := ⟨fun _ => rfl, by decide⟩

/-- What is owed after a byte is sound. -/
theorem Owed.Sound.step {owed next : Owed} {b : UInt8} (h : step? owed b = some next) :
    next.Sound := by
  refine ⟨eq_nothing_of_step? h, ?_⟩
  unfold step? at h
  split at h
  · unfold lead? at h
    repeat' split at h
    all_goals first | (cases h; decide) | cases h
  · split at h
    · cases h
      exact (by decide : (0x80 : UInt8) ≤ 0x80)
    · cases h

/-- What is owed after a text is sound. -/
theorem Owed.Sound.after {owed next : Owed} {s : Bytes} (hsound : owed.Sound)
    (h : owedAfter? owed s = some next) : next.Sound := by
  induction s generalizing owed with
  | nil =>
    cases h
    exact hsound
  | cons b rest ih =>
    rw [owedAfter?] at h
    cases hstep : step? owed b with
    | none =>
      rw [hstep] at h
      cases h
    | some middle =>
      rw [hstep] at h
      exact ih (.step hstep) h

/-- A text is valid when it is read from nothing owed to nothing owed. -/
theorem isValid_iff (s : Bytes) : isValid s = true ↔ owedAfter? .nothing s = some .nothing := by
  rw [isValid, isValidFrom_eq]
  constructor
  · intro h
    cases hafter : owedAfter? .nothing s with
    | none => simp [hafter] at h
    | some owed =>
      rw [hafter] at h
      rw [(Owed.sound_nothing.after hafter).1 (by simpa using h)]
  · intro h
    rw [h]
    rfl

/-- A text after a well-formed one is well formed exactly when the two are together. -/
theorem isValid_append_eq {s : Bytes} (h : isValid s = true) (t : Bytes) :
    isValid (s ++ t) = isValid t := by
  rw [isValid, isValid, isValidFrom_eq, isValidFrom_eq, owedAfter?_append, (isValid_iff s).mp h]
  rfl

/-- Two valid texts in a row are valid. -/
theorem isValid_append {s t : Bytes} (hs : isValid s = true) (ht : isValid t = true) :
    isValid (s ++ t) = true := by
  rw [isValid_append_eq hs, ht]

/-! ## Bytes of ASCII -/

/-- An ASCII byte is a character of its own. -/
theorem step?_nothing_of_lt {b : UInt8} (h : b < 0x80) : step? .nothing b = some .nothing := by
  show (if b < 0x80 then _ else _) = _
  rw [if_pos h]

/-- Within a character no byte of ASCII can be read. -/
theorem step?_of_lt {owed : Owed} {b : UInt8} (hsound : owed.Sound) (hcount : owed.count ≠ 0)
    (h : b < 0x80) : step? owed b = none := by
  have hleast : ¬ owed.least ≤ b := by
    have hlow := hsound.2
    rw [UInt8.le_iff_toNat_le] at hlow ⊢
    rw [UInt8.lt_iff_toNat_lt] at h
    simp at hlow h
    omega
  rw [step?]
  simp [hcount, hleast]

/-- A text is cut at a byte of ASCII into two that are well formed if it is. -/
theorem isValid_append_cons (s t : Bytes) {b : UInt8} (h : b < 0x80) :
    isValid (s ++ b :: t) = (isValid s && isValid t) := by
  cases hs : isValid s with
  | true =>
    rw [isValid_append_eq hs, Bool.true_and, isValid, isValidFrom, step?_nothing_of_lt h]
    rfl
  | false =>
    rw [Bool.false_and, isValid, isValidFrom_eq, owedAfter?_append]
    cases hafter : owedAfter? .nothing s with
    | none => rfl
    | some owed =>
      have hsound := Owed.sound_nothing.after hafter
      have hcount : owed.count ≠ 0 := by
        intro hzero
        rw [hsound.1 hzero] at hafter
        rw [(isValid_iff s).mpr hafter] at hs
        cases hs
      show Option.any _ (owedAfter? owed (b :: t)) = false
      rw [owedAfter?, step?_of_lt hsound hcount h]
      rfl

/-- An ASCII byte may be put in front of a text. -/
@[simp] theorem isValid_cons {b : UInt8} (h : b < 0x80) (t : Bytes) :
    isValid (b :: t) = isValid t := by
  rw [← List.nil_append (b :: t), isValid_append_cons [] t h]
  rfl

/-- ASCII is read from nothing owed to nothing owed. -/
theorem owedAfter?_of_isAscii {s : Bytes} (h : s.isAscii = true) :
    owedAfter? .nothing s = some .nothing := by
  induction s with
  | nil => rfl
  | cons b rest ih =>
    rw [Bytes.isAscii_cons, Bool.and_eq_true, decide_eq_true_eq] at h
    rw [owedAfter?, step?_nothing_of_lt h.1]
    exact ih h.2

/-- A text of ASCII is well formed. -/
theorem isValid_of_isAscii {s : Bytes} (h : s.isAscii = true) : isValid s = true :=
  (isValid_iff s).mpr (owedAfter?_of_isAscii h)

/-- Texts of ASCII may be put for bytes of ASCII. -/
theorem isValid_flatMap {f : UInt8 → Bytes}
    (hf : ∀ b, (if b < 0x80 then (f b).isAscii else f b == [b]) = true) {s : Bytes}
    (h : isValid s = true) : isValid (s.flatMap f) = true := by
  have hsmall (b : UInt8) (hb : b < 0x80) : (f b).isAscii = true := by simpa [hb] using hf b
  have hlarge (b : UInt8) (hb : ¬ b < 0x80) : f b = [b] := by simpa [hb] using hf b
  have hrun : ∀ (owed next : Owed) (s : Bytes), owed.Sound → owedAfter? owed s = some next →
      owedAfter? owed (s.flatMap f) = some next := by
    intro owed next s
    induction s generalizing owed with
    | nil => exact fun _ hafter => hafter
    | cons b rest ih =>
      intro hsound hafter
      rw [owedAfter?] at hafter
      cases hstep : step? owed b with
      | none =>
        rw [hstep] at hafter
        cases hafter
      | some middle =>
        rw [hstep] at hafter
        have hrest := ih middle (.step hstep) hafter
        rw [List.flatMap_cons, owedAfter?_append]
        by_cases hb : b < 0x80
        · -- Between characters the new text is read like the byte.
          by_cases hcount : owed.count = 0
          · rw [hsound.1 hcount, step?_nothing_of_lt hb] at hstep
            cases hstep
            rw [hsound.1 hcount, owedAfter?_of_isAscii (hsmall b hb)]
            exact hrest
          · rw [step?_of_lt hsound hcount hb] at hstep
            cases hstep
        · rw [hlarge b hb, owedAfter?, hstep]
          exact hrest
  exact (isValid_iff _).mpr (hrun .nothing .nothing s Owed.sound_nothing ((isValid_iff s).mp h))

end Utf8

/-! ## Escapes -/

/-- What holds of the bytes of all numbers below 256 holds of every byte. -/
theorem Byte.forall_of_range {p : UInt8 → Bool}
    (h : (List.range 256).all (fun n => p n.toUInt8) = true) : ∀ b, p b = true := by
  intro b
  have hb := List.all_eq_true.mp h b.toNat (List.mem_range.mpr b.toNat_lt)
  simpa using hb

/-- Escaping for a JSON string keeps a text valid. -/
theorem Json.isValid_escape {s : Bytes} (h : Utf8.isValid s = true) :
    Utf8.isValid (escape s) = true :=
  Utf8.isValid_flatMap (Byte.forall_of_range (by decide +kernel)) h

/-- Escaping for markup keeps a text valid. -/
theorem Html.isValid_escape {s : Bytes} (h : Utf8.isValid s = true) :
    Utf8.isValid (escape s) = true :=
  Utf8.isValid_flatMap (Byte.forall_of_range (by decide +kernel)) h

/-- A text encoded for a URL is ASCII, whatever it was. -/
theorem Url.isAscii_encode (s : Bytes) : (encode s).isAscii = true := by
  refine Bytes.isAscii_flatMap (Byte.forall_of_range ?_) s
  decide +kernel

end Stencil
