import Mathlib.Data.List.Basic
import Stencil.Text.Html

/-!
# HTML escapes are read back

What is escaped holds no byte that HTML gives a meaning, but for the ampersands that begin entities,
and reading the entities from left to right gives the text back (`Html.decode_escape`), also when
the text holds entities or pieces of them itself.
-/

set_option autoImplicit false

namespace Stencil

namespace Html

/-- The entities: a byte, and how it is written. -/
def entities : List (UInt8 × Bytes) :=
  [(Byte.ampersand, ascii "&amp;"), (Byte.lessThan, ascii "&lt;"), (Byte.greaterThan, ascii "&gt;"),
    (Byte.doubleQuote, ascii "&quot;"), (Byte.apostrophe, ascii "&#39;")]

/-- A text with its entities read, from left to right. -/
def decode : Bytes → Bytes
  | [] => []
  | b :: rest =>
    match entities.find? fun entity => entity.2.isPrefixOf (b :: rest) with
    | some entity => entity.1 :: decode (rest.drop (entity.2.length - 1))
    | none => b :: decode rest
termination_by s => s.length
decreasing_by all_goals simp only [List.length_drop, List.length_cons]; omega

/-- A byte is written as its entity when it has one, and as itself otherwise. -/
theorem escapeByte_cases (b : UInt8) :
    (∃ entity ∈ entities, entity.1 = b ∧ escapeByte b = entity.2) ∨
      (∀ entity ∈ entities, entity.1 ≠ b) ∧ escapeByte b = [b] := by
  have hentity : ∀ entity ∈ entities, escapeByte entity.1 = entity.2 := by decide +kernel
  by_cases h : ∃ entity ∈ entities, entity.1 = b
  · obtain ⟨entity, hmem, rfl⟩ := h
    exact .inl ⟨entity, hmem, rfl, hentity entity hmem⟩
  · simp only [not_exists, not_and] at h
    refine .inr ⟨h, ?_⟩
    have hother : ∀ entity ∈ entities, (b == entity.1) = false := fun entity hmem =>
      beq_eq_false_iff_ne.mpr (Ne.symm (h entity hmem))
    simp only [entities, List.forall_mem_cons] at hother
    obtain ⟨hampersand, hless, hgreater, hquote, hapostrophe, -⟩ := hother
    simp only [escapeByte, hampersand, hless, hgreater, hquote, hapostrophe, Bool.false_eq_true,
      if_false]

/-- An entity is an ampersand and bytes that have no entity. -/
theorem exists_of_mem_entities {entity : UInt8 × Bytes} (h : entity ∈ entities) :
    ∃ rest, entity.2 = Byte.ampersand :: rest ∧ ∀ b ∈ rest, ∀ other ∈ entities, other.1 ≠ b := by
  have htails : ∀ entity ∈ entities, entity.2 = Byte.ampersand :: entity.2.tail ∧
      ∀ b ∈ entity.2.tail, ∀ other ∈ entities, other.1 ≠ b := by decide +kernel
  exact ⟨entity.2.tail, htails entity h⟩

/-! ## Reading -/

/-- Nothing is decoded to nothing. -/
theorem decode_nil : decode [] = [] := by
  rw [decode]

/-- No entity begins another one, whatever follows it. -/
theorem find?_entities {entity : UInt8 × Bytes} (h : entity ∈ entities) (rest : Bytes) :
    (entities.find? fun other => other.2.isPrefixOf (entity.2 ++ rest)) = some entity := by
  simp only [entities, List.mem_cons, List.not_mem_nil, or_false] at h
  obtain rfl | rfl | rfl | rfl | rfl := h
  · rfl
  · rfl
  · rfl
  · rfl
  · rfl

/-- An entity is decoded to its byte, whatever follows it. -/
theorem decode_entity {entity : UInt8 × Bytes} (h : entity ∈ entities) (rest : Bytes) :
    decode (entity.2 ++ rest) = entity.1 :: decode rest := by
  have hfind := find?_entities h rest
  obtain ⟨tail, htail, -⟩ := exists_of_mem_entities h
  rw [htail, List.cons_append] at hfind ⊢
  rw [decode, hfind]
  simp [htail]

/-- A byte other than the ampersand is read as itself. -/
theorem decode_cons_of_ne {b : UInt8} (hb : b ≠ Byte.ampersand) (rest : Bytes) :
    decode (b :: rest) = b :: decode rest := by
  have hfind : (entities.find? fun entity => entity.2.isPrefixOf (b :: rest)) = none := by
    rw [List.find?_eq_none]
    intro entity hmem hprefix
    obtain ⟨tail, htail, -⟩ := exists_of_mem_entities hmem
    rw [htail, List.isPrefixOf_cons_cons, Bool.and_eq_true, beq_iff_eq] at hprefix
    exact hb hprefix.1.symm
  rw [decode, hfind]

/-- What a byte becomes is decoded to it, whatever follows it. -/
theorem decode_escapeByte (b : UInt8) (rest : Bytes) :
    decode (escapeByte b ++ rest) = b :: decode rest := by
  obtain ⟨entity, hmem, rfl, hwritten⟩ | ⟨hplain, hwritten⟩ := escapeByte_cases b
  · rw [hwritten, decode_entity hmem]
  · rw [hwritten]
    exact decode_cons_of_ne (hplain _ (.head _)).symm rest

/-- Reading the entities of an escaped text gives the text. -/
theorem decode_escape (s : Bytes) : decode (escape s) = s :=
  Bytes.decode_flatMap decode_nil decode_escapeByte s

/-- Two texts with one escaped form are the same. -/
theorem escape_injective : Function.Injective escape :=
  Function.LeftInverse.injective decode_escape

/-! ## Bytes of an escaped text -/

/-- A byte that has an entity stands in an escaped text only as the ampersand of one. -/
theorem eq_ampersand_of_mem_escape {s : Bytes} {b : UInt8} (h : b ∈ escape s)
    (hentity : ∃ entity ∈ entities, entity.1 = b) : b = Byte.ampersand := by
  obtain ⟨other, hother, hb⟩ := hentity
  obtain ⟨c, -, hc⟩ := List.mem_flatMap.mp h
  obtain ⟨entity, hmem, -, hwritten⟩ | ⟨hplain, hwritten⟩ := escapeByte_cases c
  · obtain ⟨tail, htail, hfree⟩ := exists_of_mem_entities hmem
    rw [hwritten, htail, List.mem_cons] at hc
    exact hc.resolve_right fun htailed => hfree b htailed other hother hb
  · rw [hwritten, List.mem_singleton] at hc
    subst hc
    exact absurd hb (hplain other hother)

/-- Of the bytes with a meaning only the ampersand is left in an escaped text. -/
theorem notMem_of_mem_escape {s : Bytes} {b : UInt8} (h : b ∈ escape s) :
    b ∉ [Byte.lessThan, Byte.greaterThan, Byte.doubleQuote, Byte.apostrophe] := by
  have hspecial : ∀ c ∈ [Byte.lessThan, Byte.greaterThan, Byte.doubleQuote, Byte.apostrophe],
      (∃ entity ∈ entities, entity.1 = c) ∧ c ≠ Byte.ampersand := by decide +kernel
  intro hmem
  obtain ⟨hentity, hother⟩ := hspecial b hmem
  exact hother (eq_ampersand_of_mem_escape h hentity)

/-- An ampersand in what a byte is written as begins the entity of the byte. -/
theorem escapeByte_eq_append {c : UInt8} {before after : Bytes}
    (h : escapeByte c = before ++ Byte.ampersand :: after) :
    ∃ entity ∈ entities, entity.2 = Byte.ampersand :: after := by
  have hampersand : (Byte.ampersand, ascii "&amp;") ∈ entities := .head _
  obtain ⟨entity, hmem, -, hwritten⟩ | ⟨hplain, hwritten⟩ := escapeByte_cases c
  · obtain ⟨tail, htail, hfree⟩ := exists_of_mem_entities hmem
    rw [hwritten, htail] at h
    cases before with
    | nil => exact ⟨entity, hmem, htail.trans h⟩
    | cons first more =>
      have hinside : Byte.ampersand ∈ tail := by simp [(List.cons.inj h).2]
      exact absurd rfl (hfree _ hinside _ hampersand)
  · have hbyte : Byte.ampersand ∈ escapeByte c := by simp [h]
    rw [hwritten, List.mem_singleton] at hbyte
    exact absurd hbyte (hplain _ hampersand)

/-- Every ampersand of an escaped text begins an entity. -/
theorem exists_entity_of_ampersand {s before after : Bytes}
    (h : escape s = before ++ Byte.ampersand :: after) :
    ∃ entity ∈ entities, entity.2 <+: Byte.ampersand :: after := by
  induction s generalizing before with
  | nil => simp [escape] at h
  | cons c rest ih =>
    rw [escape, List.flatMap_cons] at h
    obtain ⟨middle, -, hrest⟩ | ⟨middle, hbyte, hrest⟩ := List.append_eq_append_iff.mp h
    · exact ih hrest
    · cases middle with
      | nil => exact @ih [] hrest.symm
      | cons first tail =>
        obtain ⟨rfl, rfl⟩ := List.cons.inj hrest
        obtain ⟨entity, hmem, hentity⟩ := escapeByte_eq_append hbyte
        exact ⟨entity, hmem, hentity ▸ List.prefix_append (Byte.ampersand :: tail) _⟩

end Html

end Stencil
