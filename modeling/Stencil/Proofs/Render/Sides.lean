import Stencil.Proofs.Context.Alias
import Stencil.Proofs.Json.Compare
import Stencil.Proofs.Json.Encoded
import Stencil.Proofs.Json.Strict
import Stencil.Render.Evaluate

/-!
# The sides of a comparison

A comparison looks at one side as a value and at the other as a text, so it matters which is which.
With a literal it does not, as the variable is the value wherever it stands. With variables on both
sides it does not either, but for a few pairs: null and something else, a number and a string that
holds the same number in another writing, a container and an integer, and numbers that are not read
back from their texts (`Comparison.evaluate_swap`).
-/

set_option autoImplicit false

namespace Stencil

/-- What a path stands for in a comparison: a value with the inspector of the variable that it was
found in, and null as a scalar when nothing is found. -/
def Context.side [JsonLibrary] (context : Context) (path : Bytes) : Variable :=
  match Variable.lookUp context.bindings path with
  | (some root, some value) => { value, inspector := root.inspector }
  | _ => { value := .null, inspector := .scalar }

/-- Whether all variables are bound through built-in inspectors. -/
def Context.IsBuiltin [JsonLibrary] (context : Context) : Prop :=
  ∀ name found, context.bindings.find? name = some found →
    ∃ kind, (kind, found.inspector) ∈ Inspector.builtins

/-- A path finds a value inside a variable, or none. -/
theorem Variable.exists_root_or_none (bindings : Table Variable) (path : Bytes) :
    (∃ name root value, bindings.find? name = some root ∧
      Variable.lookUp bindings path = (some root, some value)) ∨
    (Variable.lookUp bindings path).2 = none := by
  rw [Variable.lookUp]
  split
  · exact .inr rfl
  · rename_i name segments _
    cases hfind : bindings.find? name with
    | none => exact .inr rfl
    | some root =>
      dsimp only
      split
      · exact .inl ⟨name, root, root.value, hfind, rfl⟩
      · cases hvalue : root.inspector.find? root.value segments with
        | none => exact .inr rfl
        | some value => exact .inl ⟨name, root, value, hfind, rfl⟩

namespace Context

variable {context : Context} {path : Bytes}

/-- The side of a path that finds a value is that value, with the inspector of the variable. -/
theorem side_of_lookUp [JsonLibrary] {root : Variable} {value : Json}
    (h : Variable.lookUp context.bindings path = (some root, some value)) :
    context.side path = { value, inspector := root.inspector } := by
  rw [side, h]

/-- The side of a path that finds nothing is null, as a scalar. -/
theorem side_of_lookUp_eq_none [JsonLibrary]
    (h : (Variable.lookUp context.bindings path).2 = none) :
    context.side path = { value := .null, inspector := .scalar } := by
  rw [side]
  split
  · rename_i hfound
    rw [hfound] at h
    cases h
  · rfl

/-- A side of a comparison is looked into by a built-in inspector. -/
theorem IsBuiltin.side [JsonLibrary] (h : context.IsBuiltin) (path : Bytes) :
    ∃ kind, (kind, (context.side path).inspector) ∈ Inspector.builtins := by
  obtain ⟨name, root, value, hfind, hlookUp⟩ | hnone :=
    Variable.exists_root_or_none context.bindings path
  · rw [side_of_lookUp hlookUp]
    exact h name root hfind
  · rw [side_of_lookUp_eq_none hnone]
    exact ⟨Shape.scalar.name, .tail _ (.head _)⟩

end Context

namespace Comparison

variable {context : Context}

/-- A comparison of what a path finds is one of its side. -/
theorem holdsAgainst_eq [JsonLibrary] (path : Bytes) (op : Operator) (t : Bytes) :
    holdsAgainst context path op t =
      (context.side path).inspector.compare (context.side path).value op t := by
  rw [holdsAgainst]
  split
  · rename_i hlookUp
    rw [Context.side_of_lookUp hlookUp]
  · rename_i hnone
    have hside : context.side path = { value := .null, inspector := .scalar } := by
      rw [Context.side]
      split
      · rename_i hfound
        exact absurd hfound (hnone _ _)
      · rfl
    rw [hside]

/-- A variable is compared with the text of a literal. -/
theorem evaluate_of_isStatic [JsonLibrary] {left right : Operand} {op : Operator}
    (hop : op ∈ Operator.comparisons) (hleft : left.isStatic = false)
    (hright : right.isStatic = true) :
    evaluate context { left, op, right } =
      (context.side left.text).inspector.compare (context.side left.text).value op right.text := by
  have hknown : ∀ op ∈ Operator.comparisons, op ≠ .unknown := by decide
  rw [evaluate, ← holdsAgainst_eq]
  simp only [hknown op hop, false_and, if_false, hleft, hright, Bool.false_and, Bool.false_eq_true]
  rw [sideText, hright]
  rfl

/-- The text of a variable in a comparison is that of its side. -/
theorem sideText_eq [JsonLibrary] {operand : Operand} (hdynamic : operand.isStatic = false) :
    sideText context operand = Failure.ofJson (context.side operand.text).value.toText := by
  have hresolve : context.resolve operand = (context.side operand.text).value := by
    rw [Context.resolve, hdynamic, if_neg Bool.false_ne_true, Context.find?]
    obtain ⟨name, root, value, -, hlookUp⟩ | hnone :=
      Variable.exists_root_or_none context.bindings operand.text
    · rw [Context.side_of_lookUp hlookUp, hlookUp]
      rfl
    · rw [Context.side_of_lookUp_eq_none hnone, hnone]
      rfl
  rw [sideText, hdynamic, if_neg Bool.false_ne_true, hresolve]

end Comparison

namespace Variable

variable [JsonLibrary]

/-- Whether the value is not a scalar that is looked into as a container. -/
def IsFitting (a : Variable) : Prop :=
  a.value.shape = .scalar →
    a.inspector.name ≠ Shape.sequence.name ∧ a.inspector.name ≠ Shape.mapping.name

variable {a b : Variable} {op : Operator} {t : Bytes}

/-- What is said of the text of a value in place of the value is in the order of the texts. -/
def IsTextual (a : Variable) (op : Operator) (t : Bytes) : Prop :=
  a.inspector.compare a.value op t =
    Failure.ofJson (do return op.holdsText (← a.value.toText) t)

section Builtin

variable (hbuiltin : ∃ kind, (kind, a.inspector) ∈ Inspector.builtins)
include hbuiltin

/-- A scalar is compared as one. -/
theorem compare_of_scalar (hfitting : a.IsFitting) (hshape : a.value.shape = .scalar) :
    a.inspector.compare a.value op t = Failure.ofJson (a.value.compareScalar op t) := by
  obtain ⟨kind, hmem⟩ := hbuiltin
  obtain ⟨hsequence, hmapping⟩ := hfitting hshape
  have hgeneral : (Inspector.ofShape a.value.shape).compare a.value op t =
      Failure.ofJson (a.value.compareScalar op t) := by
    rw [hshape]
    rfl
  obtain heq | ⟨shape, heq⟩ | ⟨conversion, heq⟩ := Inspector.cases_of_mem_builtins hmem
  · rw [heq]
    exact hgeneral
  · rw [heq] at hsequence hmapping ⊢
    cases shape with
    | scalar => rfl
    | sequence => exact absurd rfl hsequence
    | mapping => exact absurd rfl hmapping
  · rw [heq]
    exact hgeneral

/-- A container is compared as a scalar by the inspector of scalars, and as a container by the
others. -/
theorem compare_of_container (hshape : a.value.shape ≠ .scalar) :
    (a.inspector.name = Shape.scalar.name ∧
      a.inspector.compare a.value op t = Failure.ofJson (a.value.compareScalar op t)) ∨
    (a.inspector.name ≠ Shape.scalar.name ∧
      a.inspector.compare a.value op t = Failure.ofJson (a.value.compareContainer op t)) := by
  obtain ⟨kind, hmem⟩ := hbuiltin
  have hjson : ascii "json" ≠ Shape.scalar.name := by decide
  have hsequence : Shape.sequence.name ≠ Shape.scalar.name := by decide
  have hmapping : Shape.mapping.name ≠ Shape.scalar.name := by decide
  have hconversion : ∀ conversion : Inspector.Conversion, conversion.name ≠ Shape.scalar.name := by
    rintro (_ | _ | _ | _ | _) <;> decide
  have hgeneral : (Inspector.ofShape a.value.shape).compare a.value op t =
      Failure.ofJson (a.value.compareContainer op t) := by
    cases hvalue : a.value.shape with
    | scalar => exact absurd hvalue hshape
    | sequence => rfl
    | mapping => rfl
  obtain heq | ⟨shape, heq⟩ | ⟨conversion, heq⟩ := Inspector.cases_of_mem_builtins hmem
  · rw [heq]
    exact .inr ⟨hjson, hgeneral⟩
  · rw [heq]
    cases shape with
    | scalar => exact .inl ⟨rfl, rfl⟩
    | sequence => exact .inr ⟨hsequence, rfl⟩
    | mapping => exact .inr ⟨hmapping, rfl⟩
  · rw [heq]
    exact .inr ⟨hconversion conversion, hgeneral⟩

/-- A container is compared as a text, by the inspector of scalars always, and by the other ones
when the text holds no integer. -/
theorem isTextual_of_container (hshape : a.value.shape ≠ .scalar)
    (hword : a.inspector.name ≠ Shape.scalar.name → Numeral.word? t = none) :
    a.IsTextual op t := by
  obtain ⟨htext, hscalar⟩ : a.value.toText = a.value.print ∧
      a.value.compareScalar op t = (do return op.holdsText (← a.value.print) t) := by
    cases hvalue : a.value with
    | arr items => exact ⟨rfl, rfl⟩
    | obj fields => exact ⟨rfl, rfl⟩
    | _ => exact absurd (by rw [hvalue]; rfl) hshape
  rw [IsTextual, htext]
  obtain ⟨-, hcompare⟩ | ⟨hname, hcompare⟩ := compare_of_container hbuiltin hshape
  · rw [hcompare, hscalar]
  · rw [hcompare, Json.compareContainer, hword hname]

/-- A scalar that is compared by its text compares in the order of texts. -/
theorem isTextual_of_comparesAsText (hfitting : a.IsFitting) (hshape : a.value.shape = .scalar)
    (htext : a.value.ComparesAsText op t) : a.IsTextual op t := by
  rw [IsTextual, compare_of_scalar hbuiltin hfitting hshape, htext]

/-- Whatever is not null is compared as a text with a text that holds no number. -/
theorem isTextual_of_real?_eq_none (hfitting : a.IsFitting) (hnull : a.value ≠ .null)
    (hread : Numeral.real? t = none) : a.IsTextual op t := by
  by_cases hshape : a.value.shape = .scalar
  · exact isTextual_of_comparesAsText hbuiltin hfitting hshape
      (Json.comparesAsText_of_real?_eq_none hshape hnull hread)
  · exact isTextual_of_container hbuiltin hshape fun _ => Json.word?_eq_none_of_real? hread

end Builtin

/-- Whether the first of two sides is compared with the text of the second as the second is, under
the swapped operator, with the text of the first. -/
def Swaps (op : Operator) (a b : Variable) : Prop :=
  (do a.inspector.compare a.value op (← Failure.ofJson b.value.toText)) =
    (do b.inspector.compare b.value op.swap (← Failure.ofJson a.value.toText))

/-- What swaps in one order swaps in the other. -/
theorem Swaps.symm (h : Swaps op.swap b a) : Swaps op a b := by
  rw [Swaps, Operator.swap_swap] at h
  exact h.symm

/-- Sides with texts are compared with these. -/
theorem swaps_iff {p q : Bytes} (ha : a.value.toText = .ok p) (hb : b.value.toText = .ok q) :
    Swaps op a b ↔
      a.inspector.compare a.value op q = b.inspector.compare b.value op.swap p := by
  rw [Swaps, ha, hb]
  rfl

/-- Sides that are both compared as texts may change places. Either of them may have no text. -/
theorem swaps_of_isTextual (ha : ∀ t, b.value.toText = .ok t → a.IsTextual op t)
    (hb : ∀ t, a.value.toText = .ok t → b.IsTextual op.swap t) : Swaps op a b := by
  cases hleft : a.value.toText with
  | ok p =>
    have hb := hb p hleft
    cases hright : b.value.toText with
    | ok q =>
      have ha := ha q hright
      rw [IsTextual, hleft] at ha
      rw [IsTextual, hright] at hb
      rw [swaps_iff hleft hright, ha, hb]
      exact congrArg Except.ok (op.holdsText_swap p q).symm
    | error fault =>
      rw [IsTextual, hright] at hb
      rw [Swaps, hleft, hright]
      exact hb.symm
  | error fault =>
    cases hright : b.value.toText with
    | ok q =>
      have ha := ha q hright
      rw [IsTextual, hleft] at ha
      rw [Swaps, hleft, hright]
      exact ha
    | error fault' =>
      have hfault := Json.Unwritable.toText a.value fault hleft
      have hfault' := Json.Unwritable.toText b.value fault' hright
      rw [Swaps, hleft, hright, hfault, hfault']
      rfl

/-- Whether nothing that is peculiar to the first side tells its comparison with the text of the
second from that of the second with its own. -/
structure IsFair (op : Operator) (a b : Variable) : Prop where
  /-- A scalar is not counted as a container. -/
  fitting : a.IsFitting
  /-- Null equals the words for null, though not as texts, and has no order, though its text has. -/
  null : a.value = .null → b.value ≠ .null → ∀ t, b.value.toText = .ok t →
    if op.IsEquality then t ≠ ascii "nil" ∧ t ≠ ascii "null" else op.holdsText [] t = false
  /-- A container is not compared by its size. -/
  container : a.value.shape ≠ .scalar → a.inspector.name ≠ Shape.scalar.name →
    ∀ t, b.value.toText = .ok t → Numeral.word? t = none
  /-- A number is read back when it is compared as a number. -/
  readable : ∀ t, b.value.toText = .ok t → Numeral.real? t ≠ none → a.value.IsReadable
  /-- A number is put in order with the number in a string by the numbers nearest to them. -/
  order : ∀ s, b.value = .str s → ¬ op.IsEquality → a.value.IsToldFrom s
  /-- A number equals a string only if that is its text. -/
  equality : ∀ s, b.value = .str s → op.IsEquality → a.value.number? ≠ none →
    a.value.compareScalar .equal s = .ok true → a.value.toText = .ok s

/-! ## Pairs of sides -/

section Pairs

variable (ha : ∃ kind, (kind, a.inspector) ∈ Inspector.builtins)
  (hb : ∃ kind, (kind, b.inspector) ∈ Inspector.builtins) (hab : a.IsFair op b)
  (hba : b.IsFair op.swap a)
include ha hb hab hba

/-- Null is compared with another value. -/
theorem swaps_of_null (hnull : a.value = .null) : Swaps op a b := by
  have hleft : ∀ t, a.inspector.compare a.value op t =
      Failure.ofJson (Json.compareScalar .null op t) := by
    intro t
    rw [compare_of_scalar ha hab.fitting (by rw [hnull]; rfl), hnull]
  by_cases hother : b.value = .null
  · have hright : b.inspector.compare b.value op.swap [] =
        Failure.ofJson (Json.compareScalar .null op.swap []) := by
      rw [compare_of_scalar hb hba.fitting (by rw [hother]; rfl), hother]
    rw [swaps_iff (by rw [hnull]; rfl) (by rw [hother]; rfl), hleft, hright]
    cases op <;> rfl
  · have hright : b.IsTextual op.swap [] := isTextual_of_real?_eq_none hb hba.fitting hother rfl
    rw [IsTextual] at hright
    cases htext : b.value.toText with
    | error fault =>
      rw [htext] at hright
      rw [Swaps, htext, hnull]
      exact hright.symm
    | ok t =>
      rw [htext] at hright
      rw [swaps_iff (by rw [hnull]; rfl) htext, hright, hleft,
        Json.compareScalar_null (hab.null hnull hother t htext)]
      exact congrArg Except.ok (op.holdsText_swap [] t).symm

/-- A truth value or a container is compared with another value. -/
theorem swaps_of_textual (hvalue : (∃ truth, a.value = .bool truth) ∨ a.value.shape ≠ .scalar)
    (hother : b.value ≠ .null) : Swaps op a b := by
  refine swaps_of_isTextual (fun t ht => ?_) fun t ht =>
    isTextual_of_real?_eq_none hb hba.fitting hother (Json.real?_toText_eq_none hvalue ht)
  obtain ⟨truth, htruth⟩ | hshape := hvalue
  · refine isTextual_of_comparesAsText ha hab.fitting (by rw [htruth]; rfl) ?_
    rw [htruth]
    exact Json.comparesAsText_bool truth op t
  · exact isTextual_of_container ha hshape fun hname => hab.container hshape hname t ht

/-- Two numbers are compared. -/
theorem swaps_of_numbers [LawfulFloatText] {x y : Binary64} (hx : a.value.number? = some x)
    (hy : b.value.number? = some y) : Swaps op a b := by
  obtain ⟨p, hp⟩ := Json.exists_toText_of_number? hx
  obtain ⟨q, hq⟩ := Json.exists_toText_of_number? hy
  have hleft : ∀ op t, a.inspector.compare a.value op t =
      Failure.ofJson (a.value.compareScalar op t) := fun op t =>
    compare_of_scalar ha hab.fitting (Json.shape_of_number? hx)
  have hright : ∀ op t, b.inspector.compare b.value op t =
      Failure.ofJson (b.value.compareScalar op t) := fun op t =>
    compare_of_scalar hb hba.fitting (Json.shape_of_number? hy)
  rw [swaps_iff hp hq, hleft, hright]
  by_cases hwritten : Numeral.real? q = none
  · have hother : Numeral.real? p = none := by
      by_contra hsome
      obtain ⟨z, hread, -⟩ := Json.exists_real?_toText hy (hba.readable p hp hsome) hq
      rw [hwritten] at hread
      cases hread
    rw [Json.compareScalar_of_real?_eq_none hx hp hwritten,
      Json.compareScalar_of_real?_eq_none hy hq hother, op.holdsText_swap]
  · have hreadable := hab.readable q hq hwritten
    obtain ⟨x', hreadx, -, hkeyx⟩ := Json.exists_real?_toText hx hreadable hp
    have hreadable' := hba.readable p hp (by rw [hreadx]; exact Option.some_ne_none _)
    obtain ⟨y', hready, -, hkeyy⟩ := Json.exists_real?_toText hy hreadable' hq
    by_cases hwords : ∀ n m, a.value = .int n → b.value = .int m →
        ¬ (Word.fits n = true ∧ Word.fits m = true)
    · have hwords' : ∀ m n, b.value = .int m → a.value = .int n →
          ¬ (Word.fits m = true ∧ Word.fits n = true) :=
        fun m n hm hn hfits => hwords n m hn hm hfits.symm
      rw [Json.compareScalar_of_real? hx hready (Json.isToldFrom_of_number? hy hq hwords),
        Json.compareScalar_of_real? hy hreadx (Json.isToldFrom_of_number? hx hp hwords'),
        op.holdsReal_congr rfl hkeyy, op.swap.holdsReal_congr rfl hkeyx, op.holdsReal_swap]
    · -- Two words are compared exactly from either side.
      push Not at hwords
      obtain ⟨n, m, hn, hm, hfits, hfits'⟩ := hwords
      rw [hn] at hp ⊢
      rw [hm] at hq ⊢
      cases hp
      cases hq
      rw [Json.compareScalar_ofInt hfits hfits', Json.compareScalar_ofInt hfits' hfits,
        op.holdsInt_swap]

/-- Two strings are compared. -/
theorem swaps_of_strings {s t : Bytes} (hs : a.value = .str s) (ht : b.value = .str t) :
    Swaps op a b := by
  have hleft : ∀ op t, a.inspector.compare a.value op t =
      Failure.ofJson (Json.compareScalar (.str s) op t) := by
    intro op t
    rw [compare_of_scalar ha hab.fitting (by rw [hs]; rfl), hs]
  have hright : ∀ op s, b.inspector.compare b.value op s =
      Failure.ofJson (Json.compareScalar (.str t) op s) := by
    intro op s
    rw [compare_of_scalar hb hba.fitting (by rw [ht]; rfl), ht]
  rw [swaps_iff (by rw [hs]; rfl) (by rw [ht]; rfl), hleft, hright]
  by_cases htextual : Numeral.real? s = none ∨ Numeral.real? t = none ∨ op.IsEquality
  · have htextual' : Numeral.real? t = none ∨ Numeral.real? s = none ∨ op.swap.IsEquality := by
      rw [op.isEquality_swap]
      tauto
    rw [Json.comparesAsText_str htextual, Json.comparesAsText_str htextual']
    exact congrArg Except.ok (op.holdsText_swap s t).symm
  · rw [not_or, not_or] at htextual
    obtain ⟨hs', ht', hop⟩ := htextual
    obtain ⟨x, hx⟩ := Option.ne_none_iff_exists'.mp hs'
    obtain ⟨y, hy⟩ := Option.ne_none_iff_exists'.mp ht'
    rw [Json.compareScalar_str_of_real? hx hy hop,
      Json.compareScalar_str_of_real? hy hx (mt op.isEquality_swap.mp hop), op.holdsReal_swap]

/-- A number is compared with a string. -/
theorem swaps_of_number_string [LawfulFloatText] {x : Binary64} {s : Bytes}
    (hx : a.value.number? = some x) (hs : b.value = .str s) : Swaps op a b := by
  obtain ⟨p, hp⟩ := Json.exists_toText_of_number? hx
  have htext : b.value.toText = .ok s := by
    rw [hs]
    rfl
  have hleft : ∀ op t, a.inspector.compare a.value op t =
      Failure.ofJson (a.value.compareScalar op t) := fun op t =>
    compare_of_scalar ha hab.fitting (Json.shape_of_number? hx)
  have hright : ∀ op t, b.inspector.compare b.value op t =
      Failure.ofJson (Json.compareScalar (.str s) op t) := by
    intro op t
    rw [compare_of_scalar hb hba.fitting (by rw [hs]; rfl), hs]
  rw [swaps_iff hp htext, hleft, hright]
  cases hread : Numeral.real? s with
  | none =>
    rw [Json.compareScalar_of_real?_eq_none hx hp hread, Json.comparesAsText_str (.inl hread)]
    exact congrArg Except.ok (op.holdsText_swap p s).symm
  | some y =>
    have hreadable := hab.readable s htext (by rw [hread]; exact Option.some_ne_none y)
    by_cases hop : op.IsEquality
    · have hnumber : a.value.number? ≠ none := by
        rw [hx]
        exact Option.some_ne_none x
      rw [Json.comparesAsText_of_isEquality hop hx hreadable (hab.equality s hs hop hnumber), hp,
        Json.comparesAsText_str (.inr (.inr (op.isEquality_swap.mpr hop)))]
      exact congrArg Except.ok (op.holdsText_swap p s).symm
    · obtain ⟨x', hread', -, hkey⟩ := Json.exists_real?_toText hx hreadable hp
      rw [Json.compareScalar_of_real? hx hread (hab.order s hs hop),
        Json.compareScalar_str_of_real? hread hread' (mt op.isEquality_swap.mp hop),
        op.swap.holdsReal_congr rfl hkey, op.holdsReal_swap]

/-- Sides that are fair to each other may change places. -/
theorem swaps_of_isFair [LawfulFloatText] : Swaps op a b := by
  have hab' : a.IsFair op.swap.swap b := by rwa [Operator.swap_swap]
  by_cases hnull : a.value = .null
  · exact swaps_of_null ha hb hab hba hnull
  by_cases hnull' : b.value = .null
  · exact (swaps_of_null hb ha hba hab' hnull').symm
  obtain hvalue | ⟨x, hx⟩ | ⟨s, hs⟩ := a.value.kind_cases.resolve_left hnull
  · exact swaps_of_textual ha hb hab hba hvalue hnull'
  · obtain hvalue' | ⟨y, hy⟩ | ⟨t, ht⟩ := b.value.kind_cases.resolve_left hnull'
    · exact (swaps_of_textual hb ha hba hab' hvalue' hnull).symm
    · exact swaps_of_numbers ha hb hab hba hx hy
    · exact swaps_of_number_string ha hb hab hba hx ht
  · obtain hvalue' | ⟨y, hy⟩ | ⟨t, ht⟩ := b.value.kind_cases.resolve_left hnull'
    · exact (swaps_of_textual hb ha hba hab' hvalue' hnull).symm
    · exact (swaps_of_number_string hb ha hba hab' hy hs).symm
    · exact swaps_of_strings ha hb hab hba hs ht

end Pairs

end Variable

/-! ## Comparisons -/

/-- A comparison does not depend on the side on which its operands are written, when one of them is
a literal, or when the two variables are fair to each other. -/
theorem Comparison.evaluate_swap [JsonLibrary] [LawfulFloatText] {context : Context}
    (hbuiltin : context.IsBuiltin) {left right : Operand} {op : Operator}
    (hop : op ∈ Operator.comparisons)
    (hdynamic : left.isStatic = false ∨ right.isStatic = false)
    (hfair : left.isStatic = false → right.isStatic = false →
      (context.side left.text).IsFair op (context.side right.text) ∧
        (context.side right.text).IsFair op.swap (context.side left.text)) :
    evaluate context { left, op, right } =
      evaluate context { left := right, op := op.swap, right := left } := by
  have hknown : ∀ op ∈ Operator.comparisons, op ≠ .unknown ∧ op.swap ≠ .unknown := by decide
  obtain ⟨hknown, hknown'⟩ := hknown op hop
  rw [evaluate, evaluate]
  simp only [hknown, hknown', false_and, if_false]
  cases hleft : left.isStatic with
  | true =>
    have hright : right.isStatic = false := by simpa [hleft] using hdynamic
    simp only [hright, Bool.true_and, Bool.false_and, Bool.false_eq_true, if_false, if_true]
  | false =>
    cases hright : right.isStatic with
    | true =>
      simp only [Bool.true_and, Bool.false_and, Bool.false_eq_true, if_false, if_true,
        Operator.swap_swap]
    | false =>
      obtain ⟨hab, hba⟩ := hfair hleft hright
      have hswaps := Variable.swaps_of_isFair (hbuiltin.side left.text) (hbuiltin.side right.text)
        hab hba
      simp only [Bool.false_and, Bool.false_eq_true, if_false, holdsAgainst_eq, sideText_eq hleft,
        sideText_eq hright]
      exact hswaps

/-- A context in which `a` is an integer and `b` is a string. -/
def Context.ofNumberAndString [JsonLibrary] (n : Int) (s : String) : Context :=
  { bindings := [(ascii "a", { value := .int n, inspector := .json }),
      (ascii "b", { value := .str (ascii s), inspector := .json })] }

/-- The variables of that context are bound through built-in inspectors. -/
theorem Context.isBuiltin_ofNumberAndString [JsonLibrary] (n : Int) (s : String) :
    (ofNumberAndString n s).IsBuiltin := by
  intro name found hfind
  have hmem := Table.mem_of_find? hfind
  simp only [ofNumberAndString, List.mem_cons, List.not_mem_nil, or_false, Prod.mk.injEq] at hmem
  obtain ⟨-, rfl⟩ | ⟨-, rfl⟩ := hmem
  · exact ⟨Inspector.json.name, .head _⟩
  · exact ⟨Inspector.json.name, .head _⟩

/-- The comparison of two variables. -/
def Comparison.ofVariables (left : String) (op : Operator) (right : String) : Comparison :=
  { left := { text := ascii left }, op, right := { text := ascii right } }

open scoped JsonLibrary.Strict

/-- A number and a string are put in order from either side. -/
theorem Comparison.evaluate_swap_number_string :
    let context := Context.ofNumberAndString 2 "10"
    (context.IsBuiltin ∧
      (context.side (ascii "a")).IsFair .less (context.side (ascii "b")) ∧
      (context.side (ascii "b")).IsFair .greater (context.side (ascii "a"))) ∧
    (ofVariables "a" .less "b").evaluate context = .ok true ∧
      (ofVariables "b" .greater "a").evaluate context = .ok true := by
  intro context
  have hbuiltin : context.IsBuiltin := Context.isBuiltin_ofNumberAndString 2 "10"
  have hnumber : (context.side (ascii "a")).IsFair .less (context.side (ascii "b")) := by
    refine ⟨fun _ => ⟨by decide, by decide⟩, fun hnull => ?_, fun hshape => ?_, fun _ _ _ => ?_, ?_,
      fun _ _ hop => ?_⟩
    · cases hnull
    · exact absurd rfl hshape
    · show (Binary64.ofInt 2).isFinite = true
      decide
    · rintro _ hs - n m hn - hword
      cases hs
      cases hn
      have hten : m = 10 := by
        have hread : Numeral.word? (ascii "10") = some 10 := by decide
        exact Option.some.inj (hword.symm.trans hread)
      right
      rw [hten]
      decide
    · exact absurd hop (by decide)
  have hstring : (context.side (ascii "b")).IsFair .greater (context.side (ascii "a")) := by
    refine ⟨fun _ => ⟨by decide, by decide⟩, fun hnull => ?_, fun hshape => ?_, fun _ _ _ => ?_,
      fun _ hs => ?_, fun _ hs => ?_⟩
    · cases hnull
    · exact absurd rfl hshape
    · trivial
    · cases hs
    · cases hs
  have hless : (ofVariables "a" .less "b").evaluate context = .ok true := by decide +kernel
  have hop : Operator.less ∈ Operator.comparisons := by decide
  have hswap : (ofVariables "a" .less "b").evaluate context =
      (ofVariables "b" Operator.less.swap "a").evaluate context :=
    evaluate_swap hbuiltin hop (.inl rfl) fun _ _ => ⟨hnumber, hstring⟩
  exact ⟨⟨hbuiltin, hnumber, hstring⟩, hless, hswap.symm.trans hless⟩

/-- A number equals a string that holds it, in whatever writing. A string equals a number only in
the writing that is the text of the number. -/
theorem Comparison.evaluate_swap_ne :
    let context := Context.ofNumberAndString 1 "1.0"
    context.IsBuiltin ∧ Operator.equal ∈ Operator.comparisons ∧
      (ofVariables "a" .equal "b").evaluate context = .ok true ∧
      (ofVariables "b" Operator.equal.swap "a").evaluate context = .ok false := by
  intro context
  refine ⟨Context.isBuiltin_ofNumberAndString 1 "1.0", by decide, ?_, ?_⟩
  · rfl
  · have htext : Decimal.ofInt 1 = ascii "1" := by decide +kernel
    show Failure.ofJson (Json.compareScalar (.str (ascii "1.0")) .equal (Decimal.ofInt 1)) = _
    rw [htext]
    rfl

end Stencil
