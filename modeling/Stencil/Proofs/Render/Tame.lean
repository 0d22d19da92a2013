import Stencil.Proofs.Render.Discipline

/-!
# Tame hosts

The failure that a control structure is unknown belongs to rendering itself. A host is tame when its
modifiers, helpers and inspectors do not give it; the standard one is. To be tame is to obey the
discipline that allows every value and every failure but that one (`Registry.isTame_iff`). `Yields`
states it of a result, together with what the result has otherwise.
-/

set_option autoImplicit false

namespace Stencil

variable [JsonLibrary]

/-- Whether a failure says anything else than that a control structure is unknown. -/
def Failure.isTame (failure : Failure) : Bool := failure.code? != some .unknownControl

/-- A result is a tame failure or has a property. -/
def Yields {α : Type} (property : α → Prop) : Except Failure α → Prop
  | .ok value => property value
  | .error failure => failure.isTame = true

/-! ## Tame hosts -/

/-- An inspector that fails tamely. -/
structure Inspector.IsTame (inspector : Inspector) : Prop where
  compare : ∀ value op rhs, Yields anything (inspector.compare value op rhs)
  elements : ∀ value, Yields anything (inspector.elements value)
  bind : ∀ value, Yields anything (inspector.bind value)

/-- Variables that are all bound through tame inspectors. -/
def Variable.AllTame (bindings : Table Variable) : Prop :=
  ∀ entry ∈ bindings, entry.2.inspector.IsTame

/-- A context whose variables are bound through tame inspectors. -/
def Context.IsTame (context : Context) : Prop := Variable.AllTame context.bindings

/-- Inspectors that are all tame. -/
def Inspector.AllTame (inspectors : Table Inspector) : Prop :=
  ∀ entry ∈ inspectors, entry.2.IsTame

/-- A modifier that fails tamely and binds variables through tame inspectors, when it is given no
others. -/
def Modifier.IsTame (modifier : Modifier) : Prop :=
  ∀ (scope : Scope) (value : Json) (args : List Json),
    Inspector.AllTame scope.inspectors → Variable.AllTame scope.bindings →
      Yields (fun changed => Variable.AllTame changed.2) (modifier scope value args)

/-- A helper that fails tamely. -/
def Helper.IsTame (helper : Helper) : Prop := ∀ args, Yields anything (helper args)

/-- A registry whose modifiers, helpers and inspectors are tame. -/
structure Registry.IsTame (registry : Registry) : Prop where
  modifiers : ∀ entry ∈ registry.modifiers, Modifier.IsTame entry.2
  helpers : ∀ entry ∈ registry.helpers, Helper.IsTame entry.2
  inspectors : Inspector.AllTame registry.inspectors

/-! ## The discipline of tame hosts -/

/-- Every value is allowed, and every failure but that a control structure is unknown. -/
def Discipline.tame : Discipline where
  value _ := True
  failure cause := cause.isTame = true
  coded _ hknown := by simpa [Failure.isTame] using hknown
  unwritable _ _ := rfl
  unreadable _ _ _ := rfl
  tooLong := rfl
  document _ _ := trivial
  null := trivial
  bool _ := trivial
  int _ := trivial
  float _ := trivial
  items _ _ _ := trivial
  fields _ _ _ := ⟨trivial, trivial⟩
  text _ _ := trivial
  escaped _ _ _ := trivial

/-- Tame results are those that the discipline allows, whatever it asks of values. -/
theorem Yields.iff {α : Type} {property further : α → Prop} {result : Except Failure α}
    (h : ∀ value, property value ↔ further value) :
    Yields property result ↔ Discipline.tame.Yields further result := by
  cases result with
  | ok value => exact h value
  | error failure => exact Iff.rfl

/-- Inspectors are tame when they obey the tame discipline. -/
theorem Inspector.isTame_iff {inspector : Inspector} :
    inspector.IsTame ↔ inspector.Obeys Discipline.tame := by
  constructor
  · intro h
    exact ⟨fun _ _ => trivial,
      fun op rhs _ => (Yields.iff fun _ => Iff.rfl).mp (h.compare _ op rhs),
      fun _ => (Yields.iff fun _ => by simp [anything, Discipline.tame]).mp (h.elements _),
      fun _ => (Yields.iff fun _ => Iff.rfl).mp (h.bind _)⟩
  · intro h
    exact ⟨fun value op rhs => (Yields.iff fun _ => Iff.rfl).mpr (h.compare op rhs trivial),
      fun value =>
        (Yields.iff fun _ => by simp [anything, Discipline.tame]).mpr (h.elements trivial),
      fun value => (Yields.iff fun _ => Iff.rfl).mpr (h.bind trivial)⟩

/-- Variables are tame when they obey the tame discipline. -/
theorem Variable.allTame_iff {bindings : Table Variable} :
    AllTame bindings ↔ AllObey Discipline.tame bindings := by
  refine forall_congr' fun entry => imp_congr_right fun _ => Inspector.isTame_iff.trans ?_
  exact ⟨fun h => ⟨trivial, h⟩, fun h => h.inspector⟩

/-- Contexts are tame when they obey the tame discipline. -/
theorem Context.isTame_iff {context : Context} :
    context.IsTame ↔ context.Obeys Discipline.tame := Variable.allTame_iff

/-- All inspectors are tame when all obey the tame discipline. -/
theorem Inspector.allTame_iff {inspectors : Table Inspector} :
    AllTame inspectors ↔ AllObey Discipline.tame inspectors :=
  forall_congr' fun _ => imp_congr_right fun _ => isTame_iff

/-- Modifiers are tame when they obey the tame discipline. -/
theorem Modifier.isTame_iff {modifier : Modifier} :
    modifier.IsTame ↔ modifier.Obeys Discipline.tame := by
  have hiff : ∀ scope value args,
      Yields (fun changed => Variable.AllTame changed.2) (modifier scope value args) ↔
        Discipline.tame.Yields
          (fun changed => Discipline.tame.value changed.1 ∧
            Variable.AllObey Discipline.tame changed.2) (modifier scope value args) :=
    fun _ _ _ => Yields.iff fun _ => Variable.allTame_iff.trans (iff_of_eq (true_and _)).symm
  constructor
  · intro h scope value args hinspectors hbindings _ _
    exact (hiff scope value args).mp
      (h scope value args (Inspector.allTame_iff.mpr hinspectors)
        (Variable.allTame_iff.mpr hbindings))
  · intro h scope value args hinspectors hbindings
    exact (hiff scope value args).mpr
      (h (Inspector.allTame_iff.mp hinspectors) (Variable.allTame_iff.mp hbindings) trivial
        fun _ _ => trivial)

/-- Helpers are tame when they obey the tame discipline. -/
theorem Helper.isTame_iff {helper : Helper} : helper.IsTame ↔ helper.Obeys Discipline.tame := by
  constructor
  · exact fun h args _ => (Yields.iff fun _ => Iff.rfl).mp (h args)
  · exact fun h args => (Yields.iff fun _ => Iff.rfl).mpr (h fun _ _ => trivial)

/-- To be tame is to obey. -/
theorem Registry.isTame_iff {registry : Registry} :
    registry.IsTame ↔ registry.Obeys Discipline.tame := by
  constructor
  · intro h
    exact ⟨fun entry hmem => Modifier.isTame_iff.mp (h.modifiers entry hmem),
      fun entry hmem => Helper.isTame_iff.mp (h.helpers entry hmem),
      Inspector.allTame_iff.mp h.inspectors⟩
  · intro h
    exact ⟨fun entry hmem => Modifier.isTame_iff.mpr (h.modifiers entry hmem),
      fun entry hmem => Helper.isTame_iff.mpr (h.helpers entry hmem),
      Inspector.allTame_iff.mpr h.inspectors⟩

/-- The registry that every host begins with is tame. -/
theorem Registry.isTame_standard : Registry.standard.IsTame :=
  isTame_iff.mpr obeys_standard

end Stencil
