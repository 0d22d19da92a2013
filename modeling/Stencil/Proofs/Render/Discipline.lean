import Stencil.Builtins
import Stencil.Render.Loop

/-!
# Disciplines

A discipline says which values a rendering may meet and which failures it may stop at. Values come
from the variables and from the literals of the template; a host obeys the discipline when its
modifiers, helpers and inspectors make allowed values of allowed ones and fail with allowed failures
only. With such a host whatever a statement evaluates is allowed, and the built-in host obeys every
discipline (`Registry.obeys_standard`), since a discipline is closed under what that host does to
values.
-/

set_option autoImplicit false

namespace Stencil

variable [JsonLibrary]

/-- What is allowed as a value and as a failure. -/
structure Discipline where
  value : Json → Prop
  failure : Failure → Prop
  /-- Failures with a code are allowed, but for that of an unknown control structure, which is up to
  the discipline. -/
  coded : ∀ {cause : Failure}, cause.code? ≠ none → cause.code? ≠ some .unknownControl →
    failure cause
  /-- An allowed value can be written, or is allowed to be none that can. -/
  unwritable : ∀ {given : Json} {fault : JsonFault}, value given → given.print = .error fault →
    failure (.json fault)
  /-- So can an allowed string be read as a document. -/
  unreadable : ∀ {text : Bytes} {fault : JsonFault}, value (.str text) →
    JsonLibrary.parse text = .error fault → fault ≠ .malformed → failure (.json fault)
  /-- A message that quotes an allowed value may be too long. -/
  tooLong : failure .messageTooLong
  document : ∀ {text : Bytes} {parsed : Json}, value (.str text) →
    JsonLibrary.parse text = .ok parsed → value parsed
  null : value .null
  bool : ∀ truth : Bool, value (.bool truth)
  int : ∀ n : Int, value (.int n)
  float : ∀ x : Binary64, value (.float x)
  items : ∀ {items : List Json}, value (.arr items) → ∀ item ∈ items, value item
  fields : ∀ {fields : List (Bytes × Json)}, value (.obj fields) →
    ∀ entry ∈ fields, value (.str entry.1) ∧ value entry.2
  text : ∀ {given : Json} {text : Bytes}, value given → given.toText = .ok text →
    value (.str text)
  escaped : ∀ {text : Bytes}, value (.str text) →
    ∀ escape ∈ [Modifier.jsonEscape, Modifier.jsonQuote, Html.escape, Url.encode],
      value (.str (escape text))

/-- What is asked of results that are no failures, when nothing is. -/
def anything {α : Type} (_ : α) : Prop := True

namespace Discipline

variable {discipline : Discipline}

/-- A result is an allowed failure or has a property. -/
def Yields {α : Type} (discipline : Discipline) (property : α → Prop) : Except Failure α → Prop
  | .ok found => property found
  | .error cause => discipline.failure cause

namespace Yields

variable {α β : Type} {property : α → Prop}

/-- A step behind another yields what the second does, when it starts from what the first yields. -/
theorem bind {result : Except Failure α} {next : α → Except Failure β} {further : β → Prop}
    (hresult : discipline.Yields property result)
    (hnext : ∀ found, property found → discipline.Yields further (next found)) :
    discipline.Yields further (result >>= next) := by
  cases result with
  | ok found => exact hnext found hresult
  | error cause => exact hresult

/-- Of a result that is no failure nothing may be asked. -/
theorem ok (found : α) : discipline.Yields anything (.ok found) := trivial

/-- A property of a result may be forgotten. -/
theorem any {result : Except Failure α} (h : discipline.Yields property result) :
    discipline.Yields anything result := by
  cases result with
  | ok found => trivial
  | error cause => exact h

/-- A failure with a code. -/
theorem coded {cause : Failure} {code : ErrorCode} (hcode : cause.code? = some code)
    (hknown : code ≠ .unknownControl) : discipline.Yields property (.error cause) :=
  discipline.coded (by simp [hcode]) (by simpa [hcode] using hknown)

/-- A failure with a code and a message that may be too long. -/
theorem patterned {cause : Failure} {code : ErrorCode} (hcode : cause.code? = some code)
    (hknown : code ≠ .unknownControl) : discipline.Yields property (.error cause.patterned) := by
  rw [Failure.patterned]
  split
  · exact coded hcode hknown
  · exact discipline.tooLong

/-- Writing an allowed value fails only as is allowed. -/
theorem print {given : Json} (h : discipline.value given) :
    discipline.Yields anything (Failure.ofJson given.print) := by
  cases hprint : given.print with
  | ok text => trivial
  | error fault => exact discipline.unwritable h hprint

/-- What the text of an allowed value is compared with is no cause of failure. -/
theorem print_bind {given : Json} (h : discipline.value given) (f : Bytes → α) :
    discipline.Yields anything (Failure.ofJson (do return f (← given.print))) := by
  cases hprint : given.print with
  | ok text => trivial
  | error fault => exact discipline.unwritable h hprint

/-- An allowed value has a text, or is allowed to have none. -/
theorem toText {given : Json} (h : discipline.value given) :
    discipline.Yields (fun text => given.toText = .ok text) (Failure.ofJson given.toText) := by
  cases given with
  | arr items =>
    cases hprint : (Json.arr items).toText with
    | ok text => rfl
    | error fault => exact discipline.unwritable h hprint
  | obj fields =>
    cases hprint : (Json.obj fields).toText with
    | ok text => rfl
    | error fault => exact discipline.unwritable h hprint
  | _ => rfl

/-- Comparing an allowed value as a scalar fails only as is allowed. -/
theorem compareScalar {given : Json} (h : discipline.value given) (op : Operator) (rhs : Bytes) :
    discipline.Yields anything (Failure.ofJson (given.compareScalar op rhs)) := by
  unfold Json.compareScalar
  cases given with
  | arr | obj => exact print_bind h _
  | null | float => exact ok _
  | bool | int =>
    simp only
    split <;> exact ok _
  | str =>
    simp only
    split
    · split <;> exact ok _
    · exact ok _

/-- A sum is a word, or the failure that stands for one that is none. -/
theorem add (a b : Int64) {cause : Failure} {code : ErrorCode} (hcode : cause.code? = some code)
    (hknown : code ≠ .unknownControl) :
    discipline.Yields anything
      (match Word.add? a b with
        | some sum => .ok sum
        | none => .error cause) := by
  split
  · exact ok _
  · exact coded hcode hknown

/-- Comparing an allowed value as a container fails only as is allowed. -/
theorem compareContainer {given : Json} (h : discipline.value given) (op : Operator)
    (rhs : Bytes) :
    discipline.Yields anything (Failure.ofJson (given.compareContainer op rhs)) := by
  unfold Json.compareContainer
  split
  · exact ok _
  · exact print_bind h _

end Yields

/-- What a path finds inside an allowed value is allowed. -/
theorem value_of_find? {given found : Json} {path : List Bytes} (h : discipline.value given)
    (hfound : given.find? path = some found) : discipline.value found := by
  induction path generalizing given with
  | nil =>
    obtain rfl : given = found := by simpa [Json.find?] using hfound
    exact h
  | cons segment rest ih =>
    cases given with
    | arr items =>
      rw [Json.find?] at hfound
      split at hfound
      · rename_i item hitem
        refine ih (discipline.items h item ?_) hfound
        unfold Json.item? at hitem
        split at hitem
        · split at hitem
          · cases hitem
          · exact List.mem_of_getElem? hitem
        · cases hitem
      · cases hfound
    | obj fields =>
      rw [Json.find?] at hfound
      split at hfound
      · rename_i entry hentry
        exact ih (discipline.fields h _ (Table.mem_of_find? hentry)).2 hfound
      · cases hfound
    | _ => simp [Json.find?] at hfound

end Discipline

/-! ## Hosts that obey -/

/-- An inspector that goes from allowed values to allowed values and fails only as is allowed. -/
structure Inspector.Obeys (discipline : Discipline) (inspector : Inspector) : Prop where
  find? : ∀ {value found : Json} {path : List Bytes}, discipline.value value →
    inspector.find? value path = some found → discipline.value found
  compare : ∀ {value : Json} (op : Operator) (rhs : Bytes), discipline.value value →
    discipline.Yields anything (inspector.compare value op rhs)
  elements : ∀ {value : Json}, discipline.value value →
    discipline.Yields (fun elements => ∀ element ∈ elements,
      discipline.value element.1 ∧ discipline.value element.2) (inspector.elements value)
  bind : ∀ {value : Json}, discipline.value value →
    discipline.Yields discipline.value (inspector.bind value)

/-- A variable that holds an allowed value and is looked into by an inspector that obeys. -/
structure Variable.Obeys (discipline : Discipline) (found : Variable) : Prop where
  value : discipline.value found.value
  inspector : found.inspector.Obeys discipline

/-- Variables that all obey. -/
def Variable.AllObey (discipline : Discipline) (bindings : Table Variable) : Prop :=
  ∀ entry ∈ bindings, entry.2.Obeys discipline

/-- A context whose variables obey. -/
def Context.Obeys (discipline : Discipline) (context : Context) : Prop :=
  Variable.AllObey discipline context.bindings

/-- Inspectors that all obey. -/
def Inspector.AllObey (discipline : Discipline) (inspectors : Table Inspector) : Prop :=
  ∀ entry ∈ inspectors, entry.2.Obeys discipline

/-- A modifier that gives an allowed value and leaves allowed variables, when it is given such. -/
def Modifier.Obeys (discipline : Discipline) (modifier : Modifier) : Prop :=
  ∀ {scope : Scope} {value : Json} {args : List Json},
    Inspector.AllObey discipline scope.inspectors → Variable.AllObey discipline scope.bindings →
      discipline.value value → (∀ arg ∈ args, discipline.value arg) →
        discipline.Yields
          (fun changed => discipline.value changed.1 ∧ Variable.AllObey discipline changed.2)
          (modifier scope value args)

/-- A helper that fails only as is allowed, when it is given allowed values. -/
def Helper.Obeys (discipline : Discipline) (helper : Helper) : Prop :=
  ∀ {args : List Json}, (∀ arg ∈ args, discipline.value arg) →
    discipline.Yields anything (helper args)

/-- A registry whose modifiers, helpers and inspectors obey. -/
structure Registry.Obeys (discipline : Discipline) (registry : Registry) : Prop where
  modifiers : ∀ entry ∈ registry.modifiers, Modifier.Obeys discipline entry.2
  helpers : ∀ entry ∈ registry.helpers, Helper.Obeys discipline entry.2
  inspectors : Inspector.AllObey discipline registry.inspectors

/-- A literal with an allowed value; nothing is asked of a path. -/
def Operand.Obeys (discipline : Discipline) (operand : Operand) : Prop :=
  operand.isStatic = true → discipline.value operand.literal

section Obedience

variable {discipline : Discipline}

/-! ## The built-in host -/

namespace Inspector

/-- The inspector of scalars obeys. -/
theorem obeys_scalar : scalar.Obeys discipline where
  find? {value found path} h hfound := by
    obtain ⟨-, rfl⟩ : path = [] ∧ value = found := by simpa [scalar] using hfound
    exact h
  compare op rhs h := .compareScalar h op rhs
  elements _ := by simp [scalar, Discipline.Yields]
  bind h := h

/-- The inspector of sequences obeys. -/
theorem obeys_sequence : sequence.Obeys discipline where
  find? {value found path} h hfound := by
    simp only [sequence] at hfound
    split at hfound
    · cases hfound
      exact h
    · exact Discipline.value_of_find? h hfound
    · cases hfound
  compare op rhs h := .compareContainer h op rhs
  elements {value} h := by
    simp only [sequence, Discipline.Yields, Json.sequenceElements]
    split
    · intro element hmem
      obtain ⟨⟨item, index⟩, hitem, rfl⟩ := List.mem_map.mp hmem
      exact ⟨discipline.int _, discipline.items h item (List.fst_mem_of_mem_zipIdx hitem)⟩
    · simp
  bind h := h

/-- The inspector of mappings obeys. -/
theorem obeys_mapping : mapping.Obeys discipline where
  find? {value found path} h hfound := by
    simp only [mapping] at hfound
    split at hfound
    · cases hfound
      exact h
    · exact Discipline.value_of_find? h hfound
    · cases hfound
  compare op rhs h := .compareContainer h op rhs
  elements {value} h := by
    simp only [mapping, Discipline.Yields, Json.mappingElements]
    split
    · intro element hmem
      obtain ⟨entry, hentry, rfl⟩ := List.mem_map.mp hmem
      exact discipline.fields h entry hentry
    · simp
  bind h := h

/-- The inspector of every shape obeys. -/
theorem obeys_ofShape (shape : Shape) : (ofShape shape).Obeys discipline := by
  cases shape with
  | scalar => exact obeys_scalar
  | sequence => exact obeys_sequence
  | mapping => exact obeys_mapping

/-- The general inspector obeys. -/
theorem obeys_json : json.Obeys discipline where
  find? {value _ _} h hfound := (obeys_ofShape value.shape).find? h hfound
  compare {value} op rhs h := (obeys_ofShape value.shape).compare op rhs h
  elements {value} h := (obeys_ofShape value.shape).elements h
  bind h := h

/-- A conversion gives an allowed value or an allowed failure. -/
theorem Conversion.yields_apply (conversion : Conversion) {value : Json}
    (h : discipline.value value) : discipline.Yields discipline.value (conversion.apply value) := by
  unfold Conversion.apply
  cases conversion with
  | string => exact .bind (.toText h) fun _ htext => discipline.text h htext
  | int =>
    simp only
    split
    · exact discipline.int _
    · exact .bind (.print h) fun _ _ => .coded rfl (by decide)
  | float =>
    simp only
    split
    · exact discipline.float _
    · exact .bind (.print h) fun _ _ => .coded rfl (by decide)
  | bool =>
    simp only
    split
    · split
      · exact discipline.bool _
      · split <;> exact discipline.bool _
    · exact discipline.bool _
  | document =>
    simp only
    split
    · split
      · rename_i hparse
        exact discipline.document h hparse
      · exact .coded rfl (by decide)
      · rename_i hmalformed hparse
        exact discipline.unreadable h hparse hmalformed
    · exact h

/-- An inspector that converts obeys. -/
theorem obeys_converting (conversion : Conversion) :
    (converting conversion).Obeys discipline where
  find? := obeys_json.find?
  compare := obeys_json.compare
  elements := obeys_json.elements
  bind := conversion.yields_apply

/-- The built-in inspectors obey. -/
theorem allObey_builtins : AllObey discipline builtins := by
  simp only [AllObey, builtins, List.map_cons, List.map_nil, List.forall_mem_cons]
  exact ⟨obeys_json, obeys_scalar, obeys_sequence, obeys_mapping, obeys_converting _,
    obeys_converting _, obeys_converting _, obeys_converting _, obeys_converting _, by simp⟩

end Inspector

namespace Modifier

/-- A function of a value and arguments that gives an allowed value, when it is given such. -/
def KeepsTo (discipline : Discipline) (f : Json → List Json → Except Failure Json) : Prop :=
  ∀ {value : Json} {args : List Json}, discipline.value value →
    (∀ arg ∈ args, discipline.value arg) → discipline.Yields discipline.value (f value args)

/-- A modifier that binds nothing obeys when its function does. -/
theorem obeys_ofFunction {f : Json → List Json → Except Failure Json}
    (h : KeepsTo discipline f) : Obeys discipline (ofFunction f) :=
  fun _ hbindings hvalue hargs => .bind (h hvalue hargs) fun _ hfound => ⟨hfound, hbindings⟩

/-- A refusal for want of arguments has a code. -/
theorem yields_requireArguments (name : Bytes) (needed : Nat) (args : List Json) :
    discipline.Yields anything (requireArguments name needed args) := by
  unfold requireArguments
  split
  · exact .coded rfl (by decide)
  · split
    · exact .coded rfl (by decide)
    · exact .ok _

/-- An argument is allowed when all are; a missing one is null. -/
theorem value_argument {args : List Json} (h : ∀ arg ∈ args, discipline.value arg)
    (index : Nat) : discipline.value (argument args index) := by
  unfold argument
  cases harg : args[index]? with
  | none => exact discipline.null
  | some arg => exact h arg (List.mem_of_getElem? harg)

/-- The default modifier gives one of the values that it is given. -/
theorem keepsTo_applyDefault : KeepsTo discipline applyDefault := by
  intro value args hvalue hargs
  refine .bind (yields_requireArguments _ _ _) fun _ _ => ?_
  show discipline.value (if value.isEmpty then argument args 0 else value)
  split
  · exact value_argument hargs 0
  · exact hvalue

/-- The modifier that replaces what is not empty gives one of the values that it is given. -/
theorem keepsTo_applyIfThen : KeepsTo discipline applyIfThen := by
  intro value args hvalue hargs
  refine .bind (yields_requireArguments _ _ _) fun _ _ => ?_
  show discipline.value (if value.isEmpty then value else argument args 0)
  split
  · exact hvalue
  · exact value_argument hargs 0

/-- The modifier that chooses gives one of the values that it is given. -/
theorem keepsTo_applyIfThenElse : KeepsTo discipline applyIfThenElse := by
  intro value args _ hargs
  refine .bind (yields_requireArguments _ _ _) fun _ _ => ?_
  show discipline.value (if value.isEmpty then argument args 1 else argument args 0)
  split
  · exact value_argument hargs 1
  · exact value_argument hargs 0

/-- A modifier of texts gives the escape of an allowed text. -/
theorem keepsTo_applyToText {f : Bytes → Bytes}
    (hf : f ∈ [jsonEscape, jsonQuote, Html.escape, Url.encode]) :
    KeepsTo discipline (applyToText f) := by
  intro value args hvalue _
  refine .bind (.toText hvalue) fun text htext => ?_
  exact discipline.escaped (discipline.text hvalue htext) f hf

/-- A modifier that rounds gives a number, or what it was given. -/
theorem keepsTo_applyRounding (mode : Binary64.Rounding) :
    KeepsTo discipline (applyRounding mode) := by
  intro value args hvalue _
  unfold applyRounding
  split
  · exact discipline.float _
  · exact hvalue

/-- A modifier that rounds to places does so too, unless it is not told to how many. -/
theorem keepsTo_applyPlaceRounding (name : Bytes) (mode : Binary64.Rounding) :
    KeepsTo discipline (applyPlaceRounding name mode) := by
  intro value args hvalue _
  unfold applyPlaceRounding
  split
  · exact hvalue
  · refine .bind (yields_requireArguments name 1 args) fun _ _ => ?_
    split
    · exact discipline.float _
    · exact .coded rfl (by decide)

/-- The built-in modifiers obey. -/
theorem obeys_builtins : ∀ entry ∈ builtins, Obeys discipline entry.2 := by
  have hnamed : ∀ entry ∈ named, KeepsTo discipline entry.2.2 := by
    simp only [named, List.forall_mem_cons]
    exact ⟨keepsTo_applyDefault, keepsTo_applyIfThen, keepsTo_applyIfThenElse,
      keepsTo_applyToText (by simp), keepsTo_applyToText (by simp), keepsTo_applyToText (by simp),
      keepsTo_applyToText (by simp), by simp⟩
  intro entry hmem
  simp only [builtins, List.mem_append, List.mem_flatMap] at hmem
  obtain ⟨⟨name, second, f⟩, hf, hentry⟩ | ⟨⟨whole, places, mode⟩, -, hentry⟩ := hmem
  · obtain rfl | rfl : entry = (name, ofFunction f) ∨ entry = (second, ofFunction f) := by
      simpa using hentry
    · exact obeys_ofFunction (hnamed _ hf)
    · exact obeys_ofFunction (hnamed _ hf)
  · obtain rfl | rfl : entry = (whole, ofFunction (applyRounding mode)) ∨
        entry = (places, ofFunction (applyPlaceRounding places mode)) := by simpa using hentry
    · exact obeys_ofFunction (keepsTo_applyRounding mode)
    · exact obeys_ofFunction (keepsTo_applyPlaceRounding places mode)

end Modifier

/-- The helpers that compare lengths fail only for want of arguments. -/
theorem Helper.obeys_compareLength (name : Bytes) (op : Operator) :
    Obeys discipline (compareLength name op) := by
  intro args _
  unfold compareLength
  cases args with
  | nil => exact .coded rfl (by decide)
  | cons value rest => exact .ok _

/-- The registry that every host begins with obeys every discipline. -/
theorem Registry.obeys_standard : Registry.standard.Obeys discipline where
  modifiers := Modifier.obeys_builtins
  helpers := by
    intro entry hmem
    obtain ⟨⟨name, op⟩, -, rfl⟩ := List.mem_map.mp hmem
    exact Helper.obeys_compareLength name op
  inspectors := Inspector.allObey_builtins

/-! ## Variables -/

/-- Variables go on to obey when one that obeys is entered. -/
theorem Variable.AllObey.insert {bindings : Table Variable} {name : Bytes} {found : Variable}
    (h : AllObey discipline bindings) (hfound : found.Obeys discipline) :
    AllObey discipline (bindings.insert name found) :=
  Table.forall_mem_insert (fun entry : Bytes × Variable => entry.2.Obeys discipline) h hfound

/-- What a path leads to obeys, with the variable that it starts from. -/
theorem Variable.obeys_of_lookUp {bindings : Table Variable} {path : Bytes} {root : Variable}
    {value : Option Json} (h : AllObey discipline bindings)
    (hfound : lookUp bindings path = (some root, value)) :
    root.Obeys discipline ∧ ∀ found, value = some found → discipline.value found := by
  unfold lookUp at hfound
  split at hfound
  · cases hfound
  · split at hfound
    · cases hfound
    · rename_i name segments found hname
      have hobeys : found.Obeys discipline := h _ (Table.mem_of_find? hname)
      split at hfound
      · cases hfound
        refine ⟨hobeys, ?_⟩
        rintro _ ⟨⟩
        exact hobeys.value
      · cases hfound
        exact ⟨hobeys, fun inside hinside => hobeys.inspector.find? hobeys.value hinside⟩

/-- What a context finds is allowed. -/
theorem Context.value_of_find? {context : Context} {path : Bytes} {found : Json}
    (h : context.Obeys discipline) (hfound : context.find? path = some found) :
    discipline.value found := by
  rw [Context.find?] at hfound
  cases hlook : Variable.lookUp context.bindings path with
  | mk root value =>
    rw [hlook] at hfound
    cases root with
    | none =>
      -- Without a variable there is no value either.
      rw [Variable.lookUp] at hlook
      repeat' split at hlook
      all_goals simp_all
    | some root => exact (Variable.obeys_of_lookUp h hlook).2 found hfound

/-- What an operand stands for is allowed. -/
theorem Context.value_resolve {context : Context} {operand : Operand}
    (h : context.Obeys discipline) (hoperand : operand.Obeys discipline) :
    discipline.value (context.resolve operand) := by
  rw [Context.resolve]
  split
  · rename_i hstatic
    exact hoperand hstatic
  · cases hfound : context.find? operand.text with
    | none => exact discipline.null
    | some found => exact Context.value_of_find? h hfound

/-- The values of the arguments of a call are allowed. -/
theorem Context.values_resolve {context : Context} {operands : List Operand}
    (h : context.Obeys discipline) (hoperands : ∀ operand ∈ operands, operand.Obeys discipline) :
    ∀ value ∈ operands.map context.resolve, discipline.value value := by
  intro value hmem
  obtain ⟨operand, hoperand, rfl⟩ := List.mem_map.mp hmem
  exact Context.value_resolve h (hoperands operand hoperand)

/-- The variable that a value becomes is allowed. -/
theorem Variable.yields_bound {inspectors : Table Inspector}
    (h : Inspector.AllObey discipline inspectors) {value : Json} (hvalue : discipline.value value)
    (kind : Bytes) :
    discipline.Yields (Variable.Obeys discipline) (Variable.bound inspectors value kind) := by
  unfold Variable.bound
  cases hkind : Inspector.ofKind? inspectors kind with
  | none => exact .coded rfl (by decide)
  | some inspector =>
    have hobeys : inspector.Obeys discipline := h _ (Table.mem_of_find? hkind)
    exact .bind (hobeys.bind hvalue) fun _ hfound => ⟨hfound, hobeys⟩

/-- The inspector that is registered as the general one obeys. -/
theorem Inspector.obeys_general {inspectors : Table Inspector}
    (h : AllObey discipline inspectors) : (general inspectors).Obeys discipline := by
  unfold general
  cases hfound : inspectors.find? json.name with
  | none => exact obeys_json
  | some inspector => exact h _ (Table.mem_of_find? hfound)

/-! ## What statements evaluate -/

namespace Comparison

variable {context : Context}

/-- A comparison of what a path finds with a text fails only as is allowed. -/
theorem yields_holdsAgainst (h : context.Obeys discipline) (path : Bytes) (op : Operator)
    (text : Bytes) : discipline.Yields anything (holdsAgainst context path op text) := by
  unfold holdsAgainst
  split
  · rename_i root value hfound
    obtain ⟨hroot, hvalue⟩ := Variable.obeys_of_lookUp h hfound
    exact hroot.inspector.compare op text (hvalue value rfl)
  · exact Inspector.obeys_scalar.compare op text discipline.null

/-- The text of a side is found or the failure is allowed. -/
theorem yields_sideText (h : context.Obeys discipline) (operand : Operand) :
    discipline.Yields anything (sideText context operand) := by
  unfold sideText
  split
  · exact .ok _
  · rename_i hpath
    have hvalue := Context.value_resolve h fun hstatic => absurd hstatic hpath
    exact (Discipline.Yields.toText hvalue).any

/-- A comparison fails only as is allowed. -/
theorem yields_evaluate (h : context.Obeys discipline) (comparison : Comparison) :
    discipline.Yields anything (comparison.evaluate context) := by
  obtain ⟨left, op, right⟩ := comparison
  unfold evaluate
  simp only
  split
  · split
    · exact .coded rfl (by decide)
    · split <;> exact .ok _
  · split
    · exact .coded rfl (by decide)
    · split
      · exact .bind (yields_sideText h left) fun _ _ => yields_holdsAgainst h _ _ _
      · exact .bind (yields_sideText h right) fun _ _ => yields_holdsAgainst h _ _ _

end Comparison

/-- A condition fails only as is allowed. -/
theorem Condition.yields_evaluate {registry : Registry} {context : Context}
    (hregistry : registry.Obeys discipline) (h : context.Obeys discipline) {condition : Condition}
    (hargs : ∀ operand ∈ condition.args, operand.Obeys discipline) :
    discipline.Yields anything (condition.evaluate registry context) := by
  obtain ⟨comparison, helper, args⟩ := condition
  unfold evaluate
  simp only
  split
  · exact Comparison.yields_evaluate h comparison
  · split
    · exact .coded rfl (by decide)
    · rename_i decide hhelper
      exact hregistry.helpers _ (Table.mem_of_find? hhelper) (Context.values_resolve h hargs)

/-- The variable of a context statement is allowed: its inspector is that of its kind, that of the
source, or the general one. -/
theorem Binding.yields_evaluate {registry : Registry} {context : Context}
    (hregistry : registry.Obeys discipline) (h : context.Obeys discipline) {statement : Binding}
    (hsource : statement.source.Obeys discipline) :
    discipline.Yields (Variable.Obeys discipline) (statement.evaluate registry context) := by
  obtain ⟨target, source, kind⟩ := statement
  unfold evaluate
  simp only
  cases hlookUp : Variable.lookUp context.bindings source.text with
  | mk root value =>
    have hchosen : ∀ inspector,
        (if kind.isEmpty then
          some ((root.map Variable.inspector).getD (Inspector.general registry.inspectors))
        else registry.inspectors.find? kind) = some inspector → inspector.Obeys discipline := by
      intro inspector hinspector
      split at hinspector
      · cases root with
        | none =>
          cases hinspector
          exact Inspector.obeys_general hregistry.inspectors
        | some root =>
          cases hinspector
          exact (Variable.obeys_of_lookUp h hlookUp).1.inspector
      · exact hregistry.inspectors _ (Table.mem_of_find? hinspector)
    split
    · rename_i hstatic
      exact Variable.yields_bound hregistry.inspectors (hsource hstatic) kind
    · split
      · exact .coded rfl (by decide)
      · rename_i inspector found hinspector hvalue
        have hobeys := hchosen inspector hinspector
        have hfound : context.find? source.text = some found :=
          (congrArg Prod.snd hlookUp).trans hvalue
        have hvalue := Context.value_of_find? h hfound
        exact .bind (hobeys.bind hvalue) fun _ hbound => ⟨hbound, hobeys⟩
      · rename_i inspector hinspector _
        exact ⟨discipline.null, hchosen inspector hinspector⟩

namespace Counter

/-- The current value of a counter is found, or the failure has a code. -/
theorem yields_current (context : Context) (name : Bytes) :
    discipline.Yields anything (current context name) := by
  unfold current
  split
  · exact .ok _
  · exact .ok _
  · split
    · exact .ok _
    · exact .coded rfl (by decide)

/-- The new value of a counter is found, or the failure has a code. -/
theorem yields_evaluate (context : Context) (statement : Counter) :
    discipline.Yields anything (statement.evaluate context) := by
  unfold evaluate
  cases statement.action with
  | init => exact .bind (.ok 0) fun before _ => .add before statement.amount rfl (by decide)
  | add =>
    exact .bind (yields_current context statement.name) fun before _ =>
      .add before statement.amount rfl (by decide)

end Counter

namespace CountHead

/-- An integer of a loop is found, or the failure is allowed; its message may be too long. -/
theorem yields_integer (head : CountHead) (part : LoopPart) {value : Json}
    (h : discipline.value value) : discipline.Yields anything (head.integer part value) := by
  unfold integer
  split
  · exact .ok _
  · exact .bind (.print h) fun _ _ => .patterned rfl (by decide)

/-- The next counter of a loop is found, or the failure has a code. -/
theorem yields_next (head : CountHead) {context : Context} (h : context.Obeys discipline)
    (counter : Int64) : discipline.Yields anything (head.next context counter) := by
  unfold next
  cases hfound : context.find? head.counter with
  | none =>
    exact .bind (.ok counter) fun current _ => .add current head.increment rfl (by decide)
  | some value =>
    have hvalue := Context.value_of_find? h hfound
    exact .bind (head.yields_integer .counter hvalue) fun current _ =>
      .add current head.increment rfl (by decide)

end CountHead

end Obedience

end Stencil
