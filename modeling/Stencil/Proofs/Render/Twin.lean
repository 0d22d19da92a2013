import Stencil.Builtins
import Stencil.Proofs.Render.Course
import Stencil.Proofs.Render.Steps

/-!
# Two runs side by side

The same nodes are rendered in two contexts whose variables are related name by name. This file has
what the comparison of the two runs needs: the sites that they come to together, tables that get the
same entries, modifiers that do not tell related variables apart (`Modifier.Respects`), and outcomes
that write the same, end alike and leave related variables (`Rendered.Twin`). The comparison itself
is in `Stencil.Proofs.Render.Simulation`.
-/

set_option autoImplicit false

namespace Stencil

/-! ## Sites on the way -/

/-- The rendering of a site in a context comes to another site in another context, at once or over
others. -/
inductive Site.Reaches [JsonLibrary] (registry : Registry) (iterations : Nat) :
    Site → Context → Site → Context → Prop
  | here {site : Site} {context : Context} : Reaches registry iterations site context site context
  | step {site next last : Site} {before between after : Context} {written : Bytes}
    (hcalls : Calls registry iterations site before written next between)
    (hrest : Reaches registry iterations next between last after) :
    Reaches registry iterations site before last after

namespace Site.Reaches

variable {registry : Registry} {iterations : Nat} {last : Site} {context after : Context}

/-- Nodes in order come to what the first one comes to, and to what the others come to after it. -/
theorem of_cons [JsonLibrary] {first : Node} {rest : List Node}
    (h : Reaches registry iterations (.all (first :: rest)) context last after) :
    (last = .all (first :: rest) ∧ after = context) ∨
      Reaches registry iterations (.node first) context last after ∨
      (first.render registry iterations context).result = .ok .done ∧
        Reaches registry iterations (.all rest) (first.render registry iterations context).context
          last after := by
  cases h with
  | here => exact .inl ⟨rfl, rfl⟩
  | step hcalls hrest =>
    cases hcalls with
    | first => exact .inr (.inl hrest)
    | next hdone => exact .inr (.inr ⟨hdone, hrest⟩)

/-- Without nodes there is nothing to come to. -/
theorem of_nil [JsonLibrary] (h : Reaches registry iterations (.all []) context last after) :
    last = .all [] ∧ after = context := by
  cases h with
  | here => exact ⟨rfl, rfl⟩
  | step hcalls _ => cases hcalls

end Site.Reaches

/-- The same site in two runs: a loop over elements may bind through another inspector. -/
inductive Site.Alike : Site → Site → Prop
  | same {site : Site} : Alike site site
  | visits {head : RangeHead} {first second : Inspector} {slot : Nat} {children : List Node}
    {elements : List (Json × Json)} :
    Alike (.visits head first slot children elements) (.visits head second slot children elements)

/-- Two renderings come together to a site, in a context of each run: what they come to on the way
is alike. -/
inductive Site.Together [JsonLibrary] (registry : Registry) (iterations : Nat) :
    Site → Context → Site → Context → Site → Context → Context → Prop
  | here {site site' : Site} {left right : Context} :
    Together registry iterations site left site' right site left right
  | step {site site' next next' last : Site} {left right left' right' lastLeft lastRight : Context}
    {written written' : Bytes} (hcalls : Calls registry iterations site left written next left')
    (hcalls' : Calls registry iterations site' right written' next' right')
    (halike : Alike next next')
    (hrest : Together registry iterations next left' next' right' last lastLeft lastRight) :
    Together registry iterations site left site' right last lastLeft lastRight

/-- What two runs come to together, the left one comes to. -/
theorem Site.Together.reaches [JsonLibrary] {registry : Registry} {iterations : Nat}
    {site site' last : Site} {left right lastLeft lastRight : Context}
    (h : Together registry iterations site left site' right last lastLeft lastRight) :
    Reaches registry iterations site left last lastLeft := by
  induction h with
  | here => exact .here
  | step hcalls _ _ _ ih => exact .step hcalls ih

/-! ## Tables -/

namespace Table

/-- A name that was entered is there. -/
theorem contains_insert_self {α : Type} (table : Table α) (name : Bytes) (entry : α) :
    (table.insert name entry).contains name = true := by
  rw [contains, find?_insert_self]
  rfl

/-- Entering a name leaves the others in the table. -/
theorem contains_insert {α : Type} {table : Table α} {other : Bytes}
    (h : table.contains other = true) (name : Bytes) (entry : α) :
    (table.insert name entry).contains other = true := by
  by_cases hname : other = name
  · subst hname
    exact contains_insert_self table other entry
  · rw [contains, find?_insert_of_ne table entry hname]
    exact h

end Table

namespace Variable

/-- Variables entered one after another. -/
def insertAll (bindings : Table Variable) (entries : List (Bytes × Variable)) : Table Variable :=
  entries.foldl (fun table entry => table.insert entry.1 entry.2) bindings

/-- After variables have been entered into two tables, a name finds the same in both, or in each
what it found before. -/
theorem find?_insertAll (left right : Table Variable) (entries : List (Bytes × Variable))
    (name : Bytes) :
    (∃ found, (insertAll left entries).find? name = some found ∧
      (insertAll right entries).find? name = some found) ∨
    ((insertAll left entries).find? name = left.find? name ∧
      (insertAll right entries).find? name = right.find? name) := by
  induction entries generalizing left right with
  | nil => exact .inr ⟨rfl, rfl⟩
  | cons entry rest ih =>
    obtain hsame | ⟨hleft, hright⟩ :=
      ih (left.insert entry.1 entry.2) (right.insert entry.1 entry.2)
    · exact .inl hsame
    · by_cases hname : name = entry.1
      · subst hname
        refine .inl ⟨entry.2, ?_, ?_⟩
        · exact hleft.trans (Table.find?_insert_self ..)
        · exact hright.trans (Table.find?_insert_self ..)
      · refine .inr ⟨?_, ?_⟩
        · exact hleft.trans (Table.find?_insert_of_ne _ _ hname)
        · exact hright.trans (Table.find?_insert_of_ne _ _ hname)

/-- Names are there still when more entries are made. -/
theorem contains_insertAll {bindings : Table Variable} {name : Bytes}
    (h : bindings.contains name = true) (entries : List (Bytes × Variable)) :
    (insertAll bindings entries).contains name = true := by
  induction entries generalizing bindings with
  | nil => exact h
  | cons entry rest ih => exact ih (Table.contains_insert h entry.1 entry.2)

/-- The name of the variable that a path begins with. -/
def rootName (path : Bytes) : Bytes := (path.splitOn Byte.dot).headD []

/-- What a path finds depends on the variable that it begins with only. -/
theorem lookUp_congr {left right : Table Variable} {path : Bytes}
    (h : left.find? (rootName path) = right.find? (rootName path)) :
    lookUp left path = lookUp right path := by
  rw [lookUp, lookUp]
  cases hsplit : path.splitOn Byte.dot with
  | nil => rfl
  | cons name segments =>
    rw [rootName, hsplit] at h
    simp only [List.headD_cons] at h
    simp only [h]

/-- A path whose variable is not bound leads nowhere. -/
theorem lookUp_of_unbound {bindings : Table Variable} {path : Bytes}
    (hfind : bindings.find? (rootName path) = none) : lookUp bindings path = (none, none) := by
  rw [lookUp]
  rw [rootName] at hfind
  cases hsplit : path.splitOn Byte.dot with
  | nil => rfl
  | cons name segments =>
    rw [hsplit, List.headD_cons] at hfind
    simp only [hfind]

/-- A path is a name alone, which finds the value of a variable, or it looks into a variable through
its inspector. -/
theorem lookUp_cases (path : Bytes) :
    (rootName path = path ∧ ∀ {bindings : Table Variable} {found : Variable},
      bindings.find? (rootName path) = some found →
        lookUp bindings path = (some found, some found.value)) ∨
    (Byte.dot ∈ path ∧ ∃ segment segments, ∀ {bindings : Table Variable} {found : Variable},
      bindings.find? (rootName path) = some found →
        lookUp bindings path =
          (some found, found.inspector.find? found.value (segment :: segments))) := by
  have hjoin : [Byte.dot].intercalate (path.splitOn Byte.dot) = path :=
    List.intercalate_splitOn Byte.dot
  cases hsplit : path.splitOn Byte.dot with
  | nil => exact absurd hsplit (List.splitOn_ne_nil _ _)
  | cons name segments =>
    have hroot : rootName path = name := by rw [rootName, hsplit, List.headD_cons]
    rw [hsplit] at hjoin
    rw [hroot]
    cases segments with
    | nil =>
      refine .inl ⟨by simpa using hjoin, fun hfind => ?_⟩
      rw [lookUp, hsplit]
      simp only [hfind]
      rfl
    | cons segment rest =>
      refine .inr ⟨Decidable.byContradiction fun hdot => ?_, segment, rest, fun hfind => ?_⟩
      · have hsingle : path.splitOn Byte.dot = [path] :=
          List.splitOnP_eq_singleton fun b hb => beq_false_of_ne fun heq => hdot (heq ▸ hb)
        simp [hsingle] at hsplit
      · rw [lookUp, hsplit]
        simp only [hfind]
        rfl

end Variable

/-- The variable that a path begins with is the one of its first name. -/
theorem Context.root?_eq (context : Context) (path : Bytes) :
    context.root? path = context.bindings.find? (Variable.rootName path) := by
  rw [root?]
  cases hfind : context.bindings.find? (Variable.rootName path) with
  | none => rw [Variable.lookUp_of_unbound hfind]
  | some found =>
    obtain ⟨-, hfinds⟩ | ⟨-, segment, segments, hfinds⟩ := Variable.lookUp_cases path
    · rw [hfinds hfind]
    · rw [hfinds hfind]

/-- An operand that has one value in two contexts has one value when the same variables are entered
into both. -/
theorem Context.resolve_insertAll {left right : Context} {operand : Operand}
    (h : left.resolve operand = right.resolve operand) (entries : List (Bytes × Variable)) :
    resolve { left with bindings := Variable.insertAll left.bindings entries } operand =
      resolve { right with bindings := Variable.insertAll right.bindings entries } operand := by
  unfold resolve at h ⊢
  cases hstatic : operand.isStatic with
  | true => rfl
  | false =>
    simp only [hstatic, Bool.false_eq_true, if_false, find?] at h ⊢
    obtain ⟨found, hleft, hright⟩ | ⟨hleft, hright⟩ :=
      Variable.find?_insertAll left.bindings right.bindings entries
        (Variable.rootName operand.text)
    · rw [Variable.lookUp_congr (hleft.trans hright.symm)]
    · rw [Variable.lookUp_congr hleft, Variable.lookUp_congr hright]
      exact h

/-! ## Related variables -/

/-- Two tables bind to every name what a relation allows. -/
def Variable.Related (relation : Bytes → Option Variable → Option Variable → Prop)
    (left right : Table Variable) : Prop :=
  ∀ name, relation name (left.find? name) (right.find? name)

/-- Variables stay related when related ones are entered. -/
theorem Variable.Related.insert {relation : Bytes → Option Variable → Option Variable → Prop}
    {left right : Table Variable} {name : Bytes} {first second : Variable}
    (h : Related relation left right) (hname : relation name (some first) (some second)) :
    Related relation (left.insert name first) (right.insert name second) := by
  intro other
  by_cases hother : other = name
  · subst hother
    rw [Table.find?_insert_self, Table.find?_insert_self]
    exact hname
  · rw [Table.find?_insert_of_ne _ _ hother, Table.find?_insert_of_ne _ _ hother]
    exact h other

/-! ## Modifiers that tell no variables apart -/

section Modifiers

variable (relation : Bytes → Option Variable → Option Variable → Prop)

/-- A modifier that does not tell related variables apart: it gives the same value or failure, and
enters the same variables. -/
def Modifier.Respects (modifier : Modifier) : Prop :=
  ∀ {left right : Table Variable}, Variable.Related relation left right →
    ∀ (inspectors : Table Inspector) (value : Json) (args : List Json),
      ∃ outcome : Except Failure (Json × List (Bytes × Variable)),
        modifier { inspectors, bindings := left } value args =
          outcome.map (fun (result, entries) => (result, Variable.insertAll left entries)) ∧
        modifier { inspectors, bindings := right } value args =
          outcome.map fun (result, entries) => (result, Variable.insertAll right entries)

/-- A registry whose modifiers tell no related variables apart. -/
def Registry.Respects (registry : Registry) : Prop :=
  ∀ entry ∈ registry.modifiers, entry.2.Respects relation

/-- A modifier that does not look at the context tells no variables apart. -/
theorem Modifier.respects_ofFunction (f : Json → List Json → Except Failure Json) :
    (ofFunction f).Respects relation := by
  intro left right _ inspectors value args
  refine ⟨(f value args).map fun result => (result, []), ?_, ?_⟩
  · rw [ofFunction]
    cases f value args <;> rfl
  · rw [ofFunction]
    cases f value args <;> rfl

/-- The built-in modifiers look at no variables. -/
theorem Registry.respects_standard [JsonLibrary] : Registry.standard.Respects relation := by
  intro entry hmem
  simp only [standard, Modifier.builtins, List.mem_append, List.mem_flatMap] at hmem
  obtain ⟨⟨name, second, f⟩, -, hentry⟩ | ⟨⟨whole, places, mode⟩, -, hentry⟩ := hmem
  · simp only [List.mem_cons, List.not_mem_nil, or_false] at hentry
    obtain rfl | rfl := hentry <;> exact Modifier.respects_ofFunction relation f
  · simp only [List.mem_cons, List.not_mem_nil, or_false] at hentry
    obtain rfl | rfl := hentry <;> exact Modifier.respects_ofFunction relation _

end Modifiers

/-! ## Related outcomes -/

/-- Two renderings write the same, end alike and leave related variables; no variable of a given
table is lost in the left one. -/
structure Rendered.Twin {α : Type} (relation : Bytes → Option Variable → Option Variable → Prop)
    (before : Table Variable) (left right : Rendered α) : Prop where
  written : left.written = right.written
  result : left.result = right.result
  related : Variable.Related relation left.context.bindings right.context.bindings
  kept : ∀ name, before.contains name = true → left.context.bindings.contains name = true

namespace Rendered.Twin

variable {α β : Type} {relation : Bytes → Option Variable → Option Variable → Prop}
  {before : Table Variable} {left right : Context}

/-- Two steps that write the same, end alike and change no variable. -/
theorem of_unchanged {outcome outcome' : Rendered α}
    (hrelated : Variable.Related relation left.bindings right.bindings)
    (hwritten : outcome.written = outcome'.written) (hresult : outcome.result = outcome'.result)
    (hleft : outcome.context.bindings = left.bindings)
    (hright : outcome'.context.bindings = right.bindings) :
    Twin relation left.bindings outcome outcome' :=
  ⟨hwritten, hresult, by rw [hleft, hright]; exact hrelated, fun _ h => by rw [hleft]; exact h⟩

/-- A value changes no variable. -/
theorem pure (hrelated : Variable.Related relation left.bindings right.bindings) (value : α) :
    Twin relation left.bindings ((Pure.pure value : RenderM α) left)
      ((Pure.pure value : RenderM α) right) :=
  of_unchanged hrelated rfl rfl rfl rfl

/-- Writing changes no variable. -/
theorem write (hrelated : Variable.Related relation left.bindings right.bindings) (text : Bytes) :
    Twin relation left.bindings (RenderM.write text left) (RenderM.write text right) :=
  of_unchanged hrelated rfl rfl rfl rfl

/-- A failure changes no variable. -/
theorem fail (hrelated : Variable.Related relation left.bindings right.bindings)
    (failure : Failure) :
    Twin relation left.bindings ((RenderM.fail failure : RenderM α) left)
      ((RenderM.fail failure : RenderM α) right) :=
  of_unchanged hrelated rfl rfl rfl rfl

/-- Twins stay so when their values are replaced alike. -/
theorem map {outcome outcome' : Rendered α} (h : Twin relation before outcome outcome')
    (f : α → β) : Twin relation before (outcome.map f) (outcome'.map f) :=
  ⟨h.written, congrArg (Except.map f) h.result, h.related, h.kept⟩

/-- Twins stay so behind the same text. -/
theorem after {outcome outcome' : Rendered α} (h : Twin relation before outcome outcome')
    (text : Bytes) : Twin relation before (outcome.after text) (outcome'.after text) :=
  ⟨congrArg (text ++ ·) h.written, h.result, h.related, h.kept⟩

/-- Twins stay so when a loop is left. -/
theorem leaveLoop {outcome outcome' : Rendered α} (h : Twin relation before outcome outcome') :
    Twin relation before outcome.leaveLoop outcome'.leaveLoop :=
  ⟨h.written, h.result, h.related, h.kept⟩

/-- Less may be known to be kept. -/
theorem of_before {earlier : Table Variable} {outcome outcome' : Rendered α}
    (h : Twin relation before outcome outcome')
    (hbefore : ∀ name, earlier.contains name = true → before.contains name = true) :
    Twin relation earlier outcome outcome' :=
  ⟨h.written, h.result, h.related, fun name hname => h.kept name (hbefore name hname)⟩

/-- Steps that are twins in a row are twins. -/
theorem bind {step step' : RenderM α} {next next' : α → RenderM β}
    (hstep : Twin relation before (step left) (step' right))
    (hnext : ∀ value, (step left).result = .ok value →
      Twin relation (step left).context.bindings (next value (step left).context)
        (next' value (step' right).context)) :
    Twin relation before ((step >>= next) left) ((step' >>= next') right) := by
  cases hresult : (step left).result with
  | error stop =>
    rw [RenderM.bind_of_error hresult, RenderM.bind_of_error (hstep.result.symm.trans hresult)]
    exact ⟨hstep.written, rfl, hstep.related, hstep.kept⟩
  | ok value =>
    have hmore := hnext value hresult
    rw [RenderM.bind_of_ok hresult, RenderM.bind_of_ok (hstep.result.symm.trans hresult),
      hstep.written]
    exact (hmore.after _).of_before hstep.kept

end Rendered.Twin

end Stencil
