import Stencil.Json.Strict
import Stencil.Proofs.Session.Pool

/-!
# What names stand for

A registry is the sum of what has been entered in it: a name stands for what the last entry of a
kind under that name gave, be it the entry's first name or its second one, and for the built-in of
that name when there is no such entry (`Session.meaning_runAll`). An entry is seen in its own
registry, in its own kind and under its own names only, and every context that works with the
registry sees it from then on, whenever the context was made (`Session.meaning_eq_last`).
-/

set_option autoImplicit false

namespace Stencil

/-! ## Entries -/

/-- What is entered in a registry, and under which names. -/
inductive Entry where
  | template (name : Bytes) (tree : Tree)
  | modifier (name second : Bytes) (modifier : Modifier)
  | helper (name : Bytes) (helper : Helper)
  | inspector (name : Bytes) (inspector : Inspector)

namespace Entry

/-- The names of an entry. An empty second name is none. -/
def names : Entry → List Bytes
  | template name _ | helper name _ | inspector name _ => [name]
  | modifier name second _ => if second.isEmpty then [name] else [name, second]

/-- The template that an entry gives to a name. -/
def template? (name : Bytes) : Entry → Option Tree
  | template known tree => if name = known then some tree else none
  | _ => none

/-- The modifier that an entry gives to a name, which may be its second one. -/
def modifier? (name : Bytes) : Entry → Option Modifier
  | modifier known second found =>
    if name = known ∨ (name = second ∧ second ≠ []) then some found else none
  | _ => none

/-- The helper that an entry gives to a name. -/
def helper? (name : Bytes) : Entry → Option Helper
  | helper known found => if name = known then some found else none
  | _ => none

/-- The inspector that an entry gives to a name. -/
def inspector? (name : Bytes) : Entry → Option Inspector
  | inspector known found => if name = known then some found else none
  | _ => none

end Entry

/-- What a name stands for, kind by kind. -/
structure Meaning where
  template : Option Tree
  modifier : Option Modifier
  helper : Option Helper
  inspector : Option Inspector

namespace Meaning

/-- What a name stands for after entries one after another: for each kind what the last entry gave
to the name, else the built-in. -/
def last [JsonLibrary] (history : List Entry) (name : Bytes) : Meaning where
  template := (history.filterMap (·.template? name)).getLast?
  modifier := (history.filterMap (·.modifier? name)).getLast?.or (Modifier.builtins.find? name)
  helper := (history.filterMap (·.helper? name)).getLast?.or (Helper.builtins.find? name)
  inspector := (history.filterMap (·.inspector? name)).getLast?.or (Inspector.builtins.find? name)

end Meaning

namespace Registry

/-- What a name finds in a registry. -/
def meaning (registry : Registry) (name : Bytes) : Meaning where
  template := registry.templates.find? name
  modifier := registry.modifiers.find? name
  helper := registry.helpers.find? name
  inspector := registry.inspectors.find? name

/-- The registry after an entry, without what the log says about it. -/
def enter (registry : Registry) : Entry → Registry
  | .template name tree => (registry.addTemplate name tree).1
  | .modifier name second modifier => (registry.addModifier name second modifier).1
  | .helper name helper => (registry.addHelper name helper).1
  | .inspector name inspector => (registry.addInspector name inspector).1

end Registry

/-- What a name finds behind an entry, whether it is the name of that entry or another. -/
theorem Table.find?_insert {α : Type} (table : Table α) (name other : Bytes) (entry : α) :
    (table.insert name entry).find? other =
      (if other = name then some entry else none).or (table.find? other) := by
  by_cases h : other = name
  · rw [h, find?_insert_self, if_pos rfl, Option.some_or]
  · rw [find?_insert_of_ne table entry h, if_neg h, Option.none_or]

namespace Registry

variable (registry : Registry) (entry : Entry) (name : Bytes)

/-! ## What one entry changes -/

/-- A name finds the template of an entry, or what it found before. -/
theorem find?_templates_enter :
    (registry.enter entry).templates.find? name =
      (entry.template? name).or (registry.templates.find? name) := by
  cases entry with
  | template known tree => exact registry.templates.find?_insert known name tree
  | modifier known second found =>
    rw [enter, addModifier]
    cases second <;> rfl
  | helper | inspector => rfl

/-- A name finds the modifier of an entry under either of its names, or what it found before. -/
theorem find?_modifiers_enter :
    (registry.enter entry).modifiers.find? name =
      (entry.modifier? name).or (registry.modifiers.find? name) := by
  cases entry with
  | modifier known second found =>
    rw [enter, addModifier, Entry.modifier?]
    cases second with
    | nil =>
      have hnames : (name = known ∨ (name = [] ∧ ([] : Bytes) ≠ [])) ↔ name = known := by simp
      simp only [hnames]
      exact registry.modifiers.find?_insert known name found
    | cons b rest =>
      have hnames : (name = known ∨ (name = b :: rest ∧ b :: rest ≠ [])) ↔
          name = known ∨ name = b :: rest := by simp
      simp only [hnames, List.isEmpty_cons, Bool.false_eq_true, if_false]
      rw [Table.find?_insert, Table.find?_insert]
      -- the second name is entered last, with the same modifier
      by_cases hsecond : name = b :: rest
      · simp [hsecond]
      · simp [hsecond]
  | template | helper | inspector => rfl

/-- A name finds the helper of an entry, or what it found before. -/
theorem find?_helpers_enter :
    (registry.enter entry).helpers.find? name =
      (entry.helper? name).or (registry.helpers.find? name) := by
  cases entry with
  | helper known found => exact registry.helpers.find?_insert known name found
  | modifier known second found =>
    rw [enter, addModifier]
    cases second <;> rfl
  | template | inspector => rfl

/-- A name finds the inspector of an entry, or what it found before. -/
theorem find?_inspectors_enter :
    (registry.enter entry).inspectors.find? name =
      (entry.inspector? name).or (registry.inspectors.find? name) := by
  cases entry with
  | inspector known found => exact registry.inspectors.find?_insert known name found
  | modifier known second found =>
    rw [enter, addModifier]
    cases second <;> rfl
  | template | helper => rfl

/-- An entry leaves what every name finds that is not one of its own. -/
theorem meaning_enter_of_notMem {registry : Registry} {entry : Entry} {name : Bytes}
    (h : name ∉ entry.names) : (registry.enter entry).meaning name = registry.meaning name := by
  have hgives : entry.template? name = none ∧ entry.modifier? name = none ∧
      entry.helper? name = none ∧ entry.inspector? name = none := by
    cases entry with
    | template known | helper known | inspector known =>
      have hname : name ≠ known := by simpa [Entry.names] using h
      simp [Entry.template?, Entry.modifier?, Entry.helper?, Entry.inspector?, hname]
    | modifier known second =>
      have hnames : ¬(name = known ∨ (name = second ∧ second ≠ [])) := by
        cases second <;> simp_all [Entry.names]
      exact ⟨rfl, if_neg hnames, rfl, rfl⟩
  obtain ⟨htemplate, hmodifier, hhelper, hinspector⟩ := hgives
  simp only [meaning, find?_templates_enter, find?_modifiers_enter, find?_helpers_enter,
    find?_inspectors_enter, htemplate, hmodifier, hhelper, hinspector, Option.none_or]

/-! ## What a history of entries leaves -/

/-- The last entry that gives something decides, when each entry decides over what was there. -/
theorem look_foldl_enter {α : Type} (look : Registry → Option α) (given : Entry → Option α)
    (hstep : ∀ registry entry, look (registry.enter entry) = (given entry).or (look registry))
    (history : List Entry) :
    look (history.foldl enter registry) =
      (history.filterMap given).getLast?.or (look registry) := by
  induction history generalizing registry with
  | nil => rfl
  | cons entry rest ih =>
    rw [List.foldl_cons, ih, hstep, List.filterMap_cons]
    cases given entry with
    | none => rw [Option.none_or]
    | some found =>
      rw [List.getLast?_cons]
      cases (rest.filterMap given).getLast? <;> rfl

/-- Behind entries a name stands for what the last of them gave it, else for the built-in. -/
theorem meaning_foldl_enter [JsonLibrary] (history : List Entry) :
    (history.foldl enter standard).meaning name = .last history name := by
  have htemplates := look_foldl_enter standard (·.templates.find? name) (·.template? name)
    (fun registry entry => registry.find?_templates_enter entry name) history
  have hmodifiers := look_foldl_enter standard (·.modifiers.find? name) (·.modifier? name)
    (fun registry entry => registry.find?_modifiers_enter entry name) history
  have hhelpers := look_foldl_enter standard (·.helpers.find? name) (·.helper? name)
    (fun registry entry => registry.find?_helpers_enter entry name) history
  have hinspectors := look_foldl_enter standard (·.inspectors.find? name) (·.inspector? name)
    (fun registry entry => registry.find?_inspectors_enter entry name) history
  have hnone : standard.templates.find? name = none := rfl
  rw [hnone, Option.or_none] at htemplates
  simp only [meaning, Meaning.last, htemplates, hmodifiers, hhelpers, hinspectors]
  rfl

end Registry

/-! ## The history of a session -/

namespace Command

/-- What a command enters, and in which registry. A text that is no template enters nothing. -/
def entry? : Command → Option (RegistryName × Entry)
  | addTemplate registry name text keepFormatting =>
    match Tree.parse keepFormatting text with
    | .ok tree => some (registry, .template name tree)
    | .error _ => none
  | addModifier registry name second modifier => some (registry, .modifier name second modifier)
  | addHelper registry name helper => some (registry, .helper name helper)
  | addInspector registry name inspector => some (registry, .inspector name inspector)
  | _ => none

end Command

namespace Session

/-- Whether a name is that of a registry: one that has been made, or the shared one. -/
def hasRegistry (session : Session) : RegistryName → Bool
  | .made index => index < session.registries.length
  | .shared => true

/-- What a command enters in a registry, when there is that registry. -/
def entered? (session : Session) (registry : RegistryName) (command : Command) : Option Entry :=
  match command.entry? with
  | some (name, entry) =>
    if name = registry ∧ session.hasRegistry registry = true then some entry else none
  | none => none

/-- What commands enter in a registry one after another. -/
def history [JsonLibrary] (registry : RegistryName) : Session → List Command → List Entry
  | _, [] => []
  | session, command :: rest =>
    (session.entered? registry command).toList ++ history registry (session.run command).1 rest

variable (session : Session)

/-- Replacing a registry that is there replaces it, and leaves every other one alone. -/
theorem registry_setRegistry [JsonLibrary] (name other : RegistryName) (registry : Registry) :
    (session.setRegistry name registry).registry other =
      if name = other ∧ session.hasRegistry other = true then registry
      else session.registry other := by
  cases name with
  | shared => cases other <;> simp [setRegistry, Session.registry, hasRegistry]
  | made index =>
    cases other with
    | shared => simp [setRegistry, Session.registry]
    | made place =>
      by_cases hplace : index = place
      · subst hplace
        by_cases hlt : index < session.registries.length <;>
          simp [setRegistry, Session.registry, hasRegistry, hlt]
      · simp [setRegistry, Session.registry, hplace]

/-- A change of a registry that enters something is seen under the name of that registry. -/
theorem registry_change [JsonLibrary] {name : RegistryName} (answer : Answer)
    {f : Registry → Registry × List LogRecord} {entry : Entry}
    (hf : ∀ registry, (f registry).1 = registry.enter entry) (other : RegistryName) :
    (session.change name answer f).1.registry other =
      ((if name = other ∧ session.hasRegistry other = true then some entry else none).toList).foldl
        Registry.enter (session.registry other) := by
  have hchange : (session.change name answer f).1 =
      session.setRegistry name (f (session.registry name)).1 := rfl
  rw [hchange, hf, registry_setRegistry]
  by_cases hname : name = other ∧ session.hasRegistry other = true
  · rw [if_pos hname, if_pos hname, hname.1]
    rfl
  · rw [if_neg hname, if_neg hname]
    rfl

/-- Working with a context leaves the registries alone. -/
theorem registry_withContext [JsonLibrary] (index : Nat) (f : Registry → Context → Context × Answer)
    (name : RegistryName) :
    (session.withContext index f).1.registry name = session.registry name := by
  rw [withContext]
  cases session.workspace? index <;> cases name <;> rfl

/-- A command leaves in a registry what it enters there, on top of what was there. -/
theorem registry_run [JsonLibrary] (command : Command) (name : RegistryName) :
    (session.run command).1.registry name =
      (session.entered? name command).toList.foldl Registry.enter (session.registry name) := by
  cases command with
  | addTemplate registry known text keepFormatting =>
    rw [run, addTemplate, entered?, Command.entry?]
    cases Tree.parse keepFormatting text with
    | error => rfl
    | ok tree =>
      have henter (registry : Registry) :
          (registry.addTemplate known tree).1 = registry.enter (.template known tree) := rfl
      exact session.registry_change (.templateAdded tree.nodes.length) henter name
  | addModifier registry known second modifier =>
    have henter (registry : Registry) : (registry.addModifier known second modifier).1 =
        registry.enter (.modifier known second modifier) := rfl
    exact session.registry_change .nothing henter name
  | addHelper registry known helper =>
    have henter (registry : Registry) :
        (registry.addHelper known helper).1 = registry.enter (.helper known helper) := rfl
    exact session.registry_change .nothing henter name
  | addInspector registry known inspector =>
    have henter (registry : Registry) :
        (registry.addInspector known inspector).1 = registry.enter (.inspector known inspector) :=
      rfl
    exact session.registry_change .nothing henter name
  | set | reset | render | renderText | enterLoop | leaveLoop =>
    exact session.registry_withContext _ _ name
  | makeRegistry =>
    -- a registry that is not made yet stands for a new one
    cases name with
    | shared => rfl
    | made index =>
      show (session.registries ++ [Registry.standard])[index]?.getD _ =
        session.registries[index]?.getD _
      by_cases hlt : index < session.registries.length
      · rw [List.getElem?_append_left hlt]
      · rw [List.getElem?_append_right (Nat.not_lt.mp hlt),
          List.getElem?_eq_none (Nat.not_lt.mp hlt)]
        cases index - session.registries.length <;> rfl
  | release index =>
    rw [run, giveToPool]
    cases session.workspace? index <;> cases name <;> rfl
  | makeContext | known | read | acquire | log => cases name <;> rfl

/-- Commands leave a registry as their entries in it do. -/
theorem registry_runAll [JsonLibrary] (commands : List Command) (name : RegistryName) :
    (session.runAll commands).registry name =
      (session.history name commands).foldl Registry.enter (session.registry name) := by
  induction commands generalizing session with
  | nil => rfl
  | cons command rest ih =>
    rw [history, List.foldl_append, ← session.registry_run]
    exact ih (session.run command).1

/-- Every registry of a new session is the standard one. -/
theorem registry_start [JsonLibrary] (name : RegistryName) :
    Session.start.registry name = Registry.standard := by
  cases name with
  | shared => rfl
  | made index => cases index <;> rfl

/-- After any commands a name stands for what was entered last under it, else for the built-in. -/
theorem meaning_runAll [JsonLibrary] (commands : List Command) (registry : RegistryName)
    (name : Bytes) :
    ((Session.runAll .start commands).registry registry).meaning name =
      .last (history registry .start commands) name := by
  rw [registry_runAll, registry_start, Registry.meaning_foldl_enter]

/-- A command that enters nothing under a name leaves what the name stands for. -/
theorem meaning_run_of_notMem [JsonLibrary] {command : Command} {registry : RegistryName}
    {name : Bytes}
    (h : ∀ entry, session.entered? registry command = some entry → name ∉ entry.names) :
    ((session.run command).1.registry registry).meaning name =
      (session.registry registry).meaning name := by
  rw [registry_run]
  cases hentered : session.entered? registry command with
  | none => rfl
  | some entry => exact Registry.meaning_enter_of_notMem (h entry hentered)

/-! ## Contexts -/

/-- Whether there is a context at an index that works with a given registry. -/
def Works (index : Nat) (registry : RegistryName) : Prop :=
  ∃ context, session.workspace? index = some { registry, context }

variable {session} {index : Nat} {registry : RegistryName}

/-- Another index does not matter to a context. -/
theorem works_setWorkspace_of_ne {other : Nat} (h : session.Works index registry)
    (hne : other ≠ index) (entry : Option Workspace) :
    (session.setWorkspace other entry).Works index registry := by
  obtain ⟨context, hcontext⟩ := h
  refine ⟨context, ?_⟩
  rw [← hcontext]
  simp [workspace?, setWorkspace, hne]

/-- A new place does not matter to the contexts that there are. -/
theorem works_append (h : session.Works index registry) (entry : Option Workspace)
    (pool : List Workspace) :
    ({ session with workspaces := session.workspaces ++ [entry], pool } : Session).Works index
      registry := by
  obtain ⟨context, hcontext⟩ := h
  refine ⟨context, ?_⟩
  have hget : session.workspaces[index]? = some (some { registry, context }) :=
    Option.join_eq_some_iff.mp hcontext
  obtain ⟨hlt, -⟩ := List.getElem?_eq_some_iff.mp hget
  rw [workspace?, List.getElem?_append_left hlt, hget]
  rfl

/-- What is done with a context leaves every context its registry. -/
theorem works_withContext [JsonLibrary] (h : session.Works index registry) (other : Nat)
    (f : Registry → Context → Context × Answer) :
    (session.withContext other f).1.Works index registry := by
  rw [withContext]
  cases hentry : session.workspace? other with
  | none => exact h
  | some entry =>
    by_cases hsame : other = index
    · obtain ⟨context, hcontext⟩ := h
      obtain rfl : entry = { registry, context } :=
        Option.some.inj (hentry.symm.trans (hsame ▸ hcontext))
      have hget : session.workspaces[index]? = some (some { registry, context }) :=
        Option.join_eq_some_iff.mp hcontext
      obtain ⟨hlt, -⟩ := List.getElem?_eq_some_iff.mp hget
      refine ⟨(f (session.registry registry) context).1, ?_⟩
      simp [workspace?, setWorkspace, hsame, hlt]
    · exact works_setWorkspace_of_ne h hsame _

/-- A context stays at its index and works with its registry until it is given back. -/
theorem Works.run [JsonLibrary] (h : session.Works index registry) {command : Command}
    (hkept : command ≠ .release index) : (session.run command).1.Works index registry := by
  cases command with
  | makeRegistry | known | read | log => exact h
  | makeContext => exact works_append h _ _
  | acquire => exact works_append h _ _
  | release other =>
    rw [Session.run, giveToPool]
    cases session.workspace? other with
    | none => exact h
    | some entry =>
      have hne : other ≠ index := fun hsame => hkept (congrArg Command.release hsame)
      exact works_setWorkspace_of_ne h hne none
  | set | reset | render | renderText | enterLoop | leaveLoop => exact works_withContext h _ _
  | addTemplate name known text keepFormatting =>
    rw [Session.run, addTemplate]
    cases Tree.parse keepFormatting text with
    | error => exact h
    | ok tree => cases name <;> exact h
  | addModifier name => cases name <;> exact h
  | addHelper name => cases name <;> exact h
  | addInspector name => cases name <;> exact h

/-- A context goes on to work with its registry as long as it is not given back. -/
theorem Works.runAll [JsonLibrary] (h : session.Works index registry) {commands : List Command}
    (hkept : .release index ∉ commands) : (session.runAll commands).Works index registry := by
  induction commands generalizing session with
  | nil => exact h
  | cons command rest ih =>
    rw [List.mem_cons, not_or] at hkept
    exact ih (h.run (Ne.symm hkept.1)) hkept.2

end Session

/-! ## What names are used for -/

/-- Whether what is done with a registry takes every name for what a given meaning says: the
template that is rendered, the modifier that is called, the helper that decides, and the inspector
that a value is bound through. -/
structure Registry.Follows [JsonLibrary] (registry : Registry) (meaning : Bytes → Meaning) :
    Prop where
  render (name : Bytes) (context : Context) :
    registry.render name context =
      match (meaning name).template with
      | none => RenderM.fail (.templateNotFound name) context
      | some tree => (tree.render registry context).map fun _ => ()
  modify (call : ModifierCall) (rest : List ModifierCall) (value : Json) (context : Context) :
    ModifierCall.applyAll registry (call :: rest) value context =
      match (meaning call.name).modifier with
      | none => RenderM.fail (.modifierNotFound call.name) context
      | some modifier =>
        match modifier { inspectors := registry.inspectors, bindings := context.bindings } value
            (call.args.map context.resolve) with
        | .ok (value, bindings) =>
          ModifierCall.applyAll registry rest value { context with bindings }
        | .error failure => RenderM.fail failure context
  decide (condition : Condition) (context : Context) (h : condition.helper ≠ []) :
    condition.evaluate registry context =
      match (meaning condition.helper).helper with
      | none => .error (.helperNotFound condition.helper)
      | some decide => decide (condition.args.map context.resolve)
  bind (context : Context) (name : Bytes) (value : Json) (kind : Bytes) :
    context.bind registry name value kind =
      match (meaning (if kind.isEmpty then Inspector.json.name else kind)).inspector with
      | none => .error (.inspectorNotFound kind)
      | some inspector =>
        (inspector.bind value).map fun bound => context.assign name bound inspector

/-- A registry does with a name what its meaning says. -/
theorem Registry.follows_meaning [JsonLibrary] (registry : Registry) :
    registry.Follows registry.meaning where
  render name context := by
    rw [Registry.render, meaning]
    cases registry.templates.find? name with
    | none => rfl
    | some tree => exact RenderM.bind_pure_apply (tree.render registry) (fun _ => ()) context
  modify call rest value context := by
    rw [ModifierCall.applyAll, meaning]
    cases registry.modifiers.find? call.name with
    | none => rfl
    | some modifier =>
      simp only [RenderM.context_bind]
      cases modifier _ value (call.args.map context.resolve) <;> rfl
  decide condition context h := by
    rw [Condition.evaluate, meaning]
    exact if_neg (by simpa using h)
  bind context name value kind := by
    rw [Context.bind, Variable.bound, Inspector.ofKind?, meaning]
    simp only
    cases registry.inspectors.find? (if kind.isEmpty then Inspector.json.name else kind) with
    | none => rfl
    | some inspector =>
      simp only
      cases inspector.bind value <;> rfl

/-- A built-in modifier with a second name is found under both of its names. -/
theorem Modifier.find?_builtins_of_named [JsonLibrary] {name second : Bytes}
    {f : Json → List Json → Except Failure Json} (h : (name, second, f) ∈ named) :
    builtins.find? name = some (ofFunction f) ∧ builtins.find? second = some (ofFunction f) := by
  simp only [named, List.mem_cons, List.not_mem_nil, or_false, Prod.mk.injEq] at h
  obtain ⟨rfl, rfl, rfl⟩ | ⟨rfl, rfl, rfl⟩ | ⟨rfl, rfl, rfl⟩ | ⟨rfl, rfl, rfl⟩ | ⟨rfl, rfl, rfl⟩ |
    ⟨rfl, rfl, rfl⟩ | ⟨rfl, rfl, rfl⟩ := h <;> exact ⟨rfl, rfl⟩

/-- Registries see the last registration. After any commands, a name stands in a registry for what
was entered last under it, kind by kind and in this registry only, else for the built-in, which a
modifier is under both of its names; and this is what the registry's templates, modifiers, helpers
and inspectors are taken for. A command that enters nothing under the name leaves what it stands
for. A context works with its registry as it is then, whenever the context was made. -/
theorem Session.meaning_eq_last [JsonLibrary] (earlier later : List Command) :
    let commands := earlier ++ later
    let session := Session.runAll .start commands
    (∀ registry name,
      (session.registry registry).meaning name = .last (history registry .start commands) name) ∧
    (∀ registry, (session.registry registry).Follows (.last (history registry .start commands))) ∧
    (∀ name second f, (name, second, f) ∈ Modifier.named →
      Modifier.builtins.find? name = some (Modifier.ofFunction f) ∧
      Modifier.builtins.find? second = some (Modifier.ofFunction f)) ∧
    (∀ registry name command,
      (∀ entry, session.entered? registry command = some entry → name ∉ entry.names) →
      ((session.run command).1.registry registry).meaning name =
        (session.registry registry).meaning name) ∧
    ∀ index registry, (Session.runAll .start earlier).Works index registry →
      .release index ∉ later →
      ∃ context, session.workspace? index = some { registry, context } ∧
        ∀ use, (session.withContext index use).2.1 =
          (use (session.registry registry) context).2 := by
  intro commands session
  have hmeaning (registry : RegistryName) :
      (session.registry registry).meaning = .last (history registry .start commands) :=
    funext fun name => meaning_runAll commands registry name
  refine ⟨fun registry => congrFun (hmeaning registry), fun registry => ?_,
    fun _ _ _ => Modifier.find?_builtins_of_named,
    fun registry name command => session.meaning_run_of_notMem, ?_⟩
  · rw [← hmeaning registry]
    exact Registry.follows_meaning _
  · intro index registry hworks hkept
    have hsession : session = (Session.runAll .start earlier).runAll later := List.foldl_append
    obtain ⟨context, hcontext⟩ := hworks.runAll hkept
    rw [← hsession] at hcontext
    refine ⟨context, hcontext, fun use => ?_⟩
    rw [withContext, hcontext]

open scoped JsonLibrary.Strict

/-- A built-in overwritten under its first name and another one under its second name, in a registry
for which a context was made before. The other names of both, and the shared registry, keep the
built-ins. -/
theorem Session.meaning_overwritten :
    let earlier : List Command := [.makeRegistry, .makeContext (.made 1)]
    let later : List Command :=
      [.addModifier (.made 1) (ascii "default") [] Extension.upper, .render 1 (ascii "page"),
        .addModifier (.made 1) (ascii "loud") (ascii "je") Extension.upper]
    let session := Session.runAll .start (earlier ++ later)
    let modifier? (registry : RegistryName) (name : String) :=
      ((session.registry registry).meaning (ascii name)).modifier
    (Session.runAll .start earlier).Works 1 (.made 1) ∧ .release 1 ∉ later ∧
    modifier? (.made 1) "default" = some Extension.upper ∧
    modifier? (.made 1) "def" = some (Modifier.ofFunction Modifier.applyDefault) ∧
    modifier? (.made 1) "je" = some Extension.upper ∧
    modifier? (.made 1) "jsonEscape" =
      some (Modifier.ofFunction (Modifier.applyToText Modifier.jsonEscape)) ∧
    modifier? .shared "default" = some (Modifier.ofFunction Modifier.applyDefault) ∧
    (((session.run
      (.addModifier .shared (ascii "default") (ascii "je") Extension.failing)).1.registry
      (.made 1)).meaning (ascii "je")).modifier = some Extension.upper ∧
    ∃ context, session.workspace? 1 = some { registry := .made 1, context } := by
  intro earlier later session modifier?
  have hworks : (Session.runAll .start earlier).Works 1 (.made 1) := ⟨_, rfl⟩
  have hkept : .release 1 ∉ later := by simp [later]
  obtain ⟨hmeaning, -, -, hframe, hcontexts⟩ := meaning_eq_last earlier later
  have hmodifier (registry : RegistryName) (name : String) : modifier? registry name =
      (Meaning.last (history registry .start (earlier ++ later)) (ascii name)).modifier :=
    congrArg Meaning.modifier (hmeaning registry (ascii name))
  have helsewhere := hframe (.made 1) (ascii "je")
    (.addModifier .shared (ascii "default") (ascii "je") Extension.failing)
    (by rintro entry ⟨⟩)
  obtain ⟨context, hcontext, -⟩ := hcontexts 1 (.made 1) hworks hkept
  exact ⟨hworks, hkept, hmodifier _ _, hmodifier _ _, hmodifier _ _, hmodifier _ _, hmodifier _ _,
    (congrArg Meaning.modifier helsewhere).trans (hmodifier _ _), context, hcontext⟩

end Stencil
