import Stencil.Context
import Stencil.Log
import Stencil.Tree.Basic

/-!
# Registries

A registry holds what templates refer to by name: templates, modifiers, condition helpers and
inspectors. Registering under a known name overwrites the entry, which is noted in the log; a
modifier may be registered under a second name.
-/

set_option autoImplicit false

namespace Stencil

/-- What a modifier may see and change beside its value. -/
structure Scope where
  inspectors : Table Inspector
  bindings : Table Variable

/-- A modifier turns a value and arguments into a value, and may change variables. Of a host's own
functions this covers those that see no more of a context than its inspectors and variables, whose
result depends on these and on what they are given, and that leave the variables as they are when
they fail; none of them renders with the context or resets it. -/
abbrev Modifier := Scope → Json → List Json → Except Failure (Json × Table Variable)

/-- A condition helper decides from its arguments. Of a host's own functions this covers those whose
answer depends on the arguments alone: they neither read the variables of a context nor bind any. -/
abbrev Helper := List Json → Except Failure Bool

/-- A modifier that does not look at the context. -/
def Modifier.ofFunction (f : Json → List Json → Except Failure Json) : Modifier :=
  fun scope value args => do return (← f value args, scope.bindings)

/-- What templates refer to by name. -/
structure Registry where
  templates : Table Tree := []
  modifiers : Table Modifier := []
  helpers : Table Helper := []
  inspectors : Table Inspector := []

namespace Registry

/-- What the log says when an entry of a table is overwritten. -/
def overwriteNotes {α : Type} (what : String) (table : Table α) (name : Bytes) : List LogRecord :=
  if table.contains name then
    [{ level := .debug
       text := ascii "registry_put: overwriting " ++ ascii what ++ ascii " '" ++ name.untilNul ++
        ascii "'\n" }]
  else []

/-- Registers a template under a name. -/
def addTemplate (registry : Registry) (name : Bytes) (tree : Tree) : Registry × List LogRecord :=
  ({ registry with templates := registry.templates.insert name tree },
    overwriteNotes "template" registry.templates name)

/-- Registers a modifier under a name, and under a second one unless that is empty. -/
def addModifier (registry : Registry) (name second : Bytes) (modifier : Modifier) :
    Registry × List LogRecord :=
  let table := registry.modifiers.insert name modifier
  let notes := overwriteNotes "modifier" registry.modifiers name
  if second.isEmpty then ({ registry with modifiers := table }, notes)
  else
    ({ registry with modifiers := table.insert second modifier },
      notes ++ overwriteNotes "modifier" table second)

/-- Registers a condition helper under a name. -/
def addHelper (registry : Registry) (name : Bytes) (helper : Helper) :
    Registry × List LogRecord :=
  ({ registry with helpers := registry.helpers.insert name helper },
    overwriteNotes "condition helper" registry.helpers name)

/-- Registers an inspector under a name. -/
def addInspector (registry : Registry) (name : Bytes) (inspector : Inspector) :
    Registry × List LogRecord :=
  ({ registry with inspectors := registry.inspectors.insert name inspector },
    overwriteNotes "inspector" registry.inspectors name)

end Registry

variable [JsonLibrary]

/-- The inspector registered under a kind; without a kind the general one. -/
def Inspector.ofKind? (inspectors : Table Inspector) (kind : Bytes) : Option Inspector :=
  inspectors.find? (if kind.isEmpty then Inspector.json.name else kind)

/-- The inspector that is registered as the general one. -/
def Inspector.general (inspectors : Table Inspector) : Inspector :=
  (inspectors.find? Inspector.json.name).getD Inspector.json

/-- The variable that a value becomes when it is bound through the inspector of a kind. -/
def Variable.bound (inspectors : Table Inspector) (value : Json) (kind : Bytes) :
    Except Failure Variable :=
  match Inspector.ofKind? inspectors kind with
  | none => .error (.inspectorNotFound kind)
  | some inspector => do return { value := ← inspector.bind value, inspector }

/-- Binds a value to a name through the inspector of a kind. -/
def Context.bind (context : Context) (registry : Registry) (name : Bytes) (value : Json)
    (kind : Bytes) : Except Failure Context := do
  let found ← Variable.bound registry.inspectors value kind
  return { context with bindings := context.bindings.insert name found }

end Stencil
