import Stencil.Builtins
import Stencil.Render.Tree
import Stencil.Session.Extension
import Stencil.Template.Parse

/-!
# Sessions

A session holds registries, contexts on them, and a pool of contexts that are used again, and
carries out commands one after another. A context that goes back to the pool is reset and its index
is given up; the pool hands out what came back last, or a new context on the first registry.
-/

set_option autoImplicit false

namespace Stencil

/-- A registry of a session: one of those it made, or the one shared by the whole process. -/
inductive RegistryName where
  | made (index : Nat)
  | shared
  deriving DecidableEq, Repr

/-- A context and the registry that it works with. -/
structure Workspace where
  registry : RegistryName
  context : Context

namespace Workspace

/-- A workspace on a registry with a context that nothing is bound in. -/
def fresh (registry : RegistryName) : Workspace := { registry, context := {} }

end Workspace

/-- The state between two commands. -/
structure Session where
  /-- The registries that were made, by index. -/
  registries : List Registry
  /-- The registry shared by the whole process. -/
  shared : Registry
  /-- The contexts by index; those given back leave a gap. -/
  workspaces : List (Option Workspace) := [some (Workspace.fresh (.made 0))]
  /-- The contexts given back, last one first. -/
  pool : List Workspace := []

/-- What a session can be asked to do. -/
inductive Command where
  | makeRegistry
  | makeContext (registry : RegistryName)
  | addTemplate (registry : RegistryName) (name text : Bytes) (keepFormatting : Bool)
  | addModifier (registry : RegistryName) (name second : Bytes) (modifier : Modifier)
  | addHelper (registry : RegistryName) (name : Bytes) (helper : Helper)
  | addInspector (registry : RegistryName) (name : Bytes) (inspector : Inspector)
  | known (registry : RegistryName) (name : Bytes)
  | set (context : Nat) (name : Bytes) (value : Json) (kind : Bytes)
  | read (context : Nat)
  | reset (context : Nat)
  | render (context : Nat) (name : Bytes)
  | renderText (context : Nat) (name : Bytes)
  | acquire
  | release (context : Nat)
  | enterLoop (context : Nat)
  | leaveLoop (context : Nat)
  | log (level : LogLevel) (text : Bytes)

/-- What a command answers. -/
inductive Answer where
  | nothing
  | registryMade (index : Nat)
  | contextMade (index : Nat)
  | templateAdded (nodes : Nat)
  | refused (error : ParseError)
  | failed (failure : Failure)
  | knownAs (template modifier helper inspector : Bool)
  | depth (depth : Nat)
  | rendered (written : Bytes) (stop : Option Stop) (depth : Nat)
  | text (written : Bytes)
  | acquired (index depth poolSize : Nat)
  | released (poolSize : Nat)

/-- What the log says when a template has been parsed. -/
def Tree.parseNote (text : Bytes) (tree : Tree) : LogRecord where
  level := .debug
  text := ascii "bytetpl_parse: parsed " ++ Decimal.ofNat text.length ++ ascii " bytes into " ++
    Decimal.ofNat tree.nodes.length ++ ascii " top-level nodes\n"

namespace Session

variable [JsonLibrary]

/-- A session with a registry, a context on it, and an empty pool. -/
def start : Session where
  registries := [Registry.standard]
  shared := Registry.standard

/-- The registry of a name; a name that was never given stands for a new registry. -/
def registry (session : Session) : RegistryName → Registry
  | .made index => session.registries[index]?.getD Registry.standard
  | .shared => session.shared

/-- Puts a registry in the place of a name. -/
def setRegistry (session : Session) (name : RegistryName) (registry : Registry) : Session :=
  match name with
  | .made index => { session with registries := session.registries.set index registry }
  | .shared => { session with shared := registry }

/-- The context at an index, when it has not been given back. -/
def workspace? (session : Session) (index : Nat) : Option Workspace :=
  (session.workspaces[index]?).join

/-- Replaces what is at an index. -/
def setWorkspace (session : Session) (index : Nat) (entry : Option Workspace) : Session :=
  { session with workspaces := session.workspaces.set index entry }

/-- Carries out a change of a registry that is noted in the log. -/
def change (session : Session) (name : RegistryName) (answer : Answer)
    (f : Registry → Registry × List LogRecord) : Session × Answer × List LogRecord :=
  let (registry, notes) := f (session.registry name)
  (session.setRegistry name registry, answer, notes)

/-- Carries out what is done with a context; nothing happens when there is none at the index. -/
def withContext (session : Session) (index : Nat)
    (f : Registry → Context → Context × Answer) : Session × Answer × List LogRecord :=
  match session.workspace? index with
  | none => (session, .nothing, [])
  | some entry =>
    let (context, answer) := f (session.registry entry.registry) entry.context
    (session.setWorkspace index (some { entry with context }), answer, [])

/-- Binds a value; a failure leaves the context as it was. -/
def bindValue (name : Bytes) (value : Json) (kind : Bytes) (registry : Registry)
    (context : Context) : Context × Answer :=
  match context.bind registry name value kind with
  | .ok next => (next, .nothing)
  | .error failure => (context, .failed failure)

/-- Renders a template by name and answers what was written. -/
def renderNamed (name : Bytes) (registry : Registry) (context : Context) : Context × Answer :=
  let outcome := registry.render name context
  let stop := match outcome.result with
    | .ok _ => none
    | .error stop => some stop
  (outcome.context, .rendered outcome.written stop outcome.context.arena.depth)

/-- Renders a template by name into a text, of which a failure leaves nothing. -/
def renderNamedText (name : Bytes) (registry : Registry) (context : Context) :
    Context × Answer :=
  let outcome := registry.render name context
  match outcome.result with
  | .ok _ => (outcome.context, .text outcome.written)
  | .error (.failed failure) => (outcome.context, .failed failure)
  | .error .exhausted => (outcome.context, .nothing)

/-- Takes a context from the pool, or makes one on the first registry. -/
def takeFromPool (session : Session) : Session × Answer × List LogRecord :=
  let (entry, pool) := match session.pool with
    | [] => (Workspace.fresh (.made 0), [])
    | entry :: pool => (entry, pool)
  ({ session with workspaces := session.workspaces ++ [some entry], pool },
    .acquired session.workspaces.length entry.context.arena.depth pool.length, [])

/-- Resets a context, gives it back to the pool and gives up its index. -/
def giveToPool (session : Session) (index : Nat) : Session × Answer × List LogRecord :=
  match session.workspace? index with
  | none => (session, .nothing, [])
  | some entry =>
    let pool := { entry with context := entry.context.reset } :: session.pool
    ({ session.setWorkspace index none with pool }, .released pool.length, [])

/-- Parses a template and registers it; a text that is refused changes nothing. -/
def addTemplate (session : Session) (registry : RegistryName) (name text : Bytes)
    (keepFormatting : Bool) : Session × Answer × List LogRecord :=
  match Tree.parse keepFormatting text with
  | .error error => (session, .refused error, [])
  | .ok tree =>
    let (next, answer, notes) := session.change registry (.templateAdded tree.nodes.length)
      fun registry => registry.addTemplate name tree
    (next, answer, tree.parseNote text :: notes)

/-- Carries out a command: the state after it, its answer, and what it wrote to the log. -/
def run (session : Session) : Command → Session × Answer × List LogRecord
  | .makeRegistry =>
    ({ session with registries := session.registries ++ [Registry.standard] },
      .registryMade session.registries.length, [])
  | .makeContext registry =>
    ({ session with workspaces := session.workspaces ++ [some (Workspace.fresh registry)] },
      .contextMade session.workspaces.length, [])
  | .addTemplate registry name text keepFormatting =>
    session.addTemplate registry name text keepFormatting
  | .addModifier registry name second modifier =>
    session.change registry .nothing fun registry => registry.addModifier name second modifier
  | .addHelper registry name helper =>
    session.change registry .nothing fun registry => registry.addHelper name helper
  | .addInspector registry name inspector =>
    session.change registry .nothing fun registry => registry.addInspector name inspector
  | .known registry name =>
    let registry := session.registry registry
    (session, .knownAs (registry.templates.contains name) (registry.modifiers.contains name)
      (registry.helpers.contains name) (registry.inspectors.contains name), [])
  | .set context name value kind => session.withContext context (bindValue name value kind)
  | .read _ => (session, .nothing, [])
  | .reset context => session.withContext context fun _ context =>
      (context.reset, .depth context.reset.arena.depth)
  | .render context name => session.withContext context (renderNamed name)
  | .renderText context name => session.withContext context (renderNamedText name)
  | .acquire => session.takeFromPool
  | .release context => session.giveToPool context
  | .enterLoop context => session.withContext context fun _ context =>
      let arena := context.arena.acquire
      ({ context with arena }, .depth arena.depth)
  | .leaveLoop context => session.withContext context fun _ context =>
      let arena := context.arena.release
      ({ context with arena }, .depth arena.depth)
  | .log level text => (session, .nothing, [{ level, text := text.untilNul }])

end Session

end Stencil
