import Mathlib.Data.List.TakeWhile
import Stencil.Json.Strict
import Stencil.Proofs.Context.Path
import Stencil.Proofs.Render.Literal

/-!
# What is bound can be read

Binding a name and reading a path take one text apart differently: a binding enters the whole name,
and a path looks for the variable named before its first dot. So a bound value is read back under
its name, and its parts under the paths that go on from the name, when the name has no dot; and
nothing else that is read changes (`Context.lookUp_bind`). A name with a dot is entered, and no path
finds it (`Context.find?_bind_dotted`).
-/

set_option autoImplicit false

namespace Stencil

namespace Variable

/-- The name that a path begins with is what stands before its first dot. -/
theorem rootName_eq_takeWhile (path : Bytes) : rootName path = path.takeWhile (· != Byte.dot) := by
  rw [rootName, List.splitOn]
  induction path with
  | nil => rfl
  | cons b rest ih =>
    rw [List.splitOnP_cons_eq_if_modifyHead, List.takeWhile_cons]
    by_cases hdot : b = Byte.dot
    · simp [hdot]
    · cases hsplit : List.splitOnP (· == Byte.dot) rest with
      | nil => exact absurd hsplit (List.splitOnP_ne_nil _ _)
      | cons name segments =>
        rw [hsplit] at ih
        simp [hdot, ← ih]

/-- The name of a path's root ends before the first dot. -/
theorem dot_notMem_rootName (path : Bytes) : Byte.dot ∉ rootName path := by
  intro hmem
  rw [rootName_eq_takeWhile] at hmem
  exact absurd (List.mem_takeWhile_imp hmem) (by simp)

variable {bindings : Table Variable} {name : Bytes}

/-- A name without a dot is a path, to its variable. -/
theorem lookUp_insert_self (bindings : Table Variable) (hname : Byte.dot ∉ name)
    (found : Variable) :
    lookUp (bindings.insert name found) name = (some found, some found.value) := by
  rw [lookUp_of_notMem _ hname, Table.find?_insert_self]
  rfl

/-- A path that goes on from a name without a dot looks into its variable. -/
theorem lookUp_insert_append (bindings : Table Variable) (hname : Byte.dot ∉ name)
    (found : Variable) (path : Bytes) :
    lookUp (bindings.insert name found) (name ++ Byte.dot :: path) =
      (some found, found.inspector.find? found.value (path.splitOn Byte.dot)) := by
  have hsingle : name.splitOn Byte.dot = [name] :=
    List.splitOnP_eq_singleton fun b hb => beq_false_of_ne fun heq => hname (heq ▸ hb)
  rw [lookUp_append hsingle, Table.find?_insert_self]
  rfl

/-- A path that begins with another name is not concerned. -/
theorem lookUp_insert_of_ne (bindings : Table Variable) (found : Variable) {path : Bytes}
    (hroot : rootName path ≠ name) :
    lookUp (bindings.insert name found) path = lookUp bindings path :=
  lookUp_congr (Table.find?_insert_of_ne bindings found hroot)

end Variable

/-- A binding that succeeds enters the variable that the value is bound as. -/
theorem Context.exists_of_bind [JsonLibrary] {context after : Context} {registry : Registry}
    {name kind : Bytes} {value : Json} (h : context.bind registry name value kind = .ok after) :
    ∃ found, Variable.bound registry.inspectors value kind = .ok found ∧
      after = { context with bindings := context.bindings.insert name found } := by
  rw [bind] at h
  cases hbound : Variable.bound registry.inspectors value kind with
  | error failure => simp [hbound, Bind.bind, Except.bind] at h
  | ok found =>
    rw [hbound] at h
    cases h
    exact ⟨found, rfl, rfl⟩

/-- What is read from a context after a value has been bound without a kind. Under a name without a
dot it is the value that the general inspector has made of the given one, and under the paths that
go on from the name it is what that inspector finds inside; the built-in one makes the value itself
of it, and looks into it as far as a path goes. All that is read under another first name is as
before, and that is everything when the bound name has a dot. -/
theorem Context.lookUp_bind [JsonLibrary] {context after : Context} {registry : Registry}
    {name : Bytes} {value : Json} (h : context.bind registry name value [] = .ok after) :
    ∃ found, Variable.bound registry.inspectors value [] = .ok found ∧
      (registry.inspectors.find? Inspector.json.name = some .json →
        found = { value, inspector := .json }) ∧
      (Byte.dot ∉ name →
        after.find? name = some found.value ∧
          ∀ path, after.find? (name ++ Byte.dot :: path) =
            found.inspector.find? found.value (path.splitOn Byte.dot)) ∧
      (∀ path, Variable.rootName path ≠ name →
        Variable.lookUp after.bindings path = Variable.lookUp context.bindings path) ∧
      (Byte.dot ∈ name →
        ∀ path, Variable.lookUp after.bindings path = Variable.lookUp context.bindings path) := by
  obtain ⟨found, hbound, rfl⟩ := exists_of_bind h
  have hapart : ∀ path, Variable.rootName path ≠ name →
      Variable.lookUp (context.bindings.insert name found) path =
        Variable.lookUp context.bindings path :=
    fun path hroot => Variable.lookUp_insert_of_ne context.bindings found hroot
  refine ⟨found, hbound, ?_, ?_, hapart, ?_⟩
  · intro hjson
    have hkind : Inspector.ofKind? registry.inspectors [] = some .json := hjson
    simp only [Variable.bound, hkind] at hbound
    cases hbound
    rfl
  · intro hname
    exact ⟨congrArg Prod.snd (Variable.lookUp_insert_self context.bindings hname found),
      fun path => congrArg Prod.snd
        (Variable.lookUp_insert_append context.bindings hname found path)⟩
  · intro hname path
    exact hapart path fun hroot => Variable.dot_notMem_rootName path (hroot ▸ hname)

open scoped JsonLibrary.Strict

/-- A document bound to a name: it is read whole and in parts, and a variable beside it is read as
before. -/
theorem Context.find?_bind_page :
    let document := Json.obj [(ascii "title", .obj [(ascii "en", .int 2)])]
    let context := ({} : Context).assign (ascii "pages") (.int 7) .json
    ∃ after, context.bind .standard (ascii "page") document [] = .ok after ∧
      after.find? (ascii "page") = some document ∧
      after.find? (ascii "page.title.en") = some (.int 2) ∧
      after.find? (ascii "pages") = some (.int 7) := by
  intro document context
  have hbind : context.bind .standard (ascii "page") document [] =
      .ok (context.assign (ascii "page") document .json) := rfl
  obtain ⟨found, -, hjson, hread, hapart, -⟩ := lookUp_bind hbind
  obtain ⟨hname, hpaths⟩ := hread (by decide)
  obtain rfl := hjson rfl
  refine ⟨_, hbind, hname, ?_, ?_⟩
  · calc Context.find? _ (ascii "page.title.en")
        = Inspector.json.find? document [ascii "title", ascii "en"] := hpaths (ascii "title.en")
      _ = document.find? [ascii "title", ascii "en"] := Inspector.find?_json document _
      _ = some (.int 2) := by simp [document, Json.find?, Table.find?]
  · exact congrArg Prod.snd (hapart (ascii "pages") (by decide))

/-- A name with a dot is entered, and it is not found: a path of that text looks for the variable
named before the dot. -/
theorem Context.find?_bind_dotted :
    ∃ after, ({} : Context).bind .standard (ascii "a.b") (.int 1) [] = .ok after ∧
      after.find? (ascii "a.b") = none :=
  ⟨({} : Context).assign (ascii "a.b") (.int 1) .json, rfl, rfl⟩

end Stencil
