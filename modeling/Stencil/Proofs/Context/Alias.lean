import Stencil.Json.Strict
import Stencil.Proofs.Context.Path

/-!
# Aliases

A context statement without a kind gives a second name to what a path finds. The new variable has
the inspector of the one that the path begins with, and the value is bound through it a second time.
That does no harm, except that a string is read as a document again, and that the inspector of a
shape does not look into a part of another shape (`Binding.render_alias`); the ways in which an
alias differs from what it stands for are in `Binding.render_alias_ne`.
-/

set_option autoImplicit false

namespace Stencil

namespace Inspector

variable [JsonLibrary]

/-! ## Binding what has been bound -/

/-- The built-in inspectors: the general one, those of the shapes, and the converting ones. -/
theorem cases_of_mem_builtins {kind : Bytes} {inspector : Inspector}
    (h : (kind, inspector) ∈ builtins) :
    inspector = json ∨ (∃ shape, inspector = ofShape shape) ∨
      ∃ conversion, inspector = converting conversion := by
  simp only [builtins, List.map_cons, List.map_nil, List.mem_cons, List.not_mem_nil,
    Prod.mk.injEq, or_false] at h
  obtain ⟨-, h⟩ | ⟨-, h⟩ | ⟨-, h⟩ | ⟨-, h⟩ | ⟨-, h⟩ | ⟨-, h⟩ | ⟨-, h⟩ | ⟨-, h⟩ | ⟨-, h⟩ := h
  · exact .inl h
  · exact .inr (.inl ⟨.scalar, h⟩)
  · exact .inr (.inl ⟨.sequence, h⟩)
  · exact .inr (.inl ⟨.mapping, h⟩)
  all_goals exact .inr (.inr ⟨_, h⟩)

namespace Conversion

variable {conversion : Conversion} {given value : Json}

/-- Every conversion but the reading of documents gives a scalar that it leaves alone. -/
theorem apply_of_apply (hconversion : conversion ≠ .document)
    (h : conversion.apply given = .ok value) :
    value.shape = .scalar ∧ conversion.apply value = .ok value := by
  cases conversion with
  | string =>
    cases htext : given.toText with
    | error fault =>
      rw [apply, htext] at h
      cases h
    | ok text =>
      rw [apply, htext] at h
      cases h
      exact ⟨rfl, rfl⟩
  | int =>
    cases hword : given.toWord? with
    | none =>
      simp only [apply, hword] at h
      cases hprint : given.print with
      | error fault | ok form =>
        rw [hprint] at h
        cases h
    | some n =>
      simp only [apply, hword] at h
      cases h
      have hagain : (Json.ofWord n).toWord? = some n := Word.ofInt?_eq_some_iff.mpr rfl
      exact ⟨rfl, by simp only [apply, hagain]⟩
  | float =>
    cases hreal : given.toReal? with
    | none =>
      simp only [apply, hreal] at h
      cases hprint : given.print with
      | error fault | ok form =>
        rw [hprint] at h
        cases h
    | some x =>
      simp only [apply, hreal] at h
      cases h
      exact ⟨rfl, rfl⟩
  | bool =>
    have htruth : ∃ truth, value = .bool truth := by
      simp only [apply] at h
      split at h
      · split at h
        · exact ⟨_, (Except.ok.inj h).symm⟩
        · split at h
          · exact ⟨_, (Except.ok.inj h).symm⟩
          · exact ⟨_, (Except.ok.inj h).symm⟩
      · exact ⟨_, (Except.ok.inj h).symm⟩
    obtain ⟨truth, rfl⟩ := htruth
    cases truth <;> exact ⟨rfl, rfl⟩
  | document => exact absurd rfl hconversion

end Conversion

/-- What is found in a value bound through a built-in inspector is bound to itself, unless it is a
string to be read as a document. -/
theorem bind_of_find? {kind : Bytes} {inspector : Inspector} {given value found : Json}
    {segments : List Bytes} (hbuiltin : (kind, inspector) ∈ builtins)
    (hbound : inspector.bind given = .ok value)
    (hfound : inspector.find? value segments = some found)
    (hdocument : inspector = converting .document → ∀ text, found ≠ .str text) :
    inspector.bind found = .ok found := by
  obtain rfl | ⟨shape, rfl⟩ | ⟨conversion, rfl⟩ := cases_of_mem_builtins hbuiltin
  · rfl
  · cases shape <;> rfl
  · by_cases hconversion : conversion = .document
    · subst hconversion
      have hstring := hdocument rfl
      show Conversion.apply .document found = .ok found
      cases found with
      | str text => exact absurd rfl (hstring text)
      | _ => rfl
    · -- The value is a scalar, in which only the empty path finds anything.
      obtain ⟨hscalar, hagain⟩ := Conversion.apply_of_apply hconversion hbound
      have hinside : value.find? segments = some found :=
        (find?_json value segments).symm.trans hfound
      cases segments with
      | nil =>
        obtain rfl : value = found := by simpa [Json.find?_nil] using hinside
        exact hagain
      | cons segment rest =>
        rw [Json.find?_of_scalar hscalar] at hinside
        cases hinside

/-- Without segments a built-in inspector finds the value itself. -/
theorem find?_nil_of_mem_builtins {kind : Bytes} {inspector : Inspector}
    (hbuiltin : (kind, inspector) ∈ builtins) (value : Json) :
    inspector.find? value [] = some value := by
  obtain rfl | ⟨shape, rfl⟩ | ⟨conversion, rfl⟩ := cases_of_mem_builtins hbuiltin
  · exact (find?_json value []).trans (Json.find?_nil value)
  · cases shape <;> cases value <;> rfl
  · exact (find?_json value []).trans (Json.find?_nil value)

end Inspector

/-! ## The statement -/

variable {registry : Registry} {context : Context} {target path kind : Bytes} {root : Variable}
  {given value : Json}

/-- A path finds a value by looking into the variable of its first name. -/
theorem Context.exists_segments (hroot : context.root? path = some root)
    (hfound : context.find? path = some value)
    (hempty : root.inspector.find? root.value [] = some root.value) :
    ∃ name segments, path.splitOn Byte.dot = name :: segments ∧
      context.bindings.find? name = some root ∧
      root.inspector.find? root.value segments = some value ∧
      (segments ≠ [] → Byte.dot ∈ path) := by
  rw [Context.root?, Variable.lookUp] at hroot
  rw [Context.find?, Variable.lookUp] at hfound
  cases hsplit : path.splitOn Byte.dot with
  | nil => exact absurd hsplit (List.splitOn_ne_nil _ _)
  | cons name segments =>
    simp only [hsplit] at hroot hfound
    cases hname : context.bindings.find? name with
    | none => simp [hname] at hroot
    | some found =>
      simp only [hname] at hroot hfound
      have hdot : segments ≠ [] → Byte.dot ∈ path := by
        refine fun hsegments => Decidable.byContradiction fun hnone => ?_
        rw [List.splitOn_eq_singleton hnone] at hsplit
        exact hsegments (List.cons.inj hsplit).2.symm
      cases segments with
      | nil =>
        obtain rfl : found = root := by simpa using hroot
        obtain rfl : found.value = value := by simpa using hfound
        exact ⟨name, [], rfl, hname, hempty, hdot⟩
      | cons segment rest =>
        obtain rfl : found = root := by simpa using hroot
        exact ⟨name, segment :: rest, rfl, hname, by simpa using hfound, hdot⟩

/-- A context statement without a kind binds what its path finds through the inspector of the
variable that the path begins with. -/
theorem Binding.render_of_find? [JsonLibrary] (registry : Registry)
    (hroot : context.root? path = some root) (hfound : context.find? path = some value) :
    render registry { target, source := { text := path } } context =
      match root.inspector.bind value with
      | .ok bound => ⟨[], context.assign target bound root.inspector, .ok .done⟩
      | .error failure => ⟨[], context, .error (.failed failure)⟩ := by
  have hlook : Variable.lookUp context.bindings path = (some root, some value) :=
    Prod.ext hroot hfound
  have hevaluate : evaluate registry context { target, source := { text := path } } =
      (root.inspector.bind value).map fun value => { value, inspector := root.inspector } := by
    rw [evaluate]
    simp only [hlook]
    cases hbind : root.inspector.bind value <;>
      simp [hbind, bind, Except.bind, pure, Except.pure, Except.map]
  rw [render, RenderM.context_bind, hevaluate]
  cases root.inspector.bind value <;> rfl

/-- A built-in inspector goes on from what it has found, unless it is that of a shape which that
does not have. -/
theorem Inspector.find?_append_of_mem_builtins [JsonLibrary] {inspector : Inspector} {found : Json}
    {segments : List Bytes} (hbuiltin : (kind, inspector) ∈ builtins)
    (hfound : inspector.find? value segments = some found)
    (hspans : segments ≠ [] → ∀ shape, inspector = ofShape shape → shape.Spans found)
    (next : Bytes) (more : List Bytes) :
    inspector.find? value (segments ++ next :: more) = inspector.find? found (next :: more) := by
  cases segments with
  | nil =>
    obtain rfl : value = found := by
      simpa [find?_nil_of_mem_builtins hbuiltin] using hfound
    rfl
  | cons segment rest =>
    have hgeneral : json.find? value (segment :: rest) = some found →
        json.find? value (segment :: rest ++ next :: more) = json.find? found (next :: more) := by
      intro hfound
      rw [find?_json] at hfound
      rw [find?_json, find?_json, Json.find?_append, hfound, Option.bind_some]
    obtain rfl | ⟨shape, rfl⟩ | ⟨conversion, rfl⟩ := cases_of_mem_builtins hbuiltin
    · exact hgeneral hfound
    · exact find?_append hfound (hspans (List.cons_ne_nil _ _) shape rfl) more
    · exact hgeneral hfound

/-- The parts of a variable that has been bound through a built-in inspector. -/
theorem Variable.of_bound [JsonLibrary]
    (h : Variable.bound Inspector.builtins given kind = .ok root) :
    ∃ name, (name, root.inspector) ∈ Inspector.builtins ∧
      root.inspector.bind given = .ok root.value := by
  rw [Variable.bound] at h
  cases hkind : Inspector.ofKind? Inspector.builtins kind with
  | none =>
    rw [hkind] at h
    cases h
  | some inspector =>
    simp only [hkind] at h
    cases hbind : inspector.bind given with
    | error failure =>
      rw [hbind] at h
      cases h
    | ok value =>
      rw [hbind] at h
      cases h
      exact ⟨_, Table.mem_of_find? hkind, hbind⟩

/-- A context statement writes nothing and changes no other variable, whether it fails or not. -/
theorem Binding.frame_render [JsonLibrary] (registry : Registry) (statement : Binding)
    (context : Context) :
    let rendered := statement.render registry context
    rendered.written = [] ∧ rendered.context.arena = context.arena ∧
      ∀ name, name ≠ statement.target →
        rendered.context.bindings.find? name = context.bindings.find? name := by
  intro rendered
  have hrendered : rendered =
      (RenderM.ofExcept (statement.evaluate registry context) >>= fun found => do
        RenderM.assign statement.target found.value found.inspector
        return .done) context := rfl
  rw [hrendered]
  cases statement.evaluate registry context with
  | error failure => exact ⟨rfl, rfl, fun _ _ => rfl⟩
  | ok found => exact ⟨rfl, rfl, fun _ hother => Table.find?_insert_of_ne _ _ hother⟩

/-- A variable that holds a found value goes on from it as the variable did in which it was found,
unless its inspector is that of a shape which the value does not have. -/
theorem Context.find?_append_assign [JsonLibrary] (htarget : Byte.dot ∉ target)
    (hroot : context.root? path = some root) (hfound : context.find? path = some value)
    {builtin : Bytes} (hbuiltin : (builtin, root.inspector) ∈ Inspector.builtins)
    (hspans : Byte.dot ∈ path → ∀ shape, root.inspector = .ofShape shape → shape.Spans value)
    (rest : Bytes) :
    (context.assign target value root.inspector).find? (target ++ Byte.dot :: rest) =
      context.find? (path ++ Byte.dot :: rest) := by
  have hempty := Inspector.find?_nil_of_mem_builtins hbuiltin root.value
  obtain ⟨name, segments, hsplit, hname, hinside, hdot⟩ :=
    Context.exists_segments hroot hfound hempty
  obtain ⟨next, more, hrest⟩ : ∃ next more, rest.splitOn Byte.dot = next :: more :=
    List.exists_cons_of_ne_nil (List.splitOn_ne_nil _ _)
  have hnew : (context.assign target value root.inspector).bindings.find? target =
      some { value, inspector := root.inspector } := Table.find?_insert_self _ _ _
  rw [Context.find?, Context.find?, Variable.lookUp_append (List.splitOn_eq_singleton htarget),
    Variable.lookUp_append hsplit, hnew, hname, hrest]
  exact (Inspector.find?_append_of_mem_builtins hbuiltin hinside
    (fun hsegments => hspans (hdot hsegments)) next more).symm

/-- An alias keeps the value. A path that finds a value in a variable which was bound through a
built-in inspector may be given a name of its own: the statement writes nothing and leaves every
other variable alone. Unless the value is a string and the variable was bound as a document, the
statement succeeds; afterwards the name finds the value, and followed by any path it finds what the
first path followed by it found, unless the first path leads into the variable, the variable was
bound through the inspector of a shape, and the value is a nonempty container of the other shape. A
string in a document is bound as the document that it holds. -/
theorem Binding.render_alias [JsonLibrary] (registry : Registry) (htarget : Byte.dot ∉ target)
    (hroot : context.root? path = some root) (hfound : context.find? path = some value)
    (hbound : Variable.bound Inspector.builtins given kind = .ok root) :
    let rendered := render registry { target, source := { text := path } } context
    rendered.written = [] ∧ rendered.context.arena = context.arena ∧
      (∀ name, name ≠ target →
        rendered.context.bindings.find? name = context.bindings.find? name) ∧
      ((root.inspector = .converting .document → ∀ text, value ≠ .str text) →
        rendered.result = .ok .done ∧ rendered.context.find? target = some value ∧
        ((Byte.dot ∈ path → ∀ shape, root.inspector = .ofShape shape → shape.Spans value) →
          ∀ rest, rendered.context.find? (target ++ Byte.dot :: rest) =
            context.find? (path ++ Byte.dot :: rest))) ∧
      ∀ text parsed, root.inspector = .converting .document → value = .str text →
        JsonLibrary.parse text = .ok parsed →
          rendered.result = .ok .done ∧ rendered.context.find? target = some parsed := by
  obtain ⟨builtin, hbuiltin, hgiven⟩ := Variable.of_bound hbound
  have hempty := Inspector.find?_nil_of_mem_builtins hbuiltin root.value
  obtain ⟨name, segments, -, -, hinside, -⟩ := Context.exists_segments hroot hfound hempty
  intro rendered
  have hassigned : ∀ bound, root.inspector.bind value = .ok bound →
      rendered = ⟨[], context.assign target bound root.inspector, .ok .done⟩ :=
    fun bound hbind => (Binding.render_of_find? registry hroot hfound).trans (by rw [hbind])
  have htargeted : ∀ bound, (context.assign target bound root.inspector).find? target =
      some bound := by
    intro bound
    rw [Context.find?_of_notMem _ htarget]
    exact congrArg (Option.map Variable.value) (Table.find?_insert_self _ _ _)
  obtain ⟨hwritten, harena, hothers⟩ := Binding.frame_render registry
    { target, source := { text := path } } context
  refine ⟨hwritten, harena, hothers, ?_, ?_⟩
  · intro hdocument
    rw [hassigned value (Inspector.bind_of_find? hbuiltin hgiven hinside hdocument)]
    exact ⟨rfl, htargeted value, Context.find?_append_assign htarget hroot hfound hbuiltin⟩
  · rintro text parsed hdocument rfl hparse
    have hbind : root.inspector.bind (.str text) = .ok parsed := by
      rw [hdocument]
      show Inspector.Conversion.document.apply (.str text) = _
      simp only [Inspector.Conversion.apply, hparse]
    rw [hassigned parsed hbind]
    exact ⟨rfl, htargeted parsed⟩

/-- The statement that gives what a path finds the name `y`. -/
def Binding.aliasY (path : String) : Binding :=
  { target := ascii "y", source := { text := ascii path } }

/-- A context in which only `x` is bound. -/
def Context.ofX (found : Variable) : Context := { bindings := [(ascii "x", found)] }

/-- A document: an object with a list of one object. -/
def Variable.documented [JsonLibrary] : Variable where
  value := .obj [(ascii "a", .arr [.obj [(ascii "b", .str (ascii "5"))]])]
  inspector := .converting .document

open scoped JsonLibrary.Strict

/-- An object in a document gets a name. It is no string, and the string in it is found under the
name too. -/
theorem Binding.render_documented :
    let rendered := (aliasY "x.a.0").render Registry.standard (.ofX .documented)
    Variable.bound Inspector.builtins (.str (ascii "\x7b\"a\":[\x7b\"b\":\"5\"\x7d]\x7d"))
        (ascii "jsonstr") = .ok .documented ∧
      (Context.ofX .documented).find? (ascii "x.a.0") =
        some (.obj [(ascii "b", .str (ascii "5"))]) ∧
      rendered.result = .ok .done ∧
      rendered.context.find? (ascii "y") = some (.obj [(ascii "b", .str (ascii "5"))]) ∧
      rendered.context.find? (ascii "y.b") = some (.str (ascii "5")) := by
  intro rendered
  have hroot : (Context.ofX .documented).root? (ascii "x.a.0") = some .documented := rfl
  have hfound : (Context.ofX .documented).find? (ascii "x.a.0") =
      some (.obj [(ascii "b", .str (ascii "5"))]) := by with_unfolding_all rfl
  have hbound : Variable.bound Inspector.builtins
      (.str (ascii "\x7b\"a\":[\x7b\"b\":\"5\"\x7d]\x7d")) (ascii "jsonstr") = .ok .documented := by
    cbv
  have hshapeless : ∀ shape, Variable.documented.inspector ≠ Inspector.ofShape shape := by
    intro shape hshape
    have hname := congrArg Inspector.name hshape
    cases shape <;> exact absurd hname (by decide)
  have htarget : Byte.dot ∉ ascii "y" := by decide
  obtain ⟨-, -, -, hkept, -⟩ := render_alias Registry.standard htarget hroot hfound hbound
  obtain ⟨hresult, hvalue, hinside⟩ := hkept fun _ text htext => by cases htext
  have hrest := hinside (fun _ shape hshape => absurd hshape (hshapeless shape)) (ascii "b")
  have hstring : (Context.ofX .documented).find? (ascii "x.a.0.b") = some (.str (ascii "5")) := by
    with_unfolding_all rfl
  exact ⟨hbound, hfound, hresult, hvalue, hrest.trans hstring⟩

/-! ## Where an alias differs -/

/-- A list with a string, bound as a document. -/
def Variable.listed [JsonLibrary] (text : String) : Variable where
  value := .arr [.str (ascii text)]
  inspector := .converting .document

/-- An object with a list, bound through the inspector of objects. -/
def Variable.holding [JsonLibrary] : Variable where
  value := .obj [(ascii "a", .arr [.bool true])]
  inspector := .mapping

/-- The null of an unbound variable under a kind. -/
def Variable.unconverted [JsonLibrary] : Variable where
  value := .null
  inspector := .converting .int

/-- A string in a document is bound as the document that it holds. -/
theorem Binding.render_alias_of_string [JsonLibrary] (text : String) :
    ((Context.ofX (.listed text)).find? (ascii "x.0") = some (.str (ascii text))) ∧
      (aliasY "x.0").render {} (.ofX (.listed text)) =
        match Inspector.Conversion.document.apply (.str (ascii text)) with
        | .ok bound => ⟨[], (Context.ofX (.listed text)).assign (ascii "y") bound
            (.converting .document), .ok .done⟩
        | .error failure => ⟨[], .ofX (.listed text), .error (.failed failure)⟩ := by
  have hroot : (Context.ofX (.listed text)).root? (ascii "x.0") = some (.listed text) := rfl
  have hfound : (Context.ofX (.listed text)).find? (ascii "x.0") = some (.str (ascii text)) := by
    show (Variable.listed text).value.find? [ascii "0"] = _
    have hitem : Json.item? [.str (ascii text)] (ascii "0") = some (.str (ascii text)) := rfl
    rw [Variable.listed, Json.find?, hitem]
    exact Json.find?_nil _
  exact ⟨hfound, render_of_find? {} hroot hfound⟩

/-- An alias differs from what it stands for when that is a string in a document, or a container of
the other shape in a list or an object that was bound through the inspector of its shape. And the
null that a context statement binds to a name under a kind, when its source is unbound, has never
been converted: giving it another name is refused. -/
theorem Binding.render_alias_ne :
    (Variable.bound Inspector.builtins (.str (ascii "[\"5\"]")) (ascii "jsonstr") =
        .ok (.listed "5") ∧
      (Context.ofX (.listed "5")).find? (ascii "x.0") = some (.str (ascii "5")) ∧
      ((aliasY "x.0").render {} (.ofX (.listed "5"))).context.find? (ascii "y") = some (.int 5) ∧
    Variable.bound Inspector.builtins (.str (ascii "[\"a\"]")) (ascii "jsonstr") =
        .ok (.listed "a") ∧
      (Context.ofX (.listed "a")).find? (ascii "x.0") = some (.str (ascii "a")) ∧
      ((aliasY "x.0").render {} (.ofX (.listed "a"))).result = .error (.failed .notDocument)) ∧
    (Variable.bound Inspector.builtins Json.record (ascii "sequence") =
        .ok { value := .record, inspector := .sequence } ∧
      (Context.atX .record .sequence).find? (ascii "x.0.q") = some (.bool true) ∧
      ((aliasY "x.0").render {} (.atX .record .sequence)).context.find? (ascii "y.q") = none ∧
    Variable.bound Inspector.builtins Variable.holding.value (ascii "mapping") = .ok .holding ∧
      (Context.ofX .holding).find? (ascii "x.a.0") = some (.bool true) ∧
      ((aliasY "x.a").render {} (.ofX .holding)).context.find? (ascii "y.0") = none) ∧
    (render Registry.standard
        { target := ascii "x", source := { text := ascii "u" }, kind := ascii "int" } {}).context =
        .ofX .unconverted ∧
      (Context.ofX .unconverted).find? (ascii "x") = some .null ∧
      ((aliasY "x").render {} (.ofX .unconverted)).result =
        .error (.failed (.notInteger (ascii "null"))) := by
  obtain ⟨hdigit, hread⟩ := render_alias_of_string "5"
  obtain ⟨hletter, hrefused⟩ := render_alias_of_string "a"
  refine ⟨⟨rfl, hdigit, ?_, rfl, hletter, ?_⟩,
    ⟨rfl, by with_unfolding_all rfl, by with_unfolding_all rfl, rfl, by with_unfolding_all rfl,
      by with_unfolding_all rfl⟩, rfl, rfl, rfl⟩
  · rw [hread]
    rfl
  · rw [hrefused]
    rfl

end Stencil
