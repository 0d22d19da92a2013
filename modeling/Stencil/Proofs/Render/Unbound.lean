import Stencil.Json.Strict
import Stencil.Proofs.Render.Literal
import Stencil.Proofs.Render.Simulation

/-!
# Unbound variables

A variable that is not bound behaves as one that is bound to null, with one exception: a context
statement that names an inspector converts the null that a variable holds, and leaves the null that
stands for an absent value as it is. `Context.render_unbound_eq_null` compares the two runs, and
`Tree.render_unbound_ne_null` is a template that tells them apart.
-/

set_option autoImplicit false

namespace Stencil

namespace Variable

/-- A variable that holds null, bound through the general inspector. -/
def null [JsonLibrary] : Variable := { value := .null, inspector := Inspector.json }

/-- What a name is bound to in two runs: the same, or, for the name given, nothing in one and null
in the other. -/
def NullAt [JsonLibrary] (absent : Bytes) (name : Bytes) (left right : Option Variable) : Prop :=
  left = right ∨ name = absent ∧ left = none ∧ right = some null

/-- What a path finds in two runs: the same, or nothing in one and at most null in the other. The
latter finds null only when the path is the name alone. -/
theorem lookUp_of_nullAt [JsonLibrary] {absent : Bytes} {left right : Table Variable}
    (hrelated : Related (NullAt absent) left right) (path : Bytes) :
    lookUp left path = lookUp right path ∨
      lookUp left path = (none, none) ∧
        (lookUp right path = (some null, none) ∨
          lookUp right path = (some null, some .null) ∧ path = absent ∧
            left.find? absent = none) := by
  obtain hsame | ⟨hname, hleft, hright⟩ := hrelated (rootName path)
  · exact .inl (lookUp_congr hsame)
  · refine .inr ⟨lookUp_of_unbound hleft, ?_⟩
    obtain ⟨hpath, hfinds⟩ | ⟨-, segment, segments, hfinds⟩ := lookUp_cases path
    · exact .inr ⟨hfinds hright, hpath.symm.trans hname, hname ▸ hleft⟩
    · exact .inl (hfinds hright)

end Variable

/-! ## The same answers -/

section Answers

variable [JsonLibrary] {absent : Bytes} {left right : Context}

/-- An operand stands for the same whether the name is bound to null or not. -/
theorem Context.resolve_of_nullAt
    (hrelated : Variable.Related (Variable.NullAt absent) left.bindings right.bindings)
    (operand : Operand) : left.resolve operand = right.resolve operand := by
  rw [resolve, resolve, find?, find?]
  obtain hsame | ⟨hleft, hright | ⟨hright, -⟩⟩ :=
    Variable.lookUp_of_nullAt hrelated operand.text
  · rw [hsame]
  · rw [hleft, hright]
  · rw [hleft, hright]
    rfl

/-- An unbound variable is compared as null is. -/
theorem Comparison.holdsAgainst_of_nullAt
    (hrelated : Variable.Related (Variable.NullAt absent) left.bindings right.bindings)
    (path : Bytes) (op : Operator) (text : Bytes) :
    holdsAgainst left path op text = holdsAgainst right path op text := by
  rw [holdsAgainst, holdsAgainst]
  obtain hsame | ⟨hleft, hright | ⟨hright, -⟩⟩ := Variable.lookUp_of_nullAt hrelated path
  · rw [hsame]
  · rw [hleft, hright]
  · rw [hleft, hright]
    rfl

/-- A comparison comes to the same whether the name is bound to null or not. -/
theorem Comparison.evaluate_of_nullAt
    (hrelated : Variable.Related (Variable.NullAt absent) left.bindings right.bindings)
    (comparison : Comparison) : comparison.evaluate left = comparison.evaluate right :=
  evaluate_congr (Context.resolve_of_nullAt hrelated _) (Context.resolve_of_nullAt hrelated _)
    fun _ op text => holdsAgainst_of_nullAt hrelated _ op text

/-- A counter that is not bound begins at zero, as one that holds null does. -/
theorem Counter.evaluate_of_nullAt
    (hrelated : Variable.Related (Variable.NullAt absent) left.bindings right.bindings)
    (statement : Counter) : statement.evaluate left = statement.evaluate right := by
  have hcurrent : current left statement.name = current right statement.name := by
    rw [current, current, Context.find?, Context.find?]
    obtain hsame | ⟨hleft, hright | ⟨hright, -⟩⟩ :=
      Variable.lookUp_of_nullAt hrelated statement.name
    · rw [hsame]
    · rw [hleft, hright]
    · rw [hleft, hright]
  rw [evaluate, evaluate, hcurrent]

/-- A loop visits nothing of an unbound variable, and nothing of null. -/
theorem RangeHead.visited_of_nullAt
    (hrelated : Variable.Related (Variable.NullAt absent) left.bindings right.bindings)
    (head : RangeHead) :
    head.visited left.bindings = head.visited right.bindings ∧
    ∀ {elements : List (Json × Json)} {first second : Variable},
      head.visited left.bindings = .ok elements →
      left.root? head.source = some first → right.root? head.source = some second →
      head.BindsRelated (Variable.NullAt absent) first.inspector second.inspector elements := by
  obtain hsame | ⟨hleft, hright⟩ := Variable.lookUp_of_nullAt hrelated head.source
  · exact visited_of_lookUp_eq (fun _ _ => .inl rfl) hsame
  · rw [visited, visited]
    refine ⟨?_, fun hvisited hfirst hsecond => ?_⟩
    · obtain hright | ⟨hright, -⟩ := hright
      · rw [hleft, hright]
      · rw [hleft, hright]
        rfl
    · rw [Context.root?, hleft] at hfirst
      cases hfirst

/-- A context statement that binds from a path. -/
theorem Binding.evaluate_of_nullAt {registry : Registry}
    (hgeneral : Inspector.general registry.inspectors = Inspector.json) {statement : Binding}
    (hkeeps : statement.source.isStatic = false → statement.source.text = absent →
      left.bindings.find? absent = none → statement.kind.isEmpty = false →
      ∀ inspector, registry.inspectors.find? statement.kind = some inspector →
        inspector.bind .null = .ok .null)
    (hrelated : Variable.Related (Variable.NullAt absent) left.bindings right.bindings) :
    statement.evaluate registry left = statement.evaluate registry right := by
  obtain ⟨target, source, kind⟩ := statement
  simp only at hkeeps
  rw [evaluate, evaluate]
  cases hstatic : source.isStatic with
  | true => rfl
  | false =>
    simp only [Bool.false_eq_true, if_false]
    obtain hsame | ⟨hleft, hright⟩ := Variable.lookUp_of_nullAt hrelated source.text
    · rw [hsame]
    · cases hkind : kind.isEmpty with
      | true =>
        obtain hright | ⟨hright, -⟩ := hright
        · rw [hleft, hright]
          simp [hgeneral, Variable.null]
        · rw [hleft, hright]
          simp [hgeneral, Variable.null]
          rfl
      | false =>
        cases hfind : registry.inspectors.find? kind with
        | none =>
          obtain hright | ⟨hright, -⟩ := hright
          · rw [hleft, hright]
            rfl
          · rw [hleft, hright]
            rfl
        | some inspector =>
          obtain hright | ⟨hright, hpath, hunbound⟩ := hright
          · rw [hleft, hright]
            rfl
          · have hnull := hkeeps hstatic hpath hunbound hkind inspector hfind
            rw [hleft, hright]
            simp only [Bool.false_eq_true, if_false, hnull]
            rfl

end Answers

/-! ## The two runs -/

/-- Whether a site, where it may take a name that is not bound for its source and names an
inspector, names one that takes null for null. Only a context statement does so. -/
def Site.KeepsNull (registry : Registry) (absent : Bytes) : Site → Context → Prop
  | .node (.bind statement), context =>
    statement.source.isStatic = false → statement.source.text = absent →
      context.bindings.find? absent = none → statement.kind.isEmpty = false →
      ∀ inspector, registry.inspectors.find? statement.kind = some inspector →
        inspector.bind .null = .ok .null
  | _, _ => True

/-- A run with the name bound to null and one without simulate each other where null is kept. -/
theorem Simulation.of_nullAt [JsonLibrary] {registry : Registry} (iterations : Nat)
    (hgeneral : Inspector.general registry.inspectors = Inspector.json) (absent : Bytes) :
    Simulation registry iterations (Variable.NullAt absent)
      fun site left _ => site.KeepsNull registry absent left where
  same _ _ := .inl rfl
  print _ hrelated operand _ := Context.resolve_of_nullAt hrelated operand
  bind hkeeps hrelated :=
    .of_eq (fun _ => .inl rfl) (Binding.evaluate_of_nullAt hgeneral hkeeps hrelated)
  counter _ hrelated := Counter.evaluate_of_nullAt hrelated _
  cond _ hrelated :=
    Condition.evaluate_congr (fun _ => Comparison.evaluate_of_nullAt hrelated _)
      fun _ operand _ => Context.resolve_of_nullAt hrelated operand
  switch _ hrelated := Node.chosen?_congr fun test _ => Comparison.evaluate_of_nullAt hrelated test
  range _ hrelated := RangeHead.visited_of_nullAt hrelated _
  init _ hrelated := Context.resolve_of_nullAt hrelated _
  limit _ hrelated := Context.resolve_of_nullAt hrelated _
  next := by
    intro head slot children more counter before before' left right _ _ _ hrelated hbound
    rw [Context.find?, Context.find?]
    obtain hsame | ⟨hleft, hright | ⟨-, hname, hunbound⟩⟩ :=
      Variable.lookUp_of_nullAt hrelated head.counter
    · rw [hsame]
    · rw [hleft, hright]
    · rw [hname, Table.contains, hunbound] at hbound
      cases hbound

/-- An unbound variable behaves as null. Where modifiers do not tell the two apart and the general
inspector is registered as such, rendering nodes in a context in which a name is not bound writes
the same and ends with the same flow or failure as rendering them in the context in which it is
bound to null, if every context statement that converts the absent value keeps null. -/
theorem Context.render_unbound_eq_null [JsonLibrary] {registry : Registry} {context : Context}
    {name : Bytes} {nodes : List Node} (iterations : Nat)
    (hgeneral : Inspector.general registry.inspectors = Inspector.json)
    (hrespects : registry.Respects (Variable.NullAt name)) (hbounds : context.arena.InBounds)
    (hunbound : context.bindings.find? name = none)
    (hkeeps : ∀ site after, Site.Reaches registry iterations (.all nodes) context site after →
      site.KeepsNull registry name after) :
    let unbound := Node.renderAll registry iterations nodes context
    let null := Node.renderAll registry iterations nodes (context.assign name .null Inspector.json)
    unbound.written = null.written ∧ unbound.result = null.result := by
  have hrelated : Variable.Related (Variable.NullAt name) context.bindings
      (context.assign name .null Inspector.json).bindings := by
    intro other
    by_cases hother : other = name
    · subst hother
      exact .inr ⟨rfl, hunbound, Table.find?_insert_self ..⟩
    · exact .inl (Table.find?_insert_of_ne _ _ hother).symm
  have hmatches : Site.Matches (Variable.NullAt name) (.all nodes) context (.all nodes)
      (context.assign name .null Inspector.json) := .all ⟨hbounds, hbounds, rfl⟩
  have htwin := (Simulation.of_nullAt iterations hgeneral name).areTwins hrespects hmatches hrelated
    fun site after _ htogether => hkeeps site after htogether.reaches
  exact ⟨htwin.written, htwin.result⟩

/-- A context statement that names an inspector which keeps null, and a print statement. -/
def Tree.keeping : Tree :=
  ⟨[.bind
      { target := ascii "y", source := Operand.parse (ascii "x"), kind := ascii "sequence" },
    .print
      { value := Operand.parse (ascii "y"),
        modifiers := [{ name := ascii "default", args := [Operand.parse (ascii "true")] }] }]⟩

/-- No statement of the tree converts the absent value. -/
theorem Site.keepsNull_keeping [JsonLibrary] {context after : Context} {iterations : Nat}
    {site : Site}
    (h : Reaches Registry.standard iterations (.all Tree.keeping.nodes) context site after) :
    site.KeepsNull Registry.standard (ascii "x") after := by
  obtain ⟨rfl, -⟩ | hbind | ⟨-, hrest⟩ := h.of_cons
  · trivial
  · cases hbind with
    | here =>
      intro _ _ _ _ inspector hfind
      cases hfind
      rfl
    | step hcalls _ => cases hcalls
  · obtain ⟨rfl, -⟩ | hprint | ⟨-, hnil⟩ := hrest.of_cons
    · trivial
    · cases hprint with
      | here => trivial
      | step hcalls _ => cases hcalls
    · rw [hnil.of_nil.1]
      trivial

open scoped JsonLibrary.Strict

/-- Both runs of the tree write the default. -/
theorem Context.render_keeping :
    let unbound := Node.renderAll Registry.standard 2 Tree.keeping.nodes {}
    let null := Node.renderAll Registry.standard 2 Tree.keeping.nodes
      (({} : Context).assign (ascii "x") .null Inspector.json)
    (Inspector.general Registry.standard.inspectors = Inspector.json ∧
      Registry.standard.Respects (Variable.NullAt (ascii "x")) ∧
      ({} : Context).arena.InBounds ∧ ({} : Context).bindings.find? (ascii "x") = none ∧
      ∀ site after, Site.Reaches Registry.standard 2 (.all Tree.keeping.nodes) {} site after →
        site.KeepsNull Registry.standard (ascii "x") after) ∧
    unbound.written = ascii "true" ∧ unbound.written = null.written ∧
      unbound.result = null.result := by
  have hkeeps : ∀ site after,
      Site.Reaches Registry.standard 2 (.all Tree.keeping.nodes) {} site after →
        site.KeepsNull Registry.standard (ascii "x") after :=
    fun _ _ => Site.keepsNull_keeping
  exact ⟨⟨rfl, Registry.respects_standard _, LoopArena.inBounds_empty, rfl, hkeeps⟩, rfl,
    render_unbound_eq_null 2 rfl (Registry.respects_standard _) LoopArena.inBounds_empty rfl hkeeps⟩

/-! ## Where the two runs part -/

/-- A context in which only `x` is bound, and to null. -/
def Context.nullAtX [JsonLibrary] : Context :=
  ({} : Context).assign (ascii "x") .null Inspector.json

/-- A context statement that makes an integer of a variable. -/
def Source.converting : Bytes := markup (ascii " context y = x as int ")

/-- The tree of that template. -/
def Tree.converting : Tree :=
  ⟨[.bind { target := ascii "y", source := Operand.parse (ascii "x"), kind := ascii "int" }]⟩

/-- The template is parsed as that tree. -/
theorem Tree.parse_converting (keepFormatting : Bool) :
    parse keepFormatting Source.converting = .ok converting := by
  have hplain : Source.IsPlain (ascii " context y = x as int ") := .of_notMem (by decide)
  exact parse_of_isSettled (.markup hplain)
    (.markup_node rfl (List.append_nil _).symm hplain rfl rfl (.end_of_template rfl rfl))
    keepFormatting

/-- A registry with a modifier that looks whether `x` is bound. -/
def Registry.looking [JsonLibrary] : Registry :=
  { Registry.standard with
    modifiers := [(ascii "bound", fun scope _ _ =>
      .ok (.bool (scope.bindings.contains (ascii "x")), scope.bindings))] }

/-- A region that asks whether `x` is bound. -/
def Source.asking : Bytes := markup (ascii "= 1|bound ")

/-- A modifier that asks whether the name is bound tells the two apart. -/
theorem Source.renders_asking :
    Renders Registry.looking {} asking (ascii "false") ∧
      Renders Registry.looking Context.nullAtX asking (ascii "true") := by
  have hplain : IsPlain (ascii "= 1|bound ") := .of_notMem (by decide)
  have hparse : Statement.parse (ascii "= 1|bound ").strip =
      .ok (.print { value := Operand.parse (ascii "1")
                    modifiers := [{ name := ascii "bound", args := [] }] }) := rfl
  have hreads : Reads (Reader.start asking) _ :=
    .markup_node rfl (List.append_nil _).symm hplain hparse rfl (.end_of_template rfl rfl)
  constructor
  · exact renders_of_reads (.markup hplain) hreads fun _ => ⟨rfl, rfl⟩
  · exact renders_of_reads (.markup hplain) hreads fun _ => ⟨rfl, rfl⟩

/-- A registry whose general inspector finds something even in null. -/
def Registry.finding [JsonLibrary] : Registry :=
  { Registry.standard with
    inspectors := [(Inspector.json.name,
      { Inspector.json with find? := fun _ _ => some (.bool true) })] }

/-- A variable that takes another one over, and a look into it. -/
def Source.searching : Bytes :=
  markup (ascii " context y = x ") ++ markup (ascii "= y.z|default(false) ")

/-- A general inspector that finds something in null tells the two apart. -/
theorem Source.renders_searching :
    Renders Registry.finding {} searching (ascii "true") ∧
      Renders Registry.finding Context.nullAtX searching (ascii "false") := by
  have hbind : IsPlain (ascii " context y = x ") := .of_notMem (by decide)
  have hprint : IsPlain (ascii "= y.z|default(false) ") := .of_notMem (by decide)
  have hparseBind : Statement.parse (ascii " context y = x ").strip =
      .ok (.bind { target := ascii "y", source := Operand.parse (ascii "x") }) := rfl
  have hparsePrint : Statement.parse (ascii "= y.z|default(false) ").strip =
      .ok (.print
        { value := Operand.parse (ascii "y.z")
          modifiers := [{ name := ascii "default", args := [Operand.parse (ascii "false")] }] }) :=
    rfl
  have hreads : Reads (Reader.start searching) _ :=
    .markup_node rfl rfl hbind hparseBind rfl
      (.markup_node rfl (List.append_nil _).symm hprint hparsePrint rfl (.end_of_template rfl rfl))
  have hsettled : IsSettled searching := .append (.markup hbind) (.markup hprint)
  constructor
  · exact renders_of_reads hsettled hreads fun _ => ⟨rfl, rfl⟩
  · exact renders_of_reads hsettled hreads fun _ => ⟨rfl, rfl⟩

/-- A context statement that converts the absent value tells an unbound variable from null. So do a
modifier that looks at variables, and a general inspector that is not the built-in one. -/
theorem Tree.render_unbound_ne_null :
    (∀ keepFormatting, parse keepFormatting Source.converting = .ok converting) ∧
    (∀ iterations, (Node.renderAll Registry.standard iterations converting.nodes {}).result =
      .ok .done) ∧
    (∀ iterations,
      (Node.renderAll Registry.standard iterations converting.nodes Context.nullAtX).result =
        .error (.failed (.notInteger (ascii "null")))) ∧
    Source.Renders Registry.looking {} Source.asking (ascii "false") ∧
    Source.Renders Registry.looking Context.nullAtX Source.asking (ascii "true") ∧
    Source.Renders Registry.finding {} Source.searching (ascii "true") ∧
    Source.Renders Registry.finding Context.nullAtX Source.searching (ascii "false") :=
  ⟨parse_converting, fun _ => rfl, fun _ => rfl, Source.renders_asking.1, Source.renders_asking.2,
    Source.renders_searching.1, Source.renders_searching.2⟩

end Stencil
