import Stencil.Json.Strict
import Stencil.Proofs.Render.Literal
import Stencil.Proofs.Render.Simulation

/-!
# Shape inspectors and the general one

The inspector of a shape looks into, compares and lists values of its shape as the general inspector
does. A variable keeps its inspector for all that is reached from it, though: a scalar in an array
is compared as a container is, and what the array holds may be taken over by a variable that does
not look into it. `Context.render_shape_eq_json` says that nothing else tells the two inspectors
apart, and `Source.renders_shape_ne_json` is a template for each way to tell them.
-/

set_option autoImplicit false

namespace Stencil

/-! ## The two inspectors on one value -/

namespace Shape

/-- Whether the inspector of a shape finds and lists in a value what the general one does. -/
def Spans (shape : Shape) (value : Json) : Prop :=
  value.shape = shape ∨ value.shape = .scalar ∨ value.isEmpty = true

/-- Whether the inspector of a shape compares a value as the general one does: both take it for a
scalar, or both for a container. -/
def Ranks (shape : Shape) (value : Json) : Prop := value.shape = .scalar ↔ shape = .scalar

end Shape

/-- A path leads nowhere in a value that is empty. -/
theorem Json.find?_of_isEmpty {value : Json} (h : value.isEmpty = true) (segment : Bytes)
    (segments : List Bytes) : value.find? (segment :: segments) = none := by
  cases value with
  | arr items =>
    have hitems : items = [] := List.isEmpty_iff.mp h
    subst hitems
    have hitem : item? [] segment = none := by
      rw [item?]
      split <;> simp
    rw [find?, hitem]
  | obj fields =>
    have hfields : fields = [] := List.isEmpty_iff.mp h
    subst hfields
    rw [find?]
    rfl
  | _ => rw [find?] <;> simp

namespace Inspector

variable [JsonLibrary] {shape : Shape} {value : Json}

/-- No shape inspector finds anything inside an empty value. -/
theorem find?_of_isEmpty (shape : Shape) (h : value.isEmpty = true) (segment : Bytes)
    (segments : List Bytes) : (ofShape shape).find? value (segment :: segments) = none := by
  have hjson := Json.find?_of_isEmpty h segment segments
  cases shape with
  | scalar => rfl
  | sequence => cases value <;> first | exact hjson | rfl
  | mapping => cases value <;> first | exact hjson | rfl

/-- Where a shape spans a value, its inspector looks into it as the general one does. -/
theorem find?_ofShape (h : shape.Spans value) (segment : Bytes) (segments : List Bytes) :
    (ofShape shape).find? value (segment :: segments) =
      json.find? value (segment :: segments) := by
  obtain hshape | hscalar | hempty := h
  · rw [← hshape]
    rfl
  · cases value with
    | arr | obj => cases hscalar
    | _ => cases shape <;> rfl
  · rw [find?_of_isEmpty shape hempty]
    exact (find?_of_isEmpty value.shape hempty segment segments).symm

/-- Where a shape spans a value, its inspector lists it as the general one does. -/
theorem elements_ofShape (h : shape.Spans value) :
    (ofShape shape).elements value = json.elements value := by
  obtain hshape | hscalar | hempty := h
  · rw [← hshape]
    rfl
  · cases value with
    | arr | obj => cases hscalar
    | _ => cases shape <;> rfl
  · cases value with
    | arr items =>
      have hitems : items = [] := List.isEmpty_iff.mp hempty
      subst hitems
      cases shape <;> rfl
    | obj fields =>
      have hfields : fields = [] := List.isEmpty_iff.mp hempty
      subst hfields
      cases shape <;> rfl
    | _ => cases shape <;> rfl

/-- Where a shape ranks a value, its inspector compares it as the general one does. -/
theorem compare_ofShape (h : shape.Ranks value) (op : Operator) (rhs : Bytes) :
    (ofShape shape).compare value op rhs = json.compare value op rhs := by
  cases shape with
  | scalar =>
    have hscalar : value.shape = .scalar := h.mpr rfl
    show _ = (ofShape value.shape).compare value op rhs
    rw [hscalar]
  | sequence | mapping =>
    cases value with
    | arr | obj => rfl
    | _ => cases h.mp rfl

end Inspector

namespace Variable

/-- A variable bound through the inspector of a shape in one run and through the general one in the
other. The inspector of scalars is only ever given scalars. -/
structure Recast [JsonLibrary] (shape : Shape) (first second : Variable) : Prop where
  value_eq : first.value = second.value
  inspector_first : first.inspector = Inspector.ofShape shape
  inspector_second : second.inspector = Inspector.json
  scalar : shape = .scalar → first.value.shape = .scalar

/-- What a name is bound to in two runs: the same, or a variable and the same one recast. -/
def Through [JsonLibrary] (shape : Shape) (_ : Bytes) (left right : Option Variable) : Prop :=
  left = right ∨ ∃ first second, left = some first ∧ right = some second ∧ Recast shape first second

end Variable

/-! ## Uses that may tell the inspectors apart -/

namespace Context

/-- A path begins with a variable in one run, and with another one or none in the other. -/
def Parts (left right : Context) (path : Bytes) (root : Variable) : Prop :=
  left.root? path = some root ∧ right.root? path ≠ some root

/-- Where a path looks into a variable that is not the same in both runs, the inspector of the shape
spans its value. -/
def Looks (shape : Shape) (left right : Context) (path : Bytes) : Prop :=
  ∀ root, left.Parts right path root → Byte.dot ∈ path → shape.Spans root.value

/-- Where a path begins with a variable that is not the same in both runs, the inspector of the
shape ranks the value that it finds. -/
def Compares (shape : Shape) (left right : Context) (path : Bytes) : Prop :=
  ∀ root value, left.Parts right path root → left.find? path = some value → shape.Ranks value

/-- Where a path begins with a variable that is not the same in both runs, the inspector of the
shape spans the value that it finds. -/
def Loops (shape : Shape) (left right : Context) (path : Bytes) : Prop :=
  ∀ root value, left.Parts right path root → left.find? path = some value → shape.Spans value

end Context

/-- An operand looks into related variables only where the shape spans them. -/
def Operand.Suits (shape : Shape) (left right : Context) (operand : Operand) : Prop :=
  operand.isStatic = false → left.Looks shape right operand.text

/-- A comparison looks into and compares related variables only where the shape allows for it. -/
structure Comparison.Suits (shape : Shape) (left right : Context) (comparison : Comparison) :
    Prop where
  left_suits : comparison.left.Suits shape left right
  right_suits : comparison.right.Suits shape left right
  compares : comparison.compares = true →
    left.Compares shape right comparison.variableSide.text

/-- Whether a site, in the contexts that two runs come to it in, uses what is bound through the
inspector of a shape in one and through the general one in the other as both inspectors do. -/
def Site.Suits [JsonLibrary] (shape : Shape) (registry : Registry) (iterations : Nat) :
    Site → Context → Context → Prop
  | .node (.print statement), left, right =>
    ∀ operand ∈ statement.operands, operand.Suits shape left right
  | .node (.bind statement), left, right => statement.source.Suits shape left right
  | .node (.counter statement), left, right => left.Looks shape right statement.name
  | .node (.cond condition _), left, right =>
    (condition.helper.isEmpty = true → condition.comparison.Suits shape left right) ∧
      (condition.helper.isEmpty = false →
        ∀ operand ∈ condition.args, operand.Suits shape left right)
  | .node (.switch subject children), left, right =>
    ∀ comparison ∈ Node.tested subject left children, comparison.Suits shape left right
  | .node (.forRange head _), left, right =>
    left.Looks shape right head.source ∧ left.Loops shape right head.source
  | .node (.forCount head _), left, right => head.init.Suits shape left right
  | .counts head slot children _ _, left, right =>
    let iterate := RenderM.iterate slot (Node.renderAll registry iterations children)
    head.limit.Suits shape left right ∧
      (iterate left).context.Looks shape (iterate right).context head.counter
  | _, _, _ => True

/-! ## The same answers -/

section Answers

variable [JsonLibrary] {shape : Shape} {left right : Context}

/-- What a path finds in two runs: the same, or one value in a variable and the same one recast. -/
theorem Context.lookUp_of_through
    (hrelated : Variable.Related (Variable.Through shape) left.bindings right.bindings)
    {path : Bytes} (hlooks : shape ≠ .scalar → left.Looks shape right path) :
    Variable.lookUp left.bindings path = Variable.lookUp right.bindings path ∨
      ∃ first second found, Variable.Recast shape first second ∧ left.Parts right path first ∧
        Variable.lookUp left.bindings path = (some first, found) ∧
        Variable.lookUp right.bindings path = (some second, found) ∧
        (shape = .scalar → ∀ value, found = some value → value.shape = .scalar) := by
  obtain hsame | ⟨first, second, hleft, hright, hrecast⟩ := hrelated (Variable.rootName path)
  · exact .inl (Variable.lookUp_congr hsame)
  by_cases hsame : first = second
  · subst hsame
    exact .inl (Variable.lookUp_congr (hleft.trans hright.symm))
  have hparts : left.Parts right path first := by
    constructor
    · rw [root?_eq, hleft]
    · rw [root?_eq, hright]
      simpa using Ne.symm hsame
  obtain ⟨-, hfinds⟩ | ⟨hdot, segment, segments, hfinds⟩ := Variable.lookUp_cases path
  · have hfinds' := hfinds hright
    rw [← hrecast.value_eq] at hfinds'
    refine .inr ⟨first, second, some first.value, hrecast, hparts, hfinds hleft, hfinds', ?_⟩
    rintro hscalar value ⟨⟩
    exact hrecast.scalar hscalar
  · have hspans : shape.Spans first.value := by
      by_cases hscalar : shape = .scalar
      · exact .inr (.inl (hrecast.scalar hscalar))
      · exact hlooks hscalar first hparts hdot
    have hfinds' := hfinds hright
    rw [hrecast.inspector_second, ← hrecast.value_eq, ← Inspector.find?_ofShape hspans,
      ← hrecast.inspector_first] at hfinds'
    refine .inr ⟨first, second, _, hrecast, hparts, hfinds hleft, hfinds', ?_⟩
    rintro hscalar value hvalue
    rw [hrecast.inspector_first, hscalar] at hvalue
    cases hvalue

/-- A path finds the same through both inspectors. -/
theorem Context.find?_of_through
    (hrelated : Variable.Related (Variable.Through shape) left.bindings right.bindings)
    {path : Bytes} (hlooks : shape ≠ .scalar → left.Looks shape right path) :
    left.find? path = right.find? path := by
  rw [find?, find?]
  obtain hsame | ⟨first, second, found, -, -, hleft, hright, -⟩ :=
    lookUp_of_through hrelated hlooks
  · rw [hsame]
  · rw [hleft, hright]

/-- An operand stands for the same through both inspectors. -/
theorem Context.resolve_of_through
    (hrelated : Variable.Related (Variable.Through shape) left.bindings right.bindings)
    {operand : Operand} (hsuits : shape ≠ .scalar → operand.Suits shape left right) :
    left.resolve operand = right.resolve operand := by
  rw [resolve, resolve]
  cases hstatic : operand.isStatic with
  | true => rfl
  | false => rw [find?_of_through hrelated fun hshape => hsuits hshape hstatic]

/-- What a path finds compares alike through both inspectors. -/
theorem Comparison.holdsAgainst_of_through
    (hrelated : Variable.Related (Variable.Through shape) left.bindings right.bindings)
    {path : Bytes} (hlooks : shape ≠ .scalar → left.Looks shape right path)
    (hcompares : shape ≠ .scalar → left.Compares shape right path) (op : Operator) (text : Bytes) :
    holdsAgainst left path op text = holdsAgainst right path op text := by
  rw [holdsAgainst, holdsAgainst]
  obtain hsame | ⟨first, second, found, hrecast, hparts, hleft, hright, hscalar⟩ :=
    Context.lookUp_of_through hrelated hlooks
  · rw [hsame]
  · rw [hleft, hright]
    cases found with
    | none => rfl
    | some value =>
      have hranks : shape.Ranks value := by
        by_cases hshape : shape = .scalar
        · exact ⟨fun _ => hshape, fun _ => hscalar hshape value rfl⟩
        · exact hcompares hshape first value hparts (by rw [Context.find?, hleft])
      have hcompare := Inspector.compare_ofShape hranks op text
      rw [← hrecast.inspector_first, ← hrecast.inspector_second] at hcompare
      exact hcompare

/-- A comparison comes to the same through both inspectors. -/
theorem Comparison.evaluate_of_through
    (hrelated : Variable.Related (Variable.Through shape) left.bindings right.bindings)
    {comparison : Comparison} (hsuits : shape ≠ .scalar → comparison.Suits shape left right) :
    comparison.evaluate left = comparison.evaluate right := by
  refine evaluate_congr
    (Context.resolve_of_through hrelated fun hshape => (hsuits hshape).left_suits)
    (Context.resolve_of_through hrelated fun hshape => (hsuits hshape).right_suits) ?_
  intro hcompares op text
  -- the side that is looked at for comparing is no literal, so its operand suits as a path
  have hvariable : comparison.variableSide.isStatic = false := by
    rw [compares, Bool.and_eq_true, Bool.not_eq_true', Bool.not_eq_true', Bool.and_eq_false_iff]
      at hcompares
    rw [variableSide]
    split <;> simp_all
  refine holdsAgainst_of_through hrelated (fun hshape => ?_)
    (fun hshape => (hsuits hshape).compares hcompares) op text
  have hside : comparison.variableSide.Suits shape left right := by
    rw [variableSide]
    split
    · exact (hsuits hshape).right_suits
    · exact (hsuits hshape).left_suits
  exact hside hvariable

/-- A condition comes to the same through both inspectors. -/
theorem Condition.evaluate_of_through {registry : Registry}
    (hrelated : Variable.Related (Variable.Through shape) left.bindings right.bindings)
    {condition : Condition}
    (hcomparison : shape ≠ .scalar → condition.helper.isEmpty = true →
      condition.comparison.Suits shape left right)
    (hargs : shape ≠ .scalar → condition.helper.isEmpty = false →
      ∀ operand ∈ condition.args, operand.Suits shape left right) :
    condition.evaluate registry left = condition.evaluate registry right :=
  evaluate_congr
    (fun hhelper => Comparison.evaluate_of_through hrelated fun hshape =>
      hcomparison hshape hhelper)
    fun hhelper operand hmem => Context.resolve_of_through hrelated fun hshape =>
      hargs hshape hhelper operand hmem

/-- A counter statement reads its counter. -/
theorem Counter.evaluate_of_through
    (hrelated : Variable.Related (Variable.Through shape) left.bindings right.bindings)
    {statement : Counter} (hlooks : shape ≠ .scalar → left.Looks shape right statement.name) :
    statement.evaluate left = statement.evaluate right := by
  have hcurrent : current left statement.name = current right statement.name := by
    rw [current, current, Context.find?_of_through hrelated hlooks]
  rw [evaluate, evaluate, hcurrent]

/-- What a context statement binds is the same, or a variable and the same one recast. -/
theorem Binding.evaluate_of_through {registry : Registry}
    (hrelated : Variable.Related (Variable.Through shape) left.bindings right.bindings)
    {statement : Binding} (hsuits : shape ≠ .scalar → statement.source.Suits shape left right) :
    Variable.Agree (Variable.Through shape) statement.target (statement.evaluate registry left)
      (statement.evaluate registry right) := by
  obtain ⟨target, source, kind⟩ := statement
  simp only at hsuits
  rw [evaluate, evaluate]
  cases hstatic : source.isStatic with
  | true => exact .of_eq (fun _ => .inl rfl) rfl
  | false =>
    simp only [Bool.false_eq_true, if_false]
    obtain hsame | ⟨first, second, found, hrecast, -, hleft, hright, hscalar⟩ :=
      Context.lookUp_of_through hrelated fun hshape => hsuits hshape hstatic
    · exact .of_eq (fun _ => .inl rfl) (by rw [hsame])
    · rw [hleft, hright]
      cases hkind : kind.isEmpty with
      | false => exact .of_eq (fun _ => .inl rfl) rfl
      | true =>
        have hbind (value : Json) : (Inspector.ofShape shape).bind value = .ok value := by
          cases shape <;> rfl
        simp only [if_true, Option.map_some, Option.getD_some, hrecast.inspector_first,
          hrecast.inspector_second]
        cases found with
        | none => exact .inr ⟨_, _, rfl, rfl, .inr ⟨_, _, rfl, rfl, ⟨rfl, rfl, rfl, fun _ => rfl⟩⟩⟩
        | some value =>
          simp only [hbind]
          exact .inr ⟨_, _, rfl, rfl, .inr ⟨_, _, rfl, rfl,
            ⟨rfl, rfl, rfl, fun hshape => hscalar hshape value rfl⟩⟩⟩

/-- A loop visits the same elements, and binds them through the inspector of its source. -/
theorem RangeHead.visited_of_through
    (hrelated : Variable.Related (Variable.Through shape) left.bindings right.bindings)
    {head : RangeHead} (hlooks : shape ≠ .scalar → left.Looks shape right head.source)
    (hloops : shape ≠ .scalar → left.Loops shape right head.source) :
    head.visited left.bindings = head.visited right.bindings ∧
    ∀ {elements : List (Json × Json)} {first second : Variable},
      head.visited left.bindings = .ok elements →
      left.root? head.source = some first → right.root? head.source = some second →
      head.BindsRelated (Variable.Through shape) first.inspector second.inspector elements := by
  obtain hsame | ⟨first, second, found, hrecast, hparts, hleft, hright, hscalar⟩ :=
    Context.lookUp_of_through hrelated hlooks
  · exact visited_of_lookUp_eq (fun _ _ => .inl rfl) hsame
  · have hroots : ∀ {elements : List (Json × Json)} {first' second' : Variable},
        (shape = .scalar → elements = []) →
        left.root? head.source = some first' → right.root? head.source = some second' →
        head.BindsRelated (Variable.Through shape) first'.inspector second'.inspector elements := by
      intro elements first' second' hnone hfirst hsecond element hmem
      rw [Context.root?, hleft] at hfirst
      rw [Context.root?, hright] at hsecond
      cases hfirst
      cases hsecond
      have hscalar (value : Json) (hshape : shape = .scalar) : value.shape = .scalar := by
        rw [hnone hshape] at hmem
        cases hmem
      exact ⟨.inr ⟨_, _, rfl, rfl, ⟨rfl, hrecast.2, hrecast.3, hscalar _⟩⟩,
        .inr ⟨_, _, rfl, rfl, ⟨rfl, hrecast.2, hrecast.3, hscalar _⟩⟩⟩
    rw [visited, visited, hleft, hright]
    cases found with
    | none =>
      refine ⟨rfl, fun hvisited => hroots fun _ => ?_⟩
      cases hvisited
      rfl
    | some value =>
      have hspans : shape.Spans value := by
        by_cases hshape : shape = .scalar
        · exact .inr (.inl (hscalar hshape value rfl))
        · exact hloops hshape first value hparts (by rw [Context.find?, hleft])
      refine ⟨?_, fun hvisited => hroots fun hshape => ?_⟩
      · simp only [hrecast.inspector_first, hrecast.inspector_second]
        exact Inspector.elements_ofShape hspans
      · simp only [hrecast.inspector_first, hshape] at hvisited
        cases hvisited
        rfl

end Answers

/-! ## The two runs -/

/-- Two runs that differ in the inspector of a shape simulate each other where the shape suits. -/
theorem Simulation.of_through [JsonLibrary] (registry : Registry) (iterations : Nat)
    (shape : Shape) :
    Simulation registry iterations (Variable.Through shape) fun site left right =>
      shape ≠ .scalar → site.Suits shape registry iterations left right where
  same _ _ := .inl rfl
  print hsuits hrelated operand hmem :=
    Context.resolve_of_through hrelated fun hshape => hsuits hshape operand hmem
  bind hsuits hrelated := Binding.evaluate_of_through hrelated hsuits
  counter hsuits hrelated := Counter.evaluate_of_through hrelated hsuits
  cond hsuits hrelated :=
    Condition.evaluate_of_through hrelated (fun hshape => (hsuits hshape).1)
      fun hshape => (hsuits hshape).2
  switch hsuits hrelated :=
    Node.chosen?_congr fun comparison hmem =>
      Comparison.evaluate_of_through hrelated fun hshape => hsuits hshape comparison hmem
  range hsuits hrelated :=
    RangeHead.visited_of_through hrelated (fun hshape => (hsuits hshape).1)
      fun hshape => (hsuits hshape).2
  init hsuits hrelated := Context.resolve_of_through hrelated hsuits
  limit hsuits hrelated :=
    Context.resolve_of_through hrelated fun hshape => (hsuits hshape).1
  next := by
    rintro head slot children more counter before before' left right hsuits rfl rfl hrelated -
    exact Context.find?_of_through hrelated fun hshape => (hsuits hshape).2

/-- The inspector of a shape agrees with the general one on values of its shape. Where modifiers do
not tell the two apart, rendering nodes in a context in which a name is bound to a value through the
inspector of its shape writes the same and ends with the same flow or failure as rendering them
where it is bound through the general inspector, if every site that the two runs come to uses the
variables that came from it as both inspectors do. A scalar can be used in no other way. -/
theorem Context.render_shape_eq_json [JsonLibrary] {registry : Registry} {context : Context}
    {name : Bytes} {value : Json} {nodes : List Node} (iterations : Nat)
    (hrespects : registry.Respects (Variable.Through value.shape))
    (hbounds : context.arena.InBounds)
    (hsuits : value.shape ≠ .scalar → ∀ site left right,
      Site.Together registry iterations
        (.all nodes) (context.assign name value (Inspector.ofShape value.shape))
        (.all nodes) (context.assign name value Inspector.json) site left right →
      site.Suits value.shape registry iterations left right) :
    let shaped := Node.renderAll registry iterations nodes
      (context.assign name value (Inspector.ofShape value.shape))
    let general := Node.renderAll registry iterations nodes
      (context.assign name value Inspector.json)
    shaped.written = general.written ∧ shaped.result = general.result := by
  have hrelated : Variable.Related (Variable.Through value.shape)
      (context.assign name value (Inspector.ofShape value.shape)).bindings
      (context.assign name value Inspector.json).bindings := by
    have hself : Variable.Related (Variable.Through value.shape) context.bindings
        context.bindings := fun _ => .inl rfl
    exact hself.insert (.inr ⟨_, _, rfl, rfl, ⟨rfl, rfl, rfl, id⟩⟩)
  have hmatches : Site.Matches (Variable.Through value.shape)
      (.all nodes) (context.assign name value (Inspector.ofShape value.shape))
      (.all nodes) (context.assign name value Inspector.json) := .all ⟨hbounds, hbounds, rfl⟩
  have htwin := (Simulation.of_through registry iterations value.shape).areTwins hrespects hmatches
    hrelated fun site left right htogether hshape => hsuits hshape site left right htogether
  exact ⟨htwin.written, htwin.result⟩

/-! ## Two variables over one array -/

/-- An array that holds an object with one field. -/
def Json.record : Json := .arr [.obj [(ascii "q", .bool true)]]

/-- A context in which only `x` is bound. -/
def Context.atX (value : Json) (inspector : Inspector) : Context :=
  ({} : Context).assign (ascii "x") value inspector

/-- A variable that takes another one over, and a field of what it holds. -/
def Tree.inheriting : Tree :=
  ⟨[.bind { target := ascii "y", source := Operand.parse (ascii "x") },
    .print { value := Operand.parse (ascii "y.0.q") }]⟩

/-- Both variables hold the array, which the inspector of sequences spans. -/
theorem Site.suits_inheriting [JsonLibrary] {site : Site} {left right : Context}
    (h : Reaches Registry.standard 2 (.all Tree.inheriting.nodes) (.atX Json.record .sequence)
      site left) : site.Suits .sequence Registry.standard 2 left right := by
  obtain ⟨rfl, -⟩ | hbind | ⟨-, hrest⟩ := h.of_cons
  · trivial
  · cases hbind with
    | here =>
      intro _ root _ hdot
      exact absurd hdot (by decide)
    | step hcalls _ => cases hcalls
  · obtain ⟨rfl, -⟩ | hprint | ⟨-, hnil⟩ := hrest.of_cons
    · trivial
    · cases hprint with
      | here =>
        intro operand hmem _ root hparts _
        obtain rfl := List.mem_singleton.mp hmem
        cases hparts.1
        exact .inl rfl
      | step hcalls _ => cases hcalls
    · rw [hnil.of_nil.1]
      trivial

open scoped JsonLibrary.Strict

/-- Both runs of the tree write the field. -/
theorem Context.render_inheriting :
    let shaped := Node.renderAll Registry.standard 2 Tree.inheriting.nodes
      (.atX Json.record .sequence)
    let general := Node.renderAll Registry.standard 2 Tree.inheriting.nodes (.atX Json.record .json)
    (Registry.standard.Respects (Variable.Through .sequence) ∧
      (Context.atX Json.record .sequence).arena.InBounds ∧
      ∀ site left right, Site.Together Registry.standard 2
        (.all Tree.inheriting.nodes) (.atX Json.record .sequence)
        (.all Tree.inheriting.nodes) (.atX Json.record .json) site left right →
        site.Suits .sequence Registry.standard 2 left right) ∧
    shaped.written = ascii "true" ∧ shaped.written = general.written ∧
      shaped.result = general.result := by
  have hsuits : ∀ site left right, Site.Together Registry.standard 2
      (.all Tree.inheriting.nodes) (.atX Json.record .sequence)
      (.all Tree.inheriting.nodes) (.atX Json.record .json) site left right →
      site.Suits .sequence Registry.standard 2 left right :=
    fun _ _ _ htogether => Site.suits_inheriting htogether.reaches
  refine ⟨⟨Registry.respects_standard _, LoopArena.inBounds_empty, hsuits⟩,
    by with_unfolding_all rfl, ?_⟩
  exact render_shape_eq_json 2 (Registry.respects_standard _) LoopArena.inBounds_empty
    fun _ => hsuits

/-! ## Where the two inspectors part -/

/-- An item of an array is compared with a number. -/
def Source.comparing : Bytes :=
  markup (ascii " if x.0 == 5 ") ++ (markup (ascii "= true ") ++ markup (ascii " endif "))

/-- The tree of that template. -/
def Tree.comparing : Tree :=
  ⟨[.cond
    { comparison :=
        { left := Operand.parse (ascii "x.0"), op := .equal, right := Operand.parse (ascii "5") } }
    [.onTrue [.print { value := Operand.parse (ascii "true") }]]]⟩

/-- The template is parsed as that tree. -/
theorem Tree.parse_comparing (keepFormatting : Bool) :
    parse keepFormatting Source.comparing = .ok comparing := by
  have hplainIf : Source.IsPlain (ascii " if x.0 == 5 ") := .of_notMem (by decide)
  have hplainPrint : Source.IsPlain (ascii "= true ") := .of_notMem (by decide)
  have hplainEnd : Source.IsPlain (ascii " endif ") := .of_notMem (by decide)
  let condition : Construct :=
    .condition
      { comparison :=
        { left := Operand.parse (ascii "x.0"), op := .equal, right := Operand.parse (ascii "5") } }
  have hparseIf : Statement.parse (ascii " if x.0 == 5 ").strip = .ok condition.opening := rfl
  have hparsePrint : Statement.parse (ascii "= true ").strip =
      .ok (.print { value := Operand.parse (ascii "true") }) := rfl
  have hinner : Reads ((Reader.start Source.comparing).enter condition [] (ascii " if x.0 == 5 ")
      (Source.markup (ascii "= true ") ++ Source.markup (ascii " endif "))) _ :=
    .markup_node rfl rfl hplainPrint hparsePrint rfl
      (.ends (.markup rfl (List.append_nil _).symm hplainEnd) rfl rfl)
  have hreads : Reads (Reader.start Source.comparing) _ :=
    .construct (.markup rfl rfl hplainIf) hparseIf rfl hinner rfl (.end_of_template rfl rfl)
  exact parse_of_isSettled
    (.append (.markup hplainIf) (.append (.markup hplainPrint) (.markup hplainEnd))) hreads
    keepFormatting

/-- Through the inspector of sequences the comparison does not hold, and through the general one it
does. -/
theorem Source.renders_comparing [JsonLibrary] :
    Renders Registry.standard (.atX (.arr [.int 5]) .sequence) comparing [] ∧
      Renders Registry.standard (.atX (.arr [.int 5]) .json) comparing (ascii "true") := by
  constructor
  · exact renders_of_parse Tree.parse_comparing fun _ =>
      ⟨by with_unfolding_all rfl, by with_unfolding_all rfl⟩
  · exact renders_of_parse Tree.parse_comparing fun _ =>
      ⟨by with_unfolding_all rfl, by with_unfolding_all rfl⟩

/-- A variable that takes over the item of the record is bound through the inspector of the
record. -/
theorem Node.renderAll_item [JsonLibrary] {inspector : Inspector}
    (h : inspector = .sequence ∨ inspector = .json) (iterations : Nat) (rest : List Node) :
    renderAll Registry.standard iterations
        (.bind { target := ascii "y", source := Operand.parse (ascii "x.0") } :: rest)
        (.atX Json.record inspector) =
      renderAll Registry.standard iterations rest
        ((Context.atX Json.record inspector).assign (ascii "y")
          (.obj [(ascii "q", .bool true)]) inspector) := by
  have hbind : Binding.render Registry.standard
      { target := ascii "y", source := Operand.parse (ascii "x.0") }
      (.atX Json.record inspector) =
        { written := []
          context := (Context.atX Json.record inspector).assign (ascii "y")
            (.obj [(ascii "q", .bool true)]) inspector
          result := .ok .done } := by
    obtain rfl | rfl := h
    · with_unfolding_all rfl
    · with_unfolding_all rfl
  rw [renderAll, render, RenderM.bind_of_ok (congrArg _ hbind), hbind]
  rfl

/-- An item is taken over by another variable, and a field of it is looked for. -/
def Source.looking : Bytes :=
  markup (ascii " context y = x.0 ") ++ markup (ascii "= y.q|default(false) ")

/-- The tree of that template. -/
def Tree.looking : Tree :=
  ⟨[.bind { target := ascii "y", source := Operand.parse (ascii "x.0") },
    .print
      { value := Operand.parse (ascii "y.q"),
        modifiers := [{ name := ascii "default", args := [Operand.parse (ascii "false")] }] }]⟩

/-- The template is parsed as that tree. -/
theorem Tree.parse_looking (keepFormatting : Bool) :
    parse keepFormatting Source.looking = .ok looking := by
  have hplainBind : Source.IsPlain (ascii " context y = x.0 ") := .of_notMem (by decide)
  have hplainPrint : Source.IsPlain (ascii "= y.q|default(false) ") := .of_notMem (by decide)
  have hreads : Reads (Reader.start Source.looking) _ :=
    .markup_node rfl rfl hplainBind rfl rfl
      (.markup_node rfl (List.append_nil _).symm hplainPrint rfl rfl (.end_of_template rfl rfl))
  exact parse_of_isSettled (.append (.markup hplainBind) (.markup hplainPrint)) hreads
    keepFormatting

/-- Through the inspector of sequences nothing is found in the record, and through the general one
it is. -/
theorem Source.renders_looking [JsonLibrary] :
    Renders Registry.standard (.atX Json.record .sequence) looking (ascii "false") ∧
      Renders Registry.standard (.atX Json.record .json) looking (ascii "true") := by
  constructor
  · refine renders_of_parse Tree.parse_looking fun _ => ?_
    rw [Tree.looking, Node.renderAll_item (.inl rfl)]
    exact ⟨by with_unfolding_all rfl, by with_unfolding_all rfl⟩
  · refine renders_of_parse Tree.parse_looking fun _ => ?_
    rw [Tree.looking, Node.renderAll_item (.inr rfl)]
    exact ⟨by with_unfolding_all rfl, by with_unfolding_all rfl⟩

/-- An item is taken over by another variable, and looped over. -/
def Source.looping : Bytes :=
  markup (ascii " context y = x.0 ") ++ (markup (ascii " for v := range y ") ++
    (markup (ascii "= v ") ++ markup (ascii " endfor ")))

/-- The head of a loop over `y` that binds `v`. -/
def RangeHead.overY : RangeHead :=
  { key := [], value := ascii "v", source := ascii "y", separator := [] }

/-- The tree of that template. -/
def Tree.looping : Tree :=
  ⟨[.bind { target := ascii "y", source := Operand.parse (ascii "x.0") },
    .forRange .overY [.print { value := Operand.parse (ascii "v") }]]⟩

/-- The template is parsed as that tree. -/
theorem Tree.parse_looping (keepFormatting : Bool) :
    parse keepFormatting Source.looping = .ok looping := by
  have hplainBind : Source.IsPlain (ascii " context y = x.0 ") := .of_notMem (by decide)
  have hplainFor : Source.IsPlain (ascii " for v := range y ") := .of_notMem (by decide)
  have hplainPrint : Source.IsPlain (ascii "= v ") := .of_notMem (by decide)
  have hplainEnd : Source.IsPlain (ascii " endfor ") := .of_notMem (by decide)
  let loop : Construct := .loop (.range .overY)
  have hparseBind : Statement.parse (ascii " context y = x.0 ").strip =
      .ok (.bind { target := ascii "y", source := Operand.parse (ascii "x.0") }) := rfl
  have hparseFor : Statement.parse (ascii " for v := range y ").strip = .ok loop.opening := rfl
  have hparsePrint : Statement.parse (ascii "= v ").strip =
      .ok (.print { value := Operand.parse (ascii "v") }) := rfl
  let body := Source.markup (ascii "= v ") ++ Source.markup (ascii " endfor ")
  let opening := Source.markup (ascii " for v := range y ") ++ body
  let reader := (Reader.start Source.looping).pass [] (ascii " context y = x.0 ") opening
  have hinner : Reads (reader.enter loop [] (ascii " for v := range y ") body) _ :=
    .markup_node rfl rfl hplainPrint hparsePrint rfl
      (.ends (.markup rfl (List.append_nil _).symm hplainEnd) rfl rfl)
  have hloop : Reads reader _ :=
    .construct (.markup rfl rfl hplainFor) hparseFor rfl hinner rfl (.end_of_template rfl rfl)
  have hreads : Reads (Reader.start Source.looping) _ :=
    .markup_node rfl rfl hplainBind hparseBind rfl hloop
  have hsettled : Source.IsSettled Source.looping :=
    .append (.markup hplainBind)
      (.append (.markup hplainFor) (.append (.markup hplainPrint) (.markup hplainEnd)))
  exact parse_of_isSettled hsettled hreads keepFormatting

/-- Through the inspector of sequences the record has no elements, and through the general one it
has. -/
theorem Source.renders_looping [JsonLibrary] :
    Renders Registry.standard (.atX Json.record .sequence) looping [] ∧
      Renders Registry.standard (.atX Json.record .json) looping (ascii "true") := by
  constructor
  · refine renders_of_parse Tree.parse_looping fun _ => ?_
    rw [Tree.looping, Node.renderAll_item (.inl rfl)]
    exact ⟨rfl, rfl⟩
  · refine renders_of_parse Tree.parse_looping fun _ => ?_
    rw [Tree.looping, Node.renderAll_item (.inr rfl)]
    exact ⟨rfl, rfl⟩

/-- A registry with a modifier that gives the name of the inspector that `x` was bound through. -/
def Registry.naming [JsonLibrary] : Registry :=
  { Registry.standard with
    modifiers := [(ascii "kind", fun scope _ _ =>
      .ok (.str (((scope.bindings.find? (ascii "x")).map (·.inspector.name)).getD []),
        scope.bindings))] }

/-- A region that asks for the name of an inspector. -/
def Source.naming : Bytes := markup (ascii "= 1|kind ")

/-- A modifier that looks at the inspectors of variables tells the two apart. -/
theorem Source.renders_naming [JsonLibrary] :
    Renders Registry.naming (.atX Json.record .sequence) naming (ascii "sequence") ∧
      Renders Registry.naming (.atX Json.record .json) naming (ascii "json") := by
  have hplain : IsPlain (ascii "= 1|kind ") := .of_notMem (by decide)
  have hparse : Statement.parse (ascii "= 1|kind ").strip =
      .ok (.print { value := Operand.parse (ascii "1")
                    modifiers := [{ name := ascii "kind", args := [] }] }) := rfl
  have hreads : Reads (Reader.start naming) _ :=
    .markup_node rfl (List.append_nil _).symm hplain hparse rfl (.end_of_template rfl rfl)
  constructor
  · exact renders_of_reads (.markup hplain) hreads fun _ => ⟨rfl, rfl⟩
  · exact renders_of_reads (.markup hplain) hreads fun _ => ⟨rfl, rfl⟩

/-- A comparison of a scalar in an array tells the inspector of sequences from the general one. So
do a look into an object and a loop over it once a variable has taken it over from the array, and a
modifier that looks at the inspector. -/
theorem Source.renders_shape_ne_json :
    Renders Registry.standard (.atX (.arr [.int 5]) .sequence) comparing [] ∧
    Renders Registry.standard (.atX (.arr [.int 5]) .json) comparing (ascii "true") ∧
    Renders Registry.standard (.atX Json.record .sequence) looking (ascii "false") ∧
    Renders Registry.standard (.atX Json.record .json) looking (ascii "true") ∧
    Renders Registry.standard (.atX Json.record .sequence) looping [] ∧
    Renders Registry.standard (.atX Json.record .json) looping (ascii "true") ∧
    Renders Registry.naming (.atX Json.record .sequence) naming (ascii "sequence") ∧
    Renders Registry.naming (.atX Json.record .json) naming (ascii "json") :=
  ⟨renders_comparing.1, renders_comparing.2, renders_looking.1, renders_looking.2,
    renders_looping.1, renders_looping.2, renders_naming.1, renders_naming.2⟩

end Stencil
