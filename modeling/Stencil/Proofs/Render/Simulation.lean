import Stencil.Proofs.Render.Twin

/-!
# When two runs do the same

The sites of a rendering are gone through in two contexts with related variables. `Simulation` lists
what has to be shown of the relation at each site that the two runs come to together: that both get
the same answers there and bind related variables. From that the whole runs are twins
(`Simulation.areTwins`). The induction is on the sites that a site comes to; each kind of site is a
lemma of its own.
-/

set_option autoImplicit false

namespace Stencil

/-! ## What a site asks -/

/-- The operands of a print statement: its value and the arguments of its modifiers. -/
def Print.operands (statement : Print) : List Operand :=
  statement.value :: statement.modifiers.flatMap ModifierCall.args

/-- The elements that a loop visits: none when its source addresses nothing. -/
def RangeHead.visited (head : RangeHead) (bindings : Table Variable) :
    Except Failure (List (Json × Json)) :=
  match Variable.lookUp bindings head.source with
  | (some root, some source) => root.inspector.elements source
  | _ => .ok []

/-- The variables of the elements of a loop, bound through one inspector or another, are related. -/
def RangeHead.BindsRelated (head : RangeHead)
    (relation : Bytes → Option Variable → Option Variable → Prop) (first second : Inspector)
    (elements : List (Json × Json)) : Prop :=
  ∀ element ∈ elements,
    relation head.key (some ⟨element.1, first⟩) (some ⟨element.1, second⟩) ∧
      relation head.value (some ⟨element.2, first⟩) (some ⟨element.2, second⟩)

/-- A loop whose source is the same in both runs visits the same elements, and binds them through
one inspector. -/
theorem RangeHead.visited_of_lookUp_eq {head : RangeHead} {left right : Context}
    {relation : Bytes → Option Variable → Option Variable → Prop}
    (hsame : ∀ name found, relation name (some found) (some found))
    (h : Variable.lookUp left.bindings head.source = Variable.lookUp right.bindings head.source) :
    head.visited left.bindings = head.visited right.bindings ∧
    ∀ {elements : List (Json × Json)} {first second : Variable},
      head.visited left.bindings = .ok elements →
      left.root? head.source = some first → right.root? head.source = some second →
      head.BindsRelated relation first.inspector second.inspector elements := by
  refine ⟨by rw [visited, visited, h], fun _ hfirst hsecond => ?_⟩
  rw [Context.root?, h] at hfirst
  rw [Context.root?, hfirst, Option.some.injEq] at hsecond
  subst hsecond
  exact fun element _ => ⟨hsame _ _, hsame _ _⟩

namespace Comparison

/-- The side of a comparison whose inspector carries it out. -/
def variableSide (comparison : Comparison) : Operand :=
  if comparison.left.isStatic then comparison.right else comparison.left

/-- Whether a comparison compares: it is no test of emptiness and has a variable. -/
def compares (comparison : Comparison) : Bool :=
  !(comparison.op == .unknown && comparison.right.isEmpty) &&
    !(comparison.left.isStatic && comparison.right.isStatic)

/-- The test whether a path holds anything asks whether its value is empty. -/
theorem evaluate_of_emptiness [JsonLibrary] {comparison : Comparison} {context : Context}
    (hunknown : comparison.op = .unknown ∧ comparison.right.isEmpty = true)
    (hstatic : comparison.left.isStatic = false) :
    comparison.evaluate context = .ok !(context.resolve comparison.left).isEmpty := by
  obtain ⟨left, op, right⟩ := comparison
  simp only at hunknown hstatic
  simp only [evaluate, if_pos hunknown, hstatic, Bool.false_eq_true, if_false, Context.resolve]
  cases context.find? left.text <;> rfl

/-- A comparison has one answer in two contexts in which its sides have the same values and its
variable compares alike. -/
theorem evaluate_congr [JsonLibrary] {comparison : Comparison} {context context' : Context}
    (hleft : context.resolve comparison.left = context'.resolve comparison.left)
    (hright : context.resolve comparison.right = context'.resolve comparison.right)
    (hholds : comparison.compares = true → ∀ op text,
      holdsAgainst context comparison.variableSide.text op text =
        holdsAgainst context' comparison.variableSide.text op text) :
    comparison.evaluate context = comparison.evaluate context' := by
  have hsides : sideText context comparison.left = sideText context' comparison.left ∧
      sideText context comparison.right = sideText context' comparison.right := by
    rw [sideText, sideText, sideText, sideText, hleft, hright]
    exact ⟨rfl, rfl⟩
  by_cases hunknown : comparison.op = .unknown ∧ comparison.right.isEmpty = true
  · cases hstatic : comparison.left.isStatic with
    | true => simp only [evaluate, if_pos hunknown, hstatic, if_true]
    | false =>
      rw [evaluate_of_emptiness hunknown hstatic, evaluate_of_emptiness hunknown hstatic, hleft]
  · simp only [evaluate, if_neg hunknown]
    cases hboth : comparison.left.isStatic && comparison.right.isStatic with
    | true => rfl
    | false =>
      have hnoTest : (comparison.op == .unknown && comparison.right.isEmpty) = false :=
        Bool.eq_false_iff.mpr fun htest => hunknown (by simpa using htest)
      have hcompares : comparison.compares = true := by rw [compares, hnoTest, hboth]; rfl
      have hside := hholds hcompares
      rw [variableSide] at hside
      cases hstatic : comparison.left.isStatic with
      | true => simp_all
      | false => simp_all

end Comparison

/-- A condition has one answer in two contexts in which its comparison has, or the arguments of its
helper have the same values. -/
theorem Condition.evaluate_congr [JsonLibrary] {registry : Registry} {condition : Condition}
    {context context' : Context}
    (hcomparison : condition.helper.isEmpty = true →
      condition.comparison.evaluate context = condition.comparison.evaluate context')
    (hargs : condition.helper.isEmpty = false →
      ∀ operand ∈ condition.args, context.resolve operand = context'.resolve operand) :
    condition.evaluate registry context = condition.evaluate registry context' := by
  obtain ⟨comparison, helper, args⟩ := condition
  simp only at hcomparison hargs
  simp only [evaluate]
  cases hhelper : helper.isEmpty with
  | true => exact hcomparison hhelper
  | false =>
    have hvalues : args.map context.resolve = args.map context'.resolve :=
      List.map_congr_left (hargs hhelper)
    rw [hvalues]
    rfl

/-- The comparisons that a switch carries out: those of its cases up to the first that holds or
fails. -/
def Node.tested [JsonLibrary] (subject : Operand) (context : Context) : List Node → List Comparison
  | [] => []
  | case test _ :: rest =>
    test.ofCase subject ::
      match (test.ofCase subject).evaluate context with
      | .ok false => tested subject context rest
      | _ => []
  | _ :: rest => tested subject context rest

/-- A switch chooses one branch in two contexts in which the comparisons that it carries out have
the same answers. -/
theorem Node.chosen?_congr [JsonLibrary] {subject : Operand} {context context' : Context}
    {nodes : List Node}
    (h : ∀ comparison ∈ tested subject context nodes,
      comparison.evaluate context = comparison.evaluate context') :
    chosen? subject context nodes = chosen? subject context' nodes := by
  induction nodes with
  | nil => rfl
  | cons node rest ih =>
    cases node with
    | case test children =>
      rw [tested, List.forall_mem_cons] at h
      rw [chosen?, chosen?, ← h.1]
      cases hholds : (test.ofCase subject).evaluate context with
      | error failure => rfl
      | ok holds =>
        cases holds with
        | true => rfl
        | false => exact ih (by simpa only [hholds] using h.2)
    | default children =>
      rw [chosen?, chosen?, ih h]
    | _ => exact ih h

/-- Two evaluations fail alike, or give variables that are related under a name. -/
def Variable.Agree (relation : Bytes → Option Variable → Option Variable → Prop) (name : Bytes)
    (left right : Except Failure Variable) : Prop :=
  (∃ failure, left = .error failure ∧ right = .error failure) ∨
    ∃ first second, left = .ok first ∧ right = .ok second ∧ relation name (some first) (some second)

/-- Bindings that come to the same agree. -/
theorem Variable.Agree.of_eq {relation : Bytes → Option Variable → Option Variable → Prop}
    {name : Bytes} {left right : Except Failure Variable}
    (hsame : ∀ found, relation name (some found) (some found)) (h : left = right) :
    Agree relation name left right := by
  subst h
  cases left with
  | error failure => exact .inl ⟨failure, rfl, rfl⟩
  | ok found => exact .inr ⟨found, found, rfl, rfl, hsame found⟩

/-- A relation of variables under which every site that `fits` in the contexts of two runs gets the
same answers in both and binds related variables. -/
structure Simulation [JsonLibrary] (registry : Registry) (iterations : Nat)
    (relation : Bytes → Option Variable → Option Variable → Prop)
    (fits : Site → Context → Context → Prop) : Prop where
  same : ∀ name found, relation name (some found) (some found)
  print : ∀ {statement : Print} {left right : Context},
    fits (.node (.print statement)) left right →
    Variable.Related relation left.bindings right.bindings →
    ∀ operand ∈ statement.operands, left.resolve operand = right.resolve operand
  bind : ∀ {statement : Binding} {left right : Context},
    fits (.node (.bind statement)) left right →
    Variable.Related relation left.bindings right.bindings →
    Variable.Agree relation statement.target (statement.evaluate registry left)
      (statement.evaluate registry right)
  counter : ∀ {statement : Counter} {left right : Context},
    fits (.node (.counter statement)) left right →
    Variable.Related relation left.bindings right.bindings →
    statement.evaluate left = statement.evaluate right
  cond : ∀ {condition : Condition} {children : List Node} {left right : Context},
    fits (.node (.cond condition children)) left right →
    Variable.Related relation left.bindings right.bindings →
    condition.evaluate registry left = condition.evaluate registry right
  switch : ∀ {subject : Operand} {children : List Node} {left right : Context},
    fits (.node (.switch subject children)) left right →
    Variable.Related relation left.bindings right.bindings →
    Node.chosen? subject left children = Node.chosen? subject right children
  range : ∀ {head : RangeHead} {children : List Node} {left right : Context},
    fits (.node (.forRange head children)) left right →
    Variable.Related relation left.bindings right.bindings →
    head.visited left.bindings = head.visited right.bindings ∧
    ∀ {elements : List (Json × Json)} {first second : Variable},
      head.visited left.bindings = .ok elements →
      left.root? head.source = some first → right.root? head.source = some second →
      head.BindsRelated relation first.inspector second.inspector elements
  init : ∀ {head : CountHead} {children : List Node} {left right : Context},
    fits (.node (.forCount head children)) left right →
    Variable.Related relation left.bindings right.bindings →
    left.resolve head.init = right.resolve head.init
  limit : ∀ {head : CountHead} {slot : Nat} {children : List Node} {more : Nat} {counter : Int64}
    {left right : Context},
    fits (.counts head slot children more counter) left right →
    Variable.Related relation left.bindings right.bindings →
    left.resolve head.limit = right.resolve head.limit
  /-- After an iteration the counter is read anew; it is bound then. -/
  next : ∀ {head : CountHead} {slot : Nat} {children : List Node} {more : Nat} {counter : Int64}
    {before before' left right : Context},
    fits (.counts head slot children more counter) before before' →
    (RenderM.iterate slot (Node.renderAll registry iterations children) before).context = left →
    (RenderM.iterate slot (Node.renderAll registry iterations children) before').context = right →
    Variable.Related relation left.bindings right.bindings →
    left.bindings.contains head.counter = true →
    left.find? head.counter = right.find? head.counter

/-! ## Sites of two runs -/

/-- Contexts at the same depth of loops. -/
structure Context.Level (left right : Context) : Prop where
  left_inBounds : left.arena.InBounds
  right_inBounds : right.arena.InBounds
  depth_eq : left.arena.depth = right.arena.depth

/-- Contexts in the same slot of a loop are level. -/
theorem Context.InLoop.level {left right : Context} {slot begun : Nat} {separator : Bytes}
    (hleft : left.InLoop slot begun separator) (hright : right.InLoop slot begun separator) :
    left.Level right :=
  ⟨hleft.inBounds, hright.inBounds, hleft.depth_eq.trans hright.depth_eq.symm⟩

/-- What takes its slots and gives them back ends at the depth where it began. -/
theorem Context.Level.after {α : Type} {left right : Context} {step step' : RenderM α}
    (h : left.Level right) (hstep : step.Steady) (hstep' : step'.Steady) :
    (step left).context.Level (step' right).context where
  left_inBounds := (hstep.keeps left).inBounds h.left_inBounds
  right_inBounds := (hstep'.keeps right).inBounds h.right_inBounds
  depth_eq := (hstep.keeps left).depth_eq.trans
    (h.depth_eq.trans (hstep'.keeps right).depth_eq.symm)

/-- Two loops entered at the same depth take the same slot. -/
theorem Context.Level.enterLoop {left right : Context} (h : left.Level right) (separator : Bytes) :
    (left.enterLoop separator).InLoop left.arena.depth 0 separator ∧
      (right.enterLoop separator).InLoop left.arena.depth 0 separator := by
  refine ⟨.enterLoop h.left_inBounds separator, ?_⟩
  rw [h.depth_eq]
  exact .enterLoop h.right_inBounds separator

/-- The same site in two runs. A loop may bind through another inspector, but it stands in the same
slot and has begun as many iterations. -/
inductive Site.Matches (relation : Bytes → Option Variable → Option Variable → Prop) :
    Site → Context → Site → Context → Prop
  | node {single : Node} {left right : Context} (hlevel : left.Level right) :
    Matches relation (node single) left (node single) right
  | all {nodes : List Node} {left right : Context} (hlevel : left.Level right) :
    Matches relation (all nodes) left (all nodes) right
  | visits {head : RangeHead} {first second : Inspector} {slot begun : Nat}
    {separator : Bytes} {children : List Node} {elements : List (Json × Json)}
    {left right : Context} (hleft : left.InLoop slot begun separator)
    (hright : right.InLoop slot begun separator)
    (hbinds : head.BindsRelated relation first second elements) :
    Matches relation (visits head first slot children elements) left
      (visits head second slot children elements) right
  | counts {head : CountHead} {slot begun more : Nat} {separator : Bytes}
    {children : List Node} {counter : Int64} {left right : Context}
    (hleft : left.InLoop slot begun separator) (hright : right.InLoop slot begun separator)
    (hbound : left.bindings.contains head.counter = true) :
    Matches relation (counts head slot children more counter) left
      (counts head slot children more counter) right

/-- Sites that match are alike. -/
theorem Site.Matches.alike {relation : Bytes → Option Variable → Option Variable → Prop}
    {site site' : Site} {left right : Context} (h : site.Matches relation left site' right) :
    site.Alike site' := by
  cases h with
  | node | all | counts => exact .same
  | visits => exact .visits

namespace Site

variable (registry : Registry) (iterations : Nat)
  (relation : Bytes → Option Variable → Option Variable → Prop)

/-- The renderings of a site in two contexts are twins. -/
def AreTwins [JsonLibrary] (site : Site) (left : Context) (site' : Site) (right : Context) : Prop :=
  Rendered.Twin relation left.bindings (site.render registry iterations left)
    (site'.render registry iterations right)

/-- All that two sites come to, each in its run, is rendered alike where it matches and the
variables are related. -/
def TwinsBelow [JsonLibrary] (site : Site) (left : Context) (site' : Site) (right : Context) :
    Prop :=
  ∀ {written written' : Bytes} {next next' : Site} {after after' : Context},
    Calls registry iterations site left written next after →
    Calls registry iterations site' right written' next' after' →
    Matches relation next after next' after' →
    Variable.Related relation after.bindings after'.bindings →
    AreTwins registry iterations relation next after next' after'

end Site

section Cases

variable {registry : Registry} {iterations : Nat}
  {relation : Bytes → Option Variable → Option Variable → Prop}
  {fits : Site → Context → Context → Prop}
  {left right : Context}

/-! ## Statements -/

/-- Variables stay related when the same entries are made on both sides. -/
theorem Variable.Related.insertAll (hsame : ∀ name found, relation name (some found) (some found))
    {bindings bindings' : Table Variable} (h : Related relation bindings bindings')
    (entries : List (Bytes × Variable)) :
    Related relation (Variable.insertAll bindings entries)
      (Variable.insertAll bindings' entries) := by
  induction entries generalizing bindings bindings' with
  | nil => exact h
  | cons entry rest ih => exact ih (h.insert (hsame entry.1 entry.2))

/-- Modifiers that tell no related variables apart are twins. -/
theorem ModifierCall.twin_applyAll (hsame : ∀ name found, relation name (some found) (some found))
    (hrespects : registry.Respects relation) (calls : List ModifierCall) (value : Json)
    (hrelated : Variable.Related relation left.bindings right.bindings)
    (hargs : ∀ operand ∈ calls.flatMap ModifierCall.args,
      left.resolve operand = right.resolve operand) :
    Rendered.Twin relation left.bindings (applyAll registry calls value left)
      (applyAll registry calls value right) := by
  induction calls generalizing value left right with
  | nil => exact .pure hrelated value
  | cons call rest ih =>
    rw [List.flatMap_cons, List.forall_mem_append] at hargs
    rw [applyAll]
    cases hfind : registry.modifiers.find? call.name with
    | none => exact .fail hrelated _
    | some modifier =>
      have hmodifier : modifier.Respects relation := hrespects _ (Table.mem_of_find? hfind)
      obtain ⟨outcome, houtcome, houtcome'⟩ := hmodifier hrelated registry.inspectors value
        (call.args.map left.resolve)
      have hmap : call.args.map right.resolve = call.args.map left.resolve :=
        List.map_congr_left fun operand hmem => (hargs.1 operand hmem).symm
      simp only
      rw [RenderM.context_bind, RenderM.context_bind, hmap, houtcome, houtcome']
      cases outcome with
      | error failure => exact .fail hrelated failure
      | ok result =>
        obtain ⟨value, entries⟩ := result
        simp only [Except.map, RenderM.ofExcept_ok_bind, RenderM.update_bind]
        have hrest := ih value (hrelated.insertAll hsame entries) fun operand hmem =>
          Context.resolve_insertAll (hargs.2 operand hmem) entries
        exact hrest.of_before fun _ hname => Variable.contains_insertAll hname entries

/-- A print statement has twins in two runs that simulate each other. -/
theorem Simulation.twin_print [JsonLibrary] (h : Simulation registry iterations relation fits)
    (hrespects : registry.Respects relation) {statement : Print}
    (hfits : fits (.node (.print statement)) left right)
    (hrelated : Variable.Related relation left.bindings right.bindings) :
    Rendered.Twin relation left.bindings (statement.render registry left)
      (statement.render registry right) := by
  have hoperands := h.print hfits hrelated
  rw [Print.operands, List.forall_mem_cons] at hoperands
  rw [Print.render, RenderM.context_bind, RenderM.context_bind, ← hoperands.1]
  apply Rendered.Twin.bind
    (ModifierCall.twin_applyAll h.same hrespects statement.modifiers _ hrelated hoperands.2)
  intro value hvalue
  have hafter := (ModifierCall.twin_applyAll h.same hrespects statement.modifiers
    (left.resolve statement.value) hrelated hoperands.2).related
  split
  · exact .fail hafter _
  · cases Failure.ofJson value.toText with
    | error failure => exact .bind (.write hafter _) fun _ _ => .fail hafter failure
    | ok text =>
      exact .bind (.write hafter _) fun _ _ => .bind (.pure hafter text) fun _ _ =>
        .bind (.write hafter _) fun _ _ => .pure hafter _

/-- A binding has twins in two runs that simulate each other. -/
theorem Simulation.twin_bind [JsonLibrary] (h : Simulation registry iterations relation fits)
    {statement : Binding} (hfits : fits (.node (.bind statement)) left right)
    (hrelated : Variable.Related relation left.bindings right.bindings) :
    Rendered.Twin relation left.bindings (statement.render registry left)
      (statement.render registry right) := by
  rw [Binding.render, RenderM.context_bind, RenderM.context_bind]
  obtain ⟨failure, hleft, hright⟩ | ⟨first, second, hleft, hright, hvariable⟩ :=
    h.bind hfits hrelated
  · rw [hleft, hright]
    exact .fail hrelated failure
  · rw [hleft, hright]
    exact ⟨rfl, rfl, hrelated.insert hvariable, fun _ hname =>
      Table.contains_insert hname statement.target _⟩

/-- A counter statement has twins in two runs that simulate each other. -/
theorem Simulation.twin_counter [JsonLibrary] (h : Simulation registry iterations relation fits)
    {statement : Counter} (hfits : fits (.node (.counter statement)) left right)
    (hrelated : Variable.Related relation left.bindings right.bindings) :
    Rendered.Twin relation left.bindings (statement.render registry left)
      (statement.render registry right) := by
  rw [Counter.render, RenderM.context_bind, RenderM.context_bind, ← h.counter hfits hrelated]
  cases statement.evaluate left with
  | error failure => exact .fail hrelated failure
  | ok after =>
    exact ⟨rfl, rfl, hrelated.insert (h.same _ _), fun _ hname =>
      Table.contains_insert hname statement.name _⟩

/-! ## Nodes -/

/-- Nodes in order: the first one, and the others after a normal end. -/
theorem Site.twin_all [JsonLibrary] {nodes : List Node} (hlevel : left.Level right)
    (hrelated : Variable.Related relation left.bindings right.bindings)
    (hbelow : TwinsBelow registry iterations relation (all nodes) left (all nodes) right) :
    AreTwins registry iterations relation (all nodes) left (all nodes) right := by
  unfold AreTwins
  simp only [render]
  cases nodes with
  | nil =>
    rw [Node.renderAll]
    exact .pure hrelated _
  | cons first rest =>
    have hfirst := hbelow .first .first (.node hlevel) hrelated
    have hafter : Context.Level (first.render registry iterations left).context
        (first.render registry iterations right).context :=
      hlevel.after (Node.steady_render registry iterations first)
        (Node.steady_render registry iterations first)
    rw [Node.renderAll]
    refine .bind hfirst fun flow hflow => ?_
    have hflow' := hfirst.result.symm.trans hflow
    cases flow with
    | done => exact hbelow (.next hflow) (.next hflow') (.all hafter) hfirst.related
    | breakLoop | continueLoop | interrupt => exact .pure hfirst.related _

/-- A condition is decided in the same way, and its branch is rendered alike. -/
theorem Simulation.twin_cond [JsonLibrary] (h : Simulation registry iterations relation fits)
    {condition : Condition} {children : List Node}
    (hfits : fits (.node (.cond condition children)) left right) (hlevel : left.Level right)
    (hrelated : Variable.Related relation left.bindings right.bindings)
    (hbelow : Site.TwinsBelow registry iterations relation (.node (.cond condition children)) left
      (.node (.cond condition children)) right) :
    Site.AreTwins registry iterations relation (.node (.cond condition children)) left
      (.node (.cond condition children)) right := by
  have hsame := h.cond hfits hrelated
  unfold Site.AreTwins
  simp only [Site.render]
  rw [Node.render, RenderM.context_bind, RenderM.context_bind, ← hsame]
  cases hholds : condition.evaluate registry left with
  | error failure => exact .fail hrelated failure
  | ok holds =>
    rw [RenderM.ofExcept_ok_bind]
    cases hchild : children[if holds then 0 else 1]? with
    | none =>
      rw [Node.renderNth_of_none hchild]
      exact .pure hrelated _
    | some child =>
      rw [Node.renderNth_of_getElem? hchild]
      exact hbelow (.cond hholds hchild) (.cond (hsame.symm.trans hholds) hchild) (.node hlevel)
        hrelated

/-- A switch chooses the same branch. -/
theorem Simulation.twin_switch [JsonLibrary] (h : Simulation registry iterations relation fits)
    {subject : Operand} {children : List Node}
    (hfits : fits (.node (.switch subject children)) left right) (hlevel : left.Level right)
    (hrelated : Variable.Related relation left.bindings right.bindings)
    (hbelow : Site.TwinsBelow registry iterations relation (.node (.switch subject children)) left
      (.node (.switch subject children)) right) :
    Site.AreTwins registry iterations relation (.node (.switch subject children)) left
      (.node (.switch subject children)) right := by
  have hsame := h.switch hfits hrelated
  unfold Site.AreTwins
  simp only [Site.render]
  rw [Node.render_switch, Node.render_switch, ← hsame]
  cases hchosen : Node.chosen? subject left children with
  | error failure => exact .fail hrelated failure
  | ok chosen =>
    cases chosen with
    | none => exact .pure hrelated Flow.done
    | some chosen =>
      exact hbelow (.switch hchosen) (.switch (hsame.symm.trans hchosen)) (.all hlevel) hrelated

/-! ## Loops over elements -/

/-- The beginning of a visit writes the separator when it is not the first one, binds the variables
of the element, and counts. -/
theorem RangeHead.begin_of_inLoop (head : RangeHead) (inspector : Inspector)
    (element : Json × Json) {context : Context} {slot begun : Nat} {separator : Bytes}
    (hloop : context.InLoop slot begun separator) :
    (head.begin inspector slot element context).effect =
      { written := if 0 < begun then separator else [],
        bindings := head.bindElement inspector element context.bindings, result := .ok () } ∧
    (head.begin inspector slot element context).context.InLoop slot (begun + 1) separator := by
  have hbegin := RenderM.beginIteration_of_inLoop
    (hloop.setBindings (head.bindElement inspector element context.bindings))
  have heq : head.begin inspector slot element context = RenderM.beginIteration slot
      { context with bindings := head.bindElement inspector element context.bindings } := by
    rw [begin_apply, bindElement]
    cases head.key.isEmpty <;> rfl
  rw [heq]
  exact hbegin

/-- Binding the variables of an element keeps what is bound. -/
theorem RangeHead.contains_bindElement (head : RangeHead) (inspector : Inspector)
    (element : Json × Json) {bindings : Table Variable} {name : Bytes}
    (hname : bindings.contains name = true) :
    (head.bindElement inspector element bindings).contains name = true := by
  rw [bindElement]
  apply Table.contains_insert
  split
  · exact hname
  · exact Table.contains_insert hname _ _

/-- Variables stay related when an element is bound on both sides. -/
theorem RangeHead.related_bindElement {head : RangeHead} {first second : Inspector}
    {elements : List (Json × Json)} {element : Json × Json}
    (hbinds : head.BindsRelated relation first second elements) (hmem : element ∈ elements)
    {bindings bindings' : Table Variable}
    (hrelated : Variable.Related relation bindings bindings') :
    Variable.Related relation (head.bindElement first element bindings)
      (head.bindElement second element bindings') := by
  obtain ⟨hkey, hvalue⟩ := hbinds element hmem
  rw [bindElement, bindElement]
  split
  · exact hrelated.insert hvalue
  · exact (hrelated.insert hkey).insert hvalue

/-- A visit binds related variables and renders its body alike. -/
theorem Site.twin_visit [JsonLibrary] {head : RangeHead} {first second : Inspector}
    {slot begun : Nat} {separator : Bytes} {children : List Node} {element : Json × Json}
    {rest : List (Json × Json)} (hleft : left.InLoop slot begun separator)
    (hright : right.InLoop slot begun separator)
    (hbinds : head.BindsRelated relation first second (element :: rest))
    (hrelated : Variable.Related relation left.bindings right.bindings)
    (hbelow : TwinsBelow registry iterations relation
      (visits head first slot children (element :: rest)) left
      (visits head second slot children (element :: rest)) right) :
    Rendered.Twin relation left.bindings
      (head.visit first slot (Node.renderAll registry iterations children) element left)
      (head.visit second slot (Node.renderAll registry iterations children) element right) := by
  obtain ⟨hbegin, hinside⟩ := head.begin_of_inLoop first element hleft
  obtain ⟨hbegin', hinside'⟩ := head.begin_of_inLoop second element hright
  obtain ⟨hwritten, hbindings, -⟩ := Rendered.effect_eq_iff.mp hbegin
  obtain ⟨hwritten', hbindings', -⟩ := Rendered.effect_eq_iff.mp hbegin'
  simp only at hwritten hbindings hwritten' hbindings'
  have hbody := hbelow .visit .visit (.all (hinside.level hinside')) (by
    rw [hbindings, hbindings']
    exact RangeHead.related_bindElement hbinds (.head _) hrelated)
  rw [RangeHead.visit_apply, RangeHead.visit_apply, hwritten, hwritten']
  refine ((hbody.of_before fun name hname => ?_).map _).after _
  rw [hbindings]
  exact head.contains_bindElement first element hname

/-- The elements that a loop has left are visited alike. -/
theorem Site.twin_visits [JsonLibrary] {head : RangeHead} {first second : Inspector}
    {slot begun : Nat} {separator : Bytes} {children : List Node}
    {elements : List (Json × Json)} (hleft : left.InLoop slot begun separator)
    (hright : right.InLoop slot begun separator)
    (hbinds : head.BindsRelated relation first second elements)
    (hrelated : Variable.Related relation left.bindings right.bindings)
    (hbelow : TwinsBelow registry iterations relation (visits head first slot children elements)
      left (visits head second slot children elements) right) :
    AreTwins registry iterations relation (visits head first slot children elements) left
      (visits head second slot children elements) right := by
  unfold AreTwins
  simp only [render]
  cases elements with
  | nil =>
    rw [visitElements, visitElements]
    exact .pure hrelated _
  | cons element rest =>
    have hvisit := twin_visit hleft hright hbinds hrelated hbelow
    have hinside := (RenderM.iterate_of_inLoop (Node.steady_renderAll registry iterations children)
      (hleft.setBindings (head.bindElement first element left.bindings))).2
    have hinside' := (RenderM.iterate_of_inLoop (Node.steady_renderAll registry iterations children)
      (hright.setBindings (head.bindElement second element right.bindings))).2
    rw [← RangeHead.visit_eq_iterate] at hinside hinside'
    rw [visitElements, visitElements]
    refine .bind hvisit fun flow hflow => ?_
    cases hstops : flow.stopsLoop with
    | true => exact .pure hvisit.related _
    | false =>
      exact hbelow (.nextVisit rfl hflow hstops)
        (.nextVisit rfl (hvisit.result.symm.trans hflow) hstops)
        (.visits hinside hinside' fun other hmem => hbinds other (.tail _ hmem)) hvisit.related

/-- A loop without elements changes no variable. -/
theorem RangeHead.effect_of_visited_nil {head : RangeHead} {context : Context}
    (hvisited : head.visited context.bindings = .ok []) (body : RenderM Flow) :
    (head.render body context).effect =
      { written := [], bindings := context.bindings, result := .ok .done } := by
  rw [visited] at hvisited
  rw [render, RenderM.context_bind]
  cases hlookUp : Variable.lookUp context.bindings head.source with
  | mk root source =>
    cases root with
    | none => rfl
    | some root =>
      cases source with
      | none => rfl
      | some source =>
        rw [hlookUp] at hvisited
        simp only at hvisited
        simp only [hvisited, RenderM.bind_pure_apply, RenderM.withSlot_apply]
        rfl

/-- A loop whose elements cannot be listed changes no variable. -/
theorem RangeHead.effect_of_visited_error {head : RangeHead} {context : Context}
    {failure : Failure} (hvisited : head.visited context.bindings = .error failure)
    (body : RenderM Flow) :
    (head.render body context).effect =
      { written := [], bindings := context.bindings, result := .error (.failed failure) } := by
  rw [visited] at hvisited
  rw [render, RenderM.context_bind]
  split at hvisited
  · rename_i root source hlookUp
    simp only [hlookUp, hvisited, RenderM.bind_pure_apply, RenderM.withSlot_apply]
    rfl
  · cases hvisited

/-- A loop with a first element has found its source. -/
theorem RangeHead.exists_of_visited_cons {head : RangeHead} {bindings : Table Variable}
    {element : Json × Json} {rest : List (Json × Json)}
    (hvisited : head.visited bindings = .ok (element :: rest)) :
    ∃ root source, Variable.lookUp bindings head.source = (some root, some source) ∧
      root.inspector.elements source = .ok (element :: rest) := by
  rw [visited] at hvisited
  split at hvisited
  · exact ⟨_, _, by assumption, hvisited⟩
  · cases hvisited

/-- A loop over elements visits the same ones. -/
theorem Simulation.twin_range [JsonLibrary] (h : Simulation registry iterations relation fits)
    {head : RangeHead} {children : List Node}
    (hfits : fits (.node (.forRange head children)) left right) (hlevel : left.Level right)
    (hrelated : Variable.Related relation left.bindings right.bindings)
    (hbelow : Site.TwinsBelow registry iterations relation (.node (.forRange head children)) left
      (.node (.forRange head children)) right) :
    Site.AreTwins registry iterations relation (.node (.forRange head children)) left
      (.node (.forRange head children)) right := by
  unfold Site.AreTwins
  simp only [Site.render]
  rw [Node.render]
  obtain ⟨hsame, hbinds⟩ := h.range hfits hrelated
  cases hvisited : head.visited left.bindings with
  | error failure =>
    obtain ⟨hwritten, hbindings, hresult⟩ :=
      Rendered.effect_eq_iff.mp (RangeHead.effect_of_visited_error hvisited _)
    obtain ⟨hwritten', hbindings', hresult'⟩ :=
      Rendered.effect_eq_iff.mp (RangeHead.effect_of_visited_error (hsame.symm.trans hvisited) _)
    exact .of_unchanged hrelated (hwritten.trans hwritten'.symm) (hresult.trans hresult'.symm)
      hbindings hbindings'
  | ok elements =>
    cases elements with
    | nil =>
      obtain ⟨hwritten, hbindings, hresult⟩ :=
        Rendered.effect_eq_iff.mp (RangeHead.effect_of_visited_nil hvisited _)
      obtain ⟨hwritten', hbindings', hresult'⟩ :=
        Rendered.effect_eq_iff.mp (RangeHead.effect_of_visited_nil (hsame.symm.trans hvisited) _)
      exact .of_unchanged hrelated (hwritten.trans hwritten'.symm) (hresult.trans hresult'.symm)
        hbindings hbindings'
    | cons element rest =>
      obtain ⟨root, source, hsource, helements⟩ := RangeHead.exists_of_visited_cons hvisited
      obtain ⟨root', source', hsource', helements'⟩ :=
        RangeHead.exists_of_visited_cons (hsame.symm.trans hvisited)
      have hroot : left.root? head.source = some root := by rw [Context.root?, hsource]
      have hroot' : right.root? head.source = some root' := by rw [Context.root?, hsource']
      rw [RangeHead.render_of_elements hsource helements,
        RangeHead.render_of_elements hsource' helements']
      obtain ⟨hinside, hinside'⟩ := hlevel.enterLoop head.separator
      have hcalls' : Site.Calls registry iterations (.node (.forRange head children)) right []
          (.visits head root'.inspector right.arena.depth children (element :: rest))
          (right.enterLoop head.separator) := .range hsource' helements'
      rw [← hlevel.depth_eq] at hcalls' ⊢
      have hvisits := hbelow (.range hsource helements) hcalls'
        (.visits hinside hinside' (hbinds hvisited hroot hroot')) hrelated
      exact hvisits.leaveLoop.map _

/-! ## Counting loops -/

/-- The next counter depends on what the counter finds only. -/
theorem CountHead.next_congr [JsonLibrary] {head : CountHead} {context context' : Context}
    {counter : Int64} (h : context.find? head.counter = context'.find? head.counter) :
    head.next context counter = head.next context' counter := by
  rw [next, next, h]

/-- An iteration renders its body alike. -/
theorem Site.twin_iterate [JsonLibrary] {head : CountHead} {slot begun more : Nat}
    {separator : Bytes} {children : List Node} {counter limit : Int64}
    (hleft : left.InLoop slot begun separator) (hright : right.InLoop slot begun separator)
    (hrelated : Variable.Related relation left.bindings right.bindings)
    (hlimit : head.integer .limit (left.resolve head.limit) = .ok limit)
    (hcontinues : head.continues counter limit = true)
    (hlimit' : head.integer .limit (right.resolve head.limit) = .ok limit)
    (hbelow : TwinsBelow registry iterations relation
      (counts head slot children (more + 1) counter) left
      (counts head slot children (more + 1) counter) right) :
    Rendered.Twin relation left.bindings
      (RenderM.iterate slot (Node.renderAll registry iterations children) left)
      (RenderM.iterate slot (Node.renderAll registry iterations children) right) := by
  obtain ⟨hbegin, hinside⟩ := RenderM.beginIteration_of_inLoop hleft
  obtain ⟨hbegin', hinside'⟩ := RenderM.beginIteration_of_inLoop hright
  obtain ⟨hwritten, hbindings, -⟩ := Rendered.effect_eq_iff.mp hbegin
  obtain ⟨hwritten', hbindings', -⟩ := Rendered.effect_eq_iff.mp hbegin'
  simp only at hwritten hbindings hwritten' hbindings'
  have hbody := hbelow (.iteration hlimit hcontinues) (.iteration hlimit' hcontinues)
    (.all (hinside.level hinside'))
    (by rw [hbindings, hbindings']; exact hrelated)
  rw [RenderM.iterate_apply, RenderM.iterate_apply, hwritten, hwritten']
  refine ((hbody.of_before fun name hname => ?_).map _).after _
  rw [hbindings]
  exact hname

/-- One iteration of a counting loop, and what the loop does after it. -/
theorem Simulation.twin_counts_succ [JsonLibrary] (h : Simulation registry iterations relation fits)
    {head : CountHead} {slot begun more : Nat} {separator : Bytes} {children : List Node}
    {counter limit : Int64}
    (hfits : fits (.counts head slot children (more + 1) counter) left right)
    (hleft : left.InLoop slot begun separator) (hright : right.InLoop slot begun separator)
    (hbound : left.bindings.contains head.counter = true)
    (hrelated : Variable.Related relation left.bindings right.bindings)
    (hlimit : head.integer .limit (left.resolve head.limit) = .ok limit)
    (hcontinues : head.continues counter limit = true)
    (hbelow : Site.TwinsBelow registry iterations relation
      (.counts head slot children (more + 1) counter) left
      (.counts head slot children (more + 1) counter) right) :
    Site.AreTwins registry iterations relation (.counts head slot children (more + 1) counter) left
      (.counts head slot children (more + 1) counter) right := by
  have hsteady := Node.steady_renderAll registry iterations children
  have hlimit' := h.limit hfits hrelated ▸ hlimit
  have hiterate := Site.twin_iterate hleft hright hrelated hlimit hcontinues hlimit' hbelow
  have hinside := (RenderM.iterate_of_inLoop hsteady hleft).2
  have hinside' := (RenderM.iterate_of_inLoop hsteady hright).2
  unfold Site.AreTwins
  simp only [Site.render]
  rw [CountHead.run, RenderM.context_bind, RenderM.context_bind, hlimit, hlimit',
    RenderM.ofExcept_ok_bind, if_pos hcontinues]
  refine .bind hiterate fun flow hflow => ?_
  cases flow with
  | continueLoop => exact absurd hflow RenderM.iterate_ne_continue
  | breakLoop | interrupt => exact .pure hiterate.related _
  | done =>
    have hflow' := hiterate.result.symm.trans hflow
    have hcounter := h.next hfits rfl rfl hiterate.related (hiterate.kept _ hbound)
    have hnexts : head.next _ counter = head.next _ counter := CountHead.next_congr hcounter
    simp only
    rw [RenderM.context_bind, RenderM.context_bind, ← hnexts]
    cases hnext : head.next (RenderM.iterate slot (Node.renderAll registry iterations children)
        left).context counter with
    | error failure => exact .fail hiterate.related failure
    | ok after =>
      have hmore := hbelow (.nextIteration hlimit hcontinues rfl hflow hnext)
        (.nextIteration hlimit' hcontinues rfl hflow' (hnexts.symm.trans hnext))
        (.counts (hinside.setBindings _) (hinside'.setBindings _)
          (Table.contains_insert_self _ head.counter _))
        (hiterate.related.insert (h.same head.counter _))
      exact hmore.of_before fun _ hname => Table.contains_insert hname head.counter _

/-- The iterations that a counting loop has left are alike. -/
theorem Simulation.twin_counts [JsonLibrary] (h : Simulation registry iterations relation fits)
    {head : CountHead} {slot begun more : Nat} {separator : Bytes} {children : List Node}
    {counter : Int64} (hfits : fits (.counts head slot children more counter) left right)
    (hleft : left.InLoop slot begun separator) (hright : right.InLoop slot begun separator)
    (hbound : left.bindings.contains head.counter = true)
    (hrelated : Variable.Related relation left.bindings right.bindings)
    (hbelow : Site.TwinsBelow registry iterations relation
      (.counts head slot children more counter) left
      (.counts head slot children more counter) right) :
    Site.AreTwins registry iterations relation (.counts head slot children more counter) left
      (.counts head slot children more counter) right := by
  have hsame := h.limit hfits hrelated
  cases hlimit : head.integer .limit (left.resolve head.limit) with
  | error failure =>
    have hlimit' := hsame ▸ hlimit
    unfold Site.AreTwins
    simp only [Site.render]
    cases more with
    | zero | succ more =>
      rw [CountHead.run, RenderM.context_bind, RenderM.context_bind, hlimit, hlimit']
      exact .fail hrelated failure
  | ok limit =>
    have hlimit' := hsame ▸ hlimit
    cases hcontinues : head.continues counter limit with
    | false =>
      unfold Site.AreTwins
      simp only [Site.render]
      cases more with
      | zero | succ more =>
        rw [CountHead.run, RenderM.context_bind, RenderM.context_bind, hlimit, hlimit']
        simp only [RenderM.ofExcept_ok_bind, hcontinues, Bool.false_eq_true, if_false]
        exact .pure hrelated _
    | true =>
      cases more with
      | zero =>
        unfold Site.AreTwins
        simp only [Site.render]
        rw [CountHead.run, RenderM.context_bind, RenderM.context_bind, hlimit, hlimit',
          RenderM.ofExcept_ok_bind, hcontinues]
        exact .of_unchanged hrelated rfl rfl rfl rfl
      | succ more =>
        exact h.twin_counts_succ hfits hleft hright hbound hrelated hlimit hcontinues hbelow

/-- A counting loop begins with the same counter. -/
theorem Simulation.twin_count [JsonLibrary] (h : Simulation registry iterations relation fits)
    {head : CountHead} {children : List Node}
    (hfits : fits (.node (.forCount head children)) left right) (hlevel : left.Level right)
    (hrelated : Variable.Related relation left.bindings right.bindings)
    (hbelow : Site.TwinsBelow registry iterations relation (.node (.forCount head children)) left
      (.node (.forCount head children)) right) :
    Site.AreTwins registry iterations relation (.node (.forCount head children)) left
      (.node (.forCount head children)) right := by
  have hsame := h.init hfits hrelated
  unfold Site.AreTwins
  simp only [Site.render]
  rw [Node.render]
  cases hinit : head.integer .init (left.resolve head.init) with
  | error failure =>
    have hinit' := hsame ▸ hinit
    rw [CountHead.render, RenderM.context_bind, RenderM.context_bind, hinit, hinit']
    exact .fail hrelated failure
  | ok counter =>
    have hinit' := hsame ▸ hinit
    have hassigned : Context.Level
        (left.assign head.counter (Json.ofWord counter) (Inspector.general registry.inspectors))
        (right.assign head.counter (Json.ofWord counter)
          (Inspector.general registry.inspectors)) := ⟨hlevel.1, hlevel.2, hlevel.3⟩
    obtain ⟨hinside, hinside'⟩ := hassigned.enterLoop head.separator
    have hcalls' : Site.Calls registry iterations (.node (.forCount head children)) right []
        (.counts head right.arena.depth children iterations counter)
        ((right.assign head.counter (Json.ofWord counter)
          (Inspector.general registry.inspectors)).enterLoop head.separator) := .count hinit'
    rw [CountHead.render_of_init hinit, CountHead.render_of_init hinit']
    rw [← hlevel.depth_eq] at hcalls' ⊢
    have hcounts := hbelow (.count hinit) hcalls'
      (.counts hinside hinside' (Table.contains_insert_self _ head.counter _))
      (hrelated.insert (h.same head.counter _))
    exact hcounts.leaveLoop.of_before fun _ hname => Table.contains_insert hname head.counter _

/-! ## All sites -/

/-- A node is rendered alike when the sites below it are. -/
theorem Simulation.twin_node [JsonLibrary] (h : Simulation registry iterations relation fits)
    (hrespects : registry.Respects relation) {single : Node}
    (hfits : fits (.node single) left right) (hlevel : left.Level right)
    (hrelated : Variable.Related relation left.bindings right.bindings)
    (hbelow : Site.TwinsBelow registry iterations relation (.node single) left (.node single)
      right) :
    Site.AreTwins registry iterations relation (.node single) left (.node single) right := by
  cases single with
  | print statement => exact h.twin_print hrespects hfits hrelated
  | bind statement => exact h.twin_bind hfits hrelated
  | counter statement => exact h.twin_counter hfits hrelated
  | cond condition children => exact h.twin_cond hfits hlevel hrelated hbelow
  | switch subject children => exact h.twin_switch hfits hlevel hrelated hbelow
  | forRange head children => exact h.twin_range hfits hlevel hrelated hbelow
  | forCount head children => exact h.twin_count hfits hlevel hrelated hbelow
  | onTrue children =>
    have hchildren := hbelow .onTrue .onTrue (.all hlevel) hrelated
    exact hchildren
  | onFalse children =>
    have hchildren := hbelow .onFalse .onFalse (.all hlevel) hrelated
    exact hchildren
  | case test children =>
    have hchildren := hbelow .case .case (.all hlevel) hrelated
    exact hchildren
  | default children =>
    have hchildren := hbelow .default .default (.all hlevel) hrelated
    exact hchildren
  | raw | breakLoop | continueLoop | exit | divider =>
    exact .of_unchanged hrelated rfl rfl rfl rfl

/-- Two runs do the same from matching sites on when every site that they come to together fits. The
induction is on the sites below a site. -/
theorem Simulation.areTwins [JsonLibrary] (h : Simulation registry iterations relation fits)
    (hrespects : registry.Respects relation) {site site' : Site}
    (hmatches : site.Matches relation left site' right)
    (hrelated : Variable.Related relation left.bindings right.bindings)
    (hfits : ∀ last lastLeft lastRight,
      Site.Together registry iterations site left site' right last lastLeft lastRight →
        fits last lastLeft lastRight) :
    Site.AreTwins registry iterations relation site left site' right := by
  induction site using Site.size_wf.induction generalizing left site' right with
  | h site ih =>
    have hbelow : Site.TwinsBelow registry iterations relation site left site' right := by
      intro written written' next next' after after' hcalls hcalls' hmatches' hrelated'
      exact ih next hcalls.size_lt hmatches' hrelated' fun last lastLeft lastRight htogether =>
        hfits last lastLeft lastRight (.step hcalls hcalls' hmatches'.alike htogether)
    have hhere := hfits site left right .here
    cases hmatches with
    | node hlevel => exact h.twin_node hrespects hhere hlevel hrelated hbelow
    | all hlevel => exact Site.twin_all hlevel hrelated hbelow
    | visits hleft hright hbinds => exact Site.twin_visits hleft hright hbinds hrelated hbelow
    | counts hleft hright hbound =>
      exact h.twin_counts hhere hleft hright hbound hrelated hbelow

end Cases

end Stencil
