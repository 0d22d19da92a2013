import Stencil.Builtins
import Stencil.Json.Strict
import Stencil.Proofs.Render.Course
import Stencil.Proofs.Render.IfChain
import Stencil.Proofs.Template.Markup
import Stencil.Proofs.Template.Print

/-!
# Literals from source to output

A template that writes a literal writes the text that the literal is of, whatever bytes it holds and
wherever the literal stands: as a value, as an argument, around a value, in a variable, or between
the elements of a loop (`Source.renders_literals`). What the statements are read as is in
`Stencil.Proofs.Template.Literal`; this file renders them.
-/

set_option autoImplicit false

namespace Stencil

/-- A text is a template, whether its formatting is kept or not, and renders to a given text. -/
def Source.Renders [JsonLibrary] (registry : Registry) (context : Context) (text out : Bytes) :
    Prop :=
  ∀ keepFormatting, ∃ tree, Tree.parse keepFormatting text = .ok tree ∧
    (tree.render registry context).written = out ∧
    (tree.render registry context).result = .ok .done

/-- A template renders what its nodes render, whatever number of iterations they are given. -/
theorem Source.renders_of_parse [JsonLibrary] {registry : Registry} {context : Context}
    {text out : Bytes} {tree : Tree}
    (hparse : ∀ keepFormatting, Tree.parse keepFormatting text = .ok tree)
    (hrender : ∀ iterations,
      (Node.renderAll registry iterations tree.nodes context).written = out ∧
        (Node.renderAll registry iterations tree.nodes context).result = .ok .done) :
    Renders registry context text out :=
  fun keepFormatting => ⟨tree, hparse keepFormatting, hrender Node.defaultIterations⟩

/-- A settled text that is read to its end is rendered as the nodes that it is read as. -/
theorem Source.renders_of_reads [JsonLibrary] {registry : Registry} {context : Context}
    {text out : Bytes} {reading : Reading} (hsettled : IsSettled text)
    (hreads : Reads (Reader.start text) reading)
    (hrender : ∀ iterations,
      (Node.renderAll registry iterations reading.nodes context).written = out ∧
        (Node.renderAll registry iterations reading.nodes context).result = .ok .done) :
    Renders registry context text out :=
  renders_of_parse (Tree.parse_of_isSettled hsettled hreads) hrender

/-! ## Rendering the statements -/

/-- A print statement whose value comes out of its modifiers as a text. -/
theorem Print.render_of_applyAll [JsonLibrary] {registry : Registry} {value : Operand}
    {modifiers : List ModifierCall} (before after : Bytes) {text : Bytes} {context : Context}
    (hvalue : ModifierCall.applyAll registry modifiers (context.resolve value) context =
      { written := [], context, result := .ok (.str text) }) (htext : text ≠ []) :
    render registry { value, before, after, modifiers } context =
      { written := before ++ (text ++ after), context, result := .ok .done } := by
  have hblank : (Json.str text).isBlank = false := by simpa [Json.isBlank] using htext
  rw [render, RenderM.context_bind, RenderM.bind_of_ok (by rw [hvalue]), hvalue]
  simp only [hblank, Bool.false_eq_true, if_false]
  show (⟨[] ++ (before ++ ([] ++ ((text ++ after) ++ []))), context, .ok .done⟩ : Rendered Flow) = _
  rw [List.nil_append, List.nil_append, List.append_nil]

/-- A print statement without modifiers whose value is a text. -/
theorem Print.render_of_text [JsonLibrary] (registry : Registry) {value : Operand}
    (before after : Bytes) {text : Bytes} {context : Context}
    (hvalue : context.resolve value = .str text) (htext : text ≠ []) :
    render registry { value, before, after } context =
      { written := before ++ (text ++ after), context, result := .ok .done } :=
  render_of_applyAll before after (by rw [hvalue]; rfl) htext

/-- A name without a dot finds the variable that it names. -/
theorem Context.find?_of_notMem (context : Context) {name : Bytes} (hname : Byte.dot ∉ name) :
    context.find? name = (context.bindings.find? name).map Variable.value := by
  rw [find?, Variable.lookUp_of_notMem _ hname]

/-- The built-in default of nothing is the argument. -/
theorem ModifierCall.applyAll_default {registry : Registry}
    (hdefault : registry.modifiers.find? (ascii "default") =
      some (Modifier.ofFunction Modifier.applyDefault)) (s : Bytes) (context : Context) :
    applyAll registry [{ name := ascii "default", args := [Operand.ofText s] }] .null context =
      { written := [], context, result := .ok (.str s) } := by
  rw [applyAll, hdefault]
  rfl

/-! ## Templates of one region -/

/-- A text that ends in a literal ends in a quote. -/
theorem Quoted.getLast?_append_encode (words s : Bytes) :
    (words ++ encode s).getLast?.map Bytes.isGap = some false := by
  rw [List.getLast?_append, getLast?_encode]
  rfl

/-- The inside of a region with blanks around it is read like the words without them. -/
theorem Statement.parse_strip (lead words : Bytes) {statement : Statement}
    (hlead : lead.all Bytes.isGap = true) (hfirst : words.head?.map Bytes.isGap = some false)
    (hlast : words.getLast?.map Bytes.isGap = some false) (hparse : parse words = .ok statement) :
    parse (lead ++ words ++ ascii " ").strip = .ok statement := by
  rw [Bytes.strip_append lead words (ascii " ") hlead rfl hfirst hlast, hparse]

/-- A space behind a statement is stripped before it is read. -/
theorem Statement.parse_strip_end (words : Bytes) {statement : Statement}
    (hfirst : words.head?.map Bytes.isGap = some false)
    (hlast : words.getLast?.map Bytes.isGap = some false) (hparse : parse words = .ok statement) :
    parse (words ++ ascii " ").strip = .ok statement :=
  parse_strip [] words rfl hfirst hlast hparse

/-- A region that is a print statement by itself. -/
theorem Source.renders_print [JsonLibrary] {registry : Registry} {context : Context}
    {inside out : Bytes} {statement : Print} (hplain : IsPlain inside)
    (hparse : Statement.parse inside.strip = .ok (.print statement))
    (hrender : statement.render registry context =
      { written := out, context, result := .ok .done }) :
    Renders registry context (markup inside) out := by
  refine renders_of_reads (.markup hplain) (.markup_node rfl (List.append_nil _).symm hplain hparse
    rfl (.end_of_template rfl rfl)) fun iterations => ?_
  rw [Node.renderAll_singleton, Node.render, hrender]
  exact ⟨rfl, rfl⟩

section Templates

variable {registry : Registry} {context : Context}

/-- A printed literal writes what it quotes. -/
theorem Source.renders_value [JsonLibrary] {s : Bytes} (hs : s ≠ []) :
    Renders registry context (markup (ascii "= " ++ Quoted.encode s ++ ascii " ")) s := by
  have hrender : Print.render registry { value := Operand.ofText s } context =
      { written := s, context, result := .ok .done } := by
    have hvalue : context.resolve (Operand.ofText s) = .str s := rfl
    rw [Print.render_of_text registry [] [] hvalue hs, List.nil_append, List.append_nil]
  refine renders_print ?_ ?_ hrender
  · exact ((IsPlain.of_notMem (by decide)).append (.encode s)).append (.of_notMem (by decide))
  · exact Statement.parse_strip_end _ rfl (Quoted.getLast?_append_encode _ s)
      (Print.parse_literal s)

/-- Where nothing is bound, the default writes the literal that is its argument. -/
theorem Source.renders_default [JsonLibrary]
    (hdefault : registry.modifiers.find? (ascii "default") =
      some (Modifier.ofFunction Modifier.applyDefault)) {s : Bytes} (hs : s ≠ [])
    (hunbound : context.bindings.find? (ascii "x") = none) :
    Renders registry context
      (markup (ascii "= x|default(" ++ Quoted.encode s ++ ascii ")" ++ ascii " ")) s := by
  have hvalue : context.resolve (Operand.parse (ascii "x")) = .null := by
    have hfind := context.find?_of_notMem (show Byte.dot ∉ ascii "x" by decide)
    rw [hunbound] at hfind
    show (context.find? (ascii "x")).getD .null = _
    rw [hfind]
    rfl
  have happly := ModifierCall.applyAll_default hdefault s context
  rw [← hvalue] at happly
  have hrender := Print.render_of_applyAll [] [] happly hs
  rw [List.nil_append, List.append_nil] at hrender
  refine renders_print ?_ ?_ hrender
  · exact (((IsPlain.of_notMem (by decide)).append (.encode s)).append
      (.of_notMem (by decide))).append (.of_notMem (by decide))
  · exact Statement.parse_strip_end _ rfl (by rw [List.getLast?_append]; rfl)
      (Print.parse_default s)

/-- The literals of the two clauses are written around the value. -/
theorem Source.renders_clauses [JsonLibrary] (s t : Bytes) {v : Bytes} (hv : v ≠ [])
    (hbound : context.find? (ascii "x") = some (.str v)) :
    Renders registry context
      (markup (ascii "= x prefix " ++ Quoted.encode s ++ ascii " suffix " ++ Quoted.encode t ++
        ascii " ")) (s ++ v ++ t) := by
  have hvalue : context.resolve (Operand.parse (ascii "x")) = .str v := by
    show (context.find? (ascii "x")).getD .null = _
    rw [hbound]
    rfl
  have hrender : Print.render registry
      { value := Operand.parse (ascii "x"), before := s, after := t } context =
      { written := s ++ v ++ t, context, result := .ok .done } := by
    rw [Print.render_of_text registry s t hvalue hv, List.append_assoc]
  refine renders_print ?_ ?_ hrender
  · exact ((((IsPlain.of_notMem (by decide)).append (.encode s)).append
      (.of_notMem (by decide))).append (.encode t)).append (.of_notMem (by decide))
  · have hparse := Print.parse_clauses s t
    rw [← List.append_assoc, ← List.append_assoc] at hparse
    exact Statement.parse_strip_end _ rfl (Quoted.getLast?_append_encode _ t) hparse

/-! ## Templates of several regions -/

/-- A literal bound to a variable through the general inspector. -/
theorem Binding.render_literal [JsonLibrary] {registry : Registry}
    (hjson : registry.inspectors.find? Inspector.json.name = some Inspector.json)
    (context : Context) (target : Bytes) {literal : Operand} (hstatic : literal.isStatic = true) :
    render registry { target, source := literal } context =
      { written := [], context := context.assign target literal.literal Inspector.json,
        result := .ok .done } := by
  have hevaluate : evaluate registry context { target, source := literal } =
      .ok { value := literal.literal, inspector := Inspector.json } := by
    rw [evaluate]
    simp only [hstatic, if_true]
    rw [Variable.bound, Inspector.ofKind?]
    simp only [List.isEmpty_nil, if_true, hjson]
    rfl
  rw [render, RenderM.context_bind, hevaluate]
  rfl

/-- A text bound to a variable through the general inspector. -/
theorem Binding.render_of_text [JsonLibrary] {registry : Registry}
    (hjson : registry.inspectors.find? Inspector.json.name = some Inspector.json)
    (context : Context) (target s : Bytes) :
    render registry { target, source := Operand.ofText s } context =
      { written := [], context := context.assign target (.str s) Inspector.json,
        result := .ok .done } :=
  render_literal hjson context target rfl

/-- A variable that is bound to a literal and printed writes what was quoted. -/
theorem Source.renders_bound [JsonLibrary]
    (hjson : registry.inspectors.find? Inspector.json.name = some Inspector.json) {s : Bytes}
    (hs : s ≠ []) :
    Renders registry context
      (markup (ascii " context y = " ++ Quoted.encode s ++ ascii " ") ++ markup (ascii "= y "))
      s := by
  have hplain : IsPlain (ascii " context y = " ++ Quoted.encode s ++ ascii " ") :=
    ((IsPlain.of_notMem (by decide)).append (.encode s)).append (.of_notMem (by decide))
  have hplain' : IsPlain (ascii "= y ") := .of_notMem (by decide)
  have hparse := Statement.parse_strip (ascii " ") (ascii "context y = " ++ Quoted.encode s) rfl rfl
    (Quoted.getLast?_append_encode _ s) (Binding.parse_literal s)
  have hparse' : Statement.parse (ascii "= y ").strip =
      .ok (.print { value := Operand.parse (ascii "y") }) := rfl
  have hreads : Reads (Reader.start (markup _ ++ markup (ascii "= y "))) _ :=
    .markup_node rfl rfl hplain hparse rfl
      (.markup_node rfl (List.append_nil _).symm hplain' hparse' rfl (.end_of_template rfl rfl))
  refine renders_of_reads (.append (.markup hplain) (.markup hplain')) hreads fun iterations => ?_
  have hbind := Binding.render_of_text hjson context (ascii "y") s
  rw [Node.renderAll_of_done (by rw [Node.render, hbind]), Node.render, hbind,
    Node.renderAll_singleton, Node.render]
  have hvalue : (context.assign (ascii "y") (.str s) Inspector.json).resolve
      (Operand.parse (ascii "y")) = .str s := by
    show (Context.find? _ (ascii "y")).getD .null = _
    rw [Context.find?_of_notMem _ (by decide)]
    simp [Context.assign]
  have hprint := Print.render_of_text registry [] [] hvalue hs
  rw [List.nil_append, List.append_nil] at hprint
  simp only
  rw [hprint]
  exact ⟨rfl, rfl⟩

/-- A loop whose body writes a text of each element and does nothing else. -/
theorem RangeHead.courseOver_of_texts {head : RangeHead} {inspector : Inspector}
    {body : Table Variable → Effect Flow} (text : Json × Json → Bytes)
    {elements : List (Json × Json)}
    (hbody : ∀ element ∈ elements, ∀ bindings,
      (body (head.bindElement inspector element bindings)).written = text element ∧
        (body (head.bindElement inspector element bindings)).result = .ok .done)
    (bindings : Table Variable) :
    (head.courseOver inspector body elements bindings).texts = elements.map text ∧
      (head.courseOver inspector body elements bindings).result = .ok .done := by
  induction elements generalizing bindings with
  | nil => exact ⟨rfl, rfl⟩
  | cons element rest ih =>
    obtain ⟨hwritten, hresult⟩ := hbody element (.head _) bindings
    obtain ⟨htexts, hended⟩ := ih (fun other hmem => hbody other (.tail _ hmem))
      (body (head.bindElement inspector element bindings)).bindings
    have hgoes : (body (head.bindElement inspector element bindings)).goesOn = true := by
      simp [Effect.goesOn, hresult, Flow.stopsLoop]
    rw [courseOver, hgoes]
    simp only [if_true]
    exact ⟨List.cons_eq_cons.mpr ⟨hwritten, htexts⟩, hended⟩

/-- The head of a loop over the items, with a separator. -/
def RangeHead.overItems (separator : Bytes) : RangeHead where
  key := []
  value := ascii "v"
  source := ascii "items"
  separator := separator

/-- The text of an element that is one. -/
def RangeHead.elementText (element : Json × Json) : Bytes :=
  match element.2 with
  | .str text => text
  | _ => []

/-- A loop over an array of strings writes the strings. -/
theorem RangeHead.elementText_sequenceElements (items : List Bytes) :
    (Json.arr (items.map .str)).sequenceElements.map elementText = items := by
  have hvalue : ((fun value => elementText (.null, value)) ∘ Json.str) = id := rfl
  rw [Json.sequenceElements, List.map_map]
  show (items.map Json.str).zipIdx.map ((fun value => elementText (.null, value)) ∘ Prod.fst) =
    items
  rw [← List.map_map, List.zipIdx_map_fst, List.map_map, hvalue, List.map_id]

/-- An element of an array of texts is one of the texts. -/
theorem RangeHead.exists_item_of_mem {items : List Bytes} {element : Json × Json}
    (h : element ∈ (Json.arr (items.map .str)).sequenceElements) :
    ∃ item ∈ items, element.2 = .str item := by
  simp only [Json.sequenceElements, List.mem_map] at h
  obtain ⟨⟨value, index⟩, hmem, rfl⟩ := h
  have hvalue : value ∈ items.map Json.str := List.fst_mem_of_mem_zipIdx hmem
  obtain ⟨item, hitem, rfl⟩ := List.mem_map.mp hvalue
  exact ⟨item, hitem, rfl⟩

/-- A loop over texts that prints each of them joins them. -/
theorem RangeHead.render_overItems [JsonLibrary] (iterations : Nat) (s : Bytes)
    {items : List Bytes} {inspector : Inspector}
    (hbounds : context.arena.InBounds) (hitems : ∀ item ∈ items, item ≠ [])
    (hbound : context.bindings.find? (ascii "items") =
      some { value := .arr (items.map .str), inspector })
    (helements : inspector.elements (.arr (items.map .str)) =
      .ok (Json.arr (items.map .str)).sequenceElements) :
    let outcome := Node.renderAll registry iterations
      [.forRange (.overItems s) [.print { value := Operand.parse (ascii "v") }]] context
    outcome.written = s.intercalate items ∧ outcome.result = .ok .done := by
  intro outcome
  let nodes : List Node := [.print { value := Operand.parse (ascii "v") }]
  let body := Node.renderAll registry iterations nodes
  have hbody : ∀ element ∈ (Json.arr (items.map .str)).sequenceElements, ∀ bindings,
      (body.effectOn ((overItems s).bindElement inspector element bindings)).written =
          elementText element ∧
        (body.effectOn ((overItems s).bindElement inspector element bindings)).result =
          .ok .done := by
    intro element hmem bindings
    obtain ⟨item, hitem, htext⟩ := exists_item_of_mem hmem
    have hvalue : Context.resolve
        { bindings := (overItems s).bindElement inspector element bindings }
        (Operand.parse (ascii "v")) = .str item := by
      show (Context.find? _ (ascii "v")).getD .null = _
      rw [Context.find?_of_notMem _ (by decide)]
      simp [bindElement, overItems, htext]
    have hprint := Print.render_of_text registry [] [] hvalue
      (hitems item hitem)
    have hbody : body.effectOn ((overItems s).bindElement inspector element bindings) =
        (Rendered.effect (Print.render registry { value := Operand.parse (ascii "v") }
          { bindings := (overItems s).bindElement inspector element bindings })) := by
      show Rendered.effect (Node.renderAll _ _ _ _) = _
      rw [Node.renderAll_singleton, Node.render]
    rw [hbody, hprint]
    simp [Rendered.effect, elementText, htext]
  have heffect := (overItems s).effect_render
    (Node.steady_renderAll registry iterations nodes) hbounds
  obtain ⟨hwritten, -, hresult⟩ := Rendered.effect_eq_iff.mp heffect
  obtain ⟨hjoined, hended⟩ := courseOver_of_texts elementText hbody context.bindings
  have hlookUp : Variable.lookUp context.bindings (overItems s).source =
      (some { value := .arr (items.map .str), inspector }, some (.arr (items.map .str))) := by
    show Variable.lookUp _ (ascii "items") = _
    rw [Variable.lookUp_of_notMem _ (by decide), hbound]
    rfl
  simp only [course, hlookUp, helements] at hwritten hresult
  have hrender : outcome = (overItems s).render body context := by
    show Node.renderAll _ _ _ _ = _
    rw [Node.renderAll_singleton, Node.render]
  rw [hrender, hwritten, hresult]
  simp only [Course.effect]
  rw [hjoined, elementText_sequenceElements, hended]
  exact ⟨rfl, rfl⟩

/-- The literal of a separator clause is written between the elements. -/
theorem Source.renders_joined [JsonLibrary] (s : Bytes) {items : List Bytes} {inspector : Inspector}
    (hbounds : context.arena.InBounds) (hitems : ∀ item ∈ items, item ≠ [])
    (hbound : context.bindings.find? (ascii "items") =
      some { value := .arr (items.map .str), inspector })
    (helements : inspector.elements (.arr (items.map .str)) =
      .ok (Json.arr (items.map .str)).sequenceElements) :
    Renders registry context
      (markup (ascii " for v := range items sep " ++ Quoted.encode s ++ ascii " ") ++
        (markup (ascii "= v ") ++ markup (ascii " endfor "))) (s.intercalate items) := by
  have hplainFor : IsPlain (ascii " for v := range items sep " ++ Quoted.encode s ++ ascii " ") :=
    ((IsPlain.of_notMem (by decide)).append (.encode s)).append (.of_notMem (by decide))
  have hplainPrint : IsPlain (ascii "= v ") := .of_notMem (by decide)
  have hplainEnd : IsPlain (ascii " endfor ") := .of_notMem (by decide)
  have hparseFor := Statement.parse_strip (ascii " ")
    (ascii "for v := range items sep " ++ Quoted.encode s) rfl rfl
    (Quoted.getLast?_append_encode _ s) (LoopHead.parse_separator s)
  have hparsePrint : Statement.parse (ascii "= v ").strip =
      .ok (.print { value := Operand.parse (ascii "v") }) := rfl
  have hparseEnd : Statement.parse (ascii " endfor ").strip = .ok .endFor := rfl
  let opening := ascii " for v := range items sep " ++ Quoted.encode s ++ ascii " "
  let body := markup (ascii "= v ") ++ markup (ascii " endfor ")
  let loop : Construct := .loop (.range (.overItems s))
  have hmeets : (Reader.start (markup opening ++ body)).Meets [] opening body :=
    .markup rfl rfl hplainFor
  have hinner : Reads ((Reader.start (markup opening ++ body)).enter loop [] opening body) _ :=
    .markup_node rfl rfl hplainPrint hparsePrint rfl
      (.ends (.markup rfl (List.append_nil _).symm hplainEnd) hparseEnd rfl)
  have hreads := Reads.construct hmeets hparseFor rfl hinner rfl (.end_of_template rfl rfl)
  have hsettled : IsSettled (markup _ ++ (markup (ascii "= v ") ++ markup (ascii " endfor "))) :=
    .append (.markup hplainFor) (.append (.markup hplainPrint) (.markup hplainEnd))
  exact renders_of_reads hsettled hreads fun iterations =>
    RangeHead.render_overItems iterations s hbounds hitems hbound helements

end Templates

/-- Literals carry every text unchanged from source to output, whether the formatting of the
template is kept or not: as the value of a print statement and as the argument of the default
modifier, when the text is not empty, as the prefix and the suffix of a value, as the source of a
context statement, and as the separator of a loop over texts. -/
theorem Source.renders_literals [JsonLibrary] (registry : Registry)
    (hdefault : registry.modifiers.find? (ascii "default") =
      some (Modifier.ofFunction Modifier.applyDefault))
    (hjson : registry.inspectors.find? Inspector.json.name = some Inspector.json)
    (context : Context) (s t : Bytes) :
    (s ≠ [] → Renders registry context (markup (ascii "= " ++ Quoted.encode s ++ ascii " ")) s) ∧
    (s ≠ [] → context.bindings.find? (ascii "x") = none →
      Renders registry context
        (markup (ascii "= x|default(" ++ Quoted.encode s ++ ascii ")" ++ ascii " ")) s) ∧
    (∀ v, v ≠ [] → context.find? (ascii "x") = some (.str v) →
      Renders registry context
        (markup (ascii "= x prefix " ++ Quoted.encode s ++ ascii " suffix " ++ Quoted.encode t ++
          ascii " ")) (s ++ v ++ t)) ∧
    (s ≠ [] →
      Renders registry context
        (markup (ascii " context y = " ++ Quoted.encode s ++ ascii " ") ++ markup (ascii "= y "))
        s) ∧
    (∀ (items : List Bytes) (inspector : Inspector), context.arena.InBounds →
      (∀ item ∈ items, item ≠ []) →
      context.bindings.find? (ascii "items") =
        some { value := .arr (items.map .str), inspector } →
      inspector.elements (.arr (items.map .str)) =
        .ok (Json.arr (items.map .str)).sequenceElements →
      Renders registry context
        (markup (ascii " for v := range items sep " ++ Quoted.encode s ++ ascii " ") ++
          (markup (ascii "= v ") ++ markup (ascii " endfor "))) (s.intercalate items)) :=
  ⟨renders_value, renders_default hdefault, fun _ => renders_clauses s t, renders_bound hjson,
    fun _ _ => renders_joined s⟩

/-- Every byte that a scanner of the markup pays attention to, and two more. -/
def Bytes.troublesome : Bytes :=
  [Byte.percent, Byte.closeBrace, Byte.openBrace, 0x23, Byte.doubleQuote, Byte.apostrophe,
    Byte.backslash, Byte.newline, Byte.carriageReturn, Byte.tab, Byte.openParen, Byte.closeParen,
    Byte.bar, Byte.comma, Byte.space, 0x00, 0xff]

open scoped JsonLibrary.Strict

/-- The literals of a troublesome text, in a context without variables and in one with the variable
and the items. -/
theorem Source.renders_troublesome :
    let s := Bytes.troublesome
    let context : Context :=
      { bindings := [(ascii "x", { value := .str (ascii "v"), inspector := .scalar }),
          (ascii "items", { value := .arr [.str (ascii "a"), .str s], inspector := .json })] }
    Renders Registry.standard {} (markup (ascii "= " ++ Quoted.encode s ++ ascii " ")) s ∧
    Renders Registry.standard {}
      (markup (ascii "= x|default(" ++ Quoted.encode s ++ ascii ")" ++ ascii " ")) s ∧
    Renders Registry.standard context
      (markup (ascii "= x prefix " ++ Quoted.encode s ++ ascii " suffix " ++ Quoted.encode s ++
        ascii " ")) (s ++ ascii "v" ++ s) ∧
    Renders Registry.standard context
      (markup (ascii " context y = " ++ Quoted.encode s ++ ascii " ") ++ markup (ascii "= y ")) s ∧
    Renders Registry.standard context
      (markup (ascii " for v := range items sep " ++ Quoted.encode s ++ ascii " ") ++
        (markup (ascii "= v ") ++ markup (ascii " endfor "))) (ascii "a" ++ s ++ s) := by
  intro s context
  obtain ⟨hvalue, hargument, -, -, -⟩ :=
    renders_literals Registry.standard rfl rfl {} s s
  obtain ⟨-, -, hclauses, hbound, hjoined⟩ :=
    renders_literals Registry.standard rfl rfl context s s
  exact ⟨hvalue (by decide), hargument (by decide) rfl, hclauses _ (by decide) rfl,
    hbound (by decide),
    hjoined [ascii "a", s] .json LoopArena.inBounds_empty (by decide) rfl rfl⟩

end Stencil
