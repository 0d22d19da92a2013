import Stencil.Json.Strict
import Stencil.Proofs.Render.Exit
import Stencil.Proofs.Render.Obedience
import Stencil.Proofs.Render.Tame

/-!
# Control structures that are unknown

A rendering fails for an unknown control structure only at a divider or when its host does.
`RenderM.Yields` says of a step that the variables stay tame and that a failure is tame, which is to
obey the discipline of tame hosts; formed nodes hold no divider, so that a parsed tree never fails
for an unknown control structure with a tame host (`Tree.formed_of_parse`).
-/

set_option autoImplicit false

namespace Stencil

/-- The code of the failure that a rendering stops at, if it does. -/
def Rendered.code? {α : Type} (outcome : Rendered α) : Option ErrorCode :=
  match outcome.result with
  | .error (.failed failure) => failure.code?
  | _ => none

/-- Whether a stop is no failure or a tame one. -/
def Stop.isTame : Stop → Bool
  | failed failure => failure.isTame
  | exhausted => true

/-- An outcome with tame variables that is a tame stop or has a property. -/
structure Rendered.Yields {α : Type} (property : α → Prop) (outcome : Rendered α) : Prop where
  context : outcome.context.IsTame
  ok : ∀ value, outcome.result = .ok value → property value
  error : ∀ stop, outcome.result = .error stop → stop.isTame = true

/-- A tame outcome is no failure of an unknown control structure. -/
theorem Rendered.Yields.code?_ne {α : Type} {property : α → Prop} {outcome : Rendered α}
    (h : outcome.Yields property) : outcome.code? ≠ some .unknownControl := by
  unfold code?
  split
  · rename_i failure hresult
    simpa [Stop.isTame, Failure.isTame] using h.error _ hresult
  · simp

namespace RenderM

variable {α : Type} {property : α → Prop}

/-- A step whose outcome is as `Rendered.Yields` says when the variables are tame before it. -/
def Yields (property : α → Prop) (step : RenderM α) : Prop :=
  ∀ context : Context, context.IsTame → (step context).Yields property

/-- A step that obeys the discipline of tame hosts is tame. -/
theorem Yields.of_obeys [JsonLibrary] {step : RenderM α} (h : step.Obeys Discipline.tame property) :
    step.Yields property := by
  intro context htame
  have houtcome := h context (Context.isTame_iff.mp htame)
  refine ⟨Context.isTame_iff.mpr houtcome.context, houtcome.ok, ?_⟩
  intro stop hstop
  cases stop with
  | failed failure => exact houtcome.error failure hstop
  | exhausted => rfl

end RenderM

/-- With a tame host no formed nodes fail for an unknown control structure. -/
theorem Node.yields_renderAll [JsonLibrary] {registry : Registry} (iterations : Nat)
    (hregistry : registry.IsTame) (nodes : List Node) (hformed : formedAll nodes = true) :
    (renderAll registry iterations nodes).Yields anything :=
  .of_obeys (obeys_renderAll iterations (Registry.isTame_iff.mp hregistry) nodes hformed
    fun token _ => token.obeys_of_forall fun _ => trivial)

/-- Every parsed tree is well formed: its nodes are those of a body, here and in every construct,
and the parts of conditions and switches stand nowhere else; a break or continue stands inside of a
loop; and no rendering of it with a tame host, in whatever context, fails for an unknown control
structure. -/
theorem Tree.formed_of_parse [JsonLibrary] {keepFormatting : Bool} {text : Bytes} {tree : Tree}
    (h : parse keepFormatting text = .ok tree) :
    Node.isBody tree.nodes = true ∧ Node.formedAll tree.nodes = true ∧
      Node.containedAll false tree.nodes = true ∧
      ∀ (registry : Registry) (iterations : Nat) (context : Context),
        registry.IsTame → context.IsTame →
          (Node.renderAll registry iterations tree.nodes context).code? ≠
            some .unknownControl := by
  obtain ⟨hbody, hformed⟩ := isBody_of_parse h
  refine ⟨hbody, hformed, ?_, ?_⟩
  · exact Node.containedAll_eq_true_iff.mpr (spells_of_parse h).contained
  · intro registry iterations context hregistry hcontext
    exact (Node.yields_renderAll iterations hregistry tree.nodes hformed context hcontext).code?_ne

/-- A region and what follows it. -/
def Source.region (inside : String) (rest : Bytes) : Bytes :=
  Segment.opener ++ (ascii inside ++ (Segment.closer ++ rest))

/-- A counting loop that one branch of a condition leaves, and the other fails in. -/
def Source.guarded : Bytes :=
  region " for i := 0; i < 2; i++ " <| region " if x " <| region " break " <| region " else " <|
    ascii "a" ++ (region "= x " <| region " endif " <| region " endfor " [])

/-- The head of a loop that counts to two. -/
def CountHead.toTwo : CountHead where
  counter := ascii "i"
  init := Operand.parse (ascii "0")
  test := .less
  limit := Operand.parse (ascii "2")
  direction := .increment
  step := 1
  separator := []

/-- The condition that a variable holds anything. -/
def Condition.ofVariable (name : String) : Condition where
  comparison := { left := Operand.parse (ascii name) }

/-- The tree of that template. -/
def Tree.guarded : Tree :=
  ⟨[.forCount .toTwo
    [.cond (.ofVariable "x")
      [.onTrue [.breakLoop],
        .onFalse [.raw (ascii "a"), .print { value := Operand.parse (ascii "x") }]]]]⟩

set_option maxRecDepth 8000 in
/-- The reader reads the template as that tree. -/
theorem Reader.reads_guarded :
    Reads (start Source.guarded)
      { nodes := Tree.guarded.nodes, depth := {}, offset := 91, rest := [] } := by
  let loop : Construct := .loop (.count .toTwo)
  let condition : Construct := .condition (.ofVariable "x")
  have hfor : Statement.parse (ascii " for i := 0; i < 2; i++ ").strip = .ok loop.opening := rfl
  have hif : Statement.parse (ascii " if x ").strip = .ok condition.opening := rfl
  have hbreak : Statement.parse (ascii " break ").strip = .ok .breakLoop := rfl
  have helse : Statement.parse (ascii " else ").strip = .ok .elseMark := rfl
  have hprint : Statement.parse (ascii "= x ").strip =
      .ok (.print { value := Operand.parse (ascii "x") }) := rfl
  have hendIf : Statement.parse (ascii " endif ").strip = .ok .endIf := rfl
  have hendFor : Statement.parse (ascii " endfor ").strip = .ok .endFor := rfl
  let afterEndIf := Source.region " endfor " []
  let afterPrint := Source.region " endif " afterEndIf
  let afterElse := ascii "a" ++ Source.region "= x " afterPrint
  let afterBreak := Source.region " else " afterElse
  let afterIf := Source.region " break " afterBreak
  let afterFor := Source.region " if x " afterIf
  let outer := start Source.guarded
  have hmeetsFor : outer.Meets [] (ascii " for i := 0; i < 2; i++ ") afterFor :=
    ⟨rfl, _, rfl, rfl⟩
  let body := outer.enter loop [] (ascii " for i := 0; i < 2; i++ ") afterFor
  have hmeetsIf : body.Meets [] (ascii " if x ") afterIf := ⟨rfl, _, rfl, rfl⟩
  let branches := body.enter condition [] (ascii " if x ") afterIf
  have hmeetsBreak : branches.Meets [] (ascii " break ") afterBreak := ⟨rfl, _, rfl, rfl⟩
  let divided := branches.pass [] (ascii " break ") afterBreak
  have hmeetsElse : divided.Meets [] (ascii " else ") afterElse := ⟨rfl, _, rfl, rfl⟩
  let other := divided.pass [] (ascii " else ") afterElse
  have hmeetsPrint : other.Meets (ascii "a") (ascii "= x ") afterPrint := ⟨rfl, _, rfl, rfl⟩
  have hmeetsEndIf : (other.pass (ascii "a") (ascii "= x ") afterPrint).Meets []
      (ascii " endif ") afterEndIf := ⟨rfl, _, rfl, rfl⟩
  let inner : Reading :=
    { nodes := [.breakLoop, .divider, .raw (ascii "a"),
        .print { value := Operand.parse (ascii "x") }],
      depth := body.depth, offset := 79, rest := afterEndIf }
  have hmeetsEndFor : (body.after inner).Meets [] (ascii " endfor ") [] := ⟨rfl, _, rfl, rfl⟩
  have hbranches : Reads branches inner := .node hmeetsBreak hbreak rfl
    (.node hmeetsElse helse rfl (.node hmeetsPrint hprint rfl (.ends hmeetsEndIf hendIf rfl)))
  have hbody := Reads.construct hmeetsIf hif rfl hbranches rfl (.ends hmeetsEndFor hendFor rfl)
  exact .construct hmeetsFor hfor rfl hbody rfl (.finish rfl rfl rfl)

/-- The template is parsed as that tree. -/
theorem Tree.parse_guarded : parse true Source.guarded = .ok guarded :=
  parse_of_reads rfl Reader.reads_guarded

/-- A context without variables is tame. -/
theorem Context.isTame_empty : ({} : Context).IsTame := by simp [IsTame, Variable.AllTame]

open scoped JsonLibrary.Strict

/-- A parsed tree with a loop and a condition: it is well formed, and its rendering fails for
another reason. -/
theorem Tree.formed_guarded :
    parse true Source.guarded = .ok guarded ∧ Registry.standard.IsTame ∧
      ({} : Context).IsTame ∧ Node.isBody guarded.nodes = true ∧
      Node.formedAll guarded.nodes = true ∧ Node.containedAll false guarded.nodes = true ∧
      (Node.renderAll Registry.standard 2 guarded.nodes {}).code? ≠ some .unknownControl ∧
      (Node.renderAll Registry.standard 2 guarded.nodes {}).code? = some .emptyArgument := by
  obtain ⟨hbody, hformed, hcontained, hrefused⟩ := formed_of_parse parse_guarded
  exact ⟨parse_guarded, Registry.isTame_standard, Context.isTame_empty, hbody, hformed, hcontained,
    hrefused Registry.standard 2 {} Registry.isTame_standard Context.isTame_empty, rfl⟩

end Stencil
