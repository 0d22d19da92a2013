import Stencil.Json.Strict
import Stencil.Proofs.Render.Steps
import Stencil.Proofs.Template.Grammar

/-!
# Control flow

A parsed template has its break and continue nodes inside loops, so that they never leave the
template; an exit node does, and nothing happens after it. The main statement is
`Tree.flow_of_parse`.
-/

set_option autoImplicit false

namespace Stencil

namespace Node

mutual

/-- Whether every break and continue of a node stands in a loop of the node, or around it. -/
def contained (inLoop : Bool) : Node → Bool
  | breakLoop | continueLoop => inLoop
  | cond _ children | onTrue children | onFalse children | switch _ children | case _ children
  | default children => containedAll inLoop children
  | forRange _ children | forCount _ children => containedAll true children
  | raw _ | print _ | bind _ | counter _ | divider | exit => true

/-- Whether every break and continue of the nodes stands in a loop of theirs, or around them. -/
def containedAll (inLoop : Bool) : List Node → Bool
  | [] => true
  | node :: rest => node.contained inLoop && containedAll inLoop rest

end

/-- Nodes are contained when each of them is. -/
theorem containedAll_eq_true_iff {inLoop : Bool} {nodes : List Node} :
    containedAll inLoop nodes = true ↔ ∀ node ∈ nodes, node.contained inLoop = true := by
  induction nodes with
  | nil => simp [containedAll]
  | cons node rest ih => simp [containedAll, ih]

/-- A contained node stays so when contained nodes are appended to its children. -/
theorem contained_append {inLoop : Bool} {node : Node} {more : List Node}
    (hnode : node.contained inLoop = true) (hmore : ∀ other ∈ more, other.contained inLoop = true) :
    (node.append more).contained inLoop = true := by
  cases node <;> simp_all [append, contained, containedAll_eq_true_iff] <;> grind

end Node

/-- What stands in the body of a construct decides whether the construct is contained. -/
theorem Construct.contained_of_node? {construct : Construct} {nodes : List Node} {node : Node}
    {inLoop : Bool} (hnode : construct.node? nodes = some node)
    (hnodes : ∀ child ∈ nodes,
      child.contained (inLoop || decide (construct.body = .loop)) = true) :
    node.contained inLoop = true := by
  cases construct with
  | condition test =>
    have hchildren : ∀ child ∈ nodes, child.contained inLoop = true := by
      simpa [body] using hnodes
    obtain ⟨hfirst, hothers⟩ := Node.mem_of_mem_splitAtDividers nodes
    obtain ⟨group, hsplit, rfl⟩ | ⟨group, other, hsplit, rfl⟩ := eq_cond_of_node? hnode
    · rw [hsplit] at hfirst
      simp only [Node.contained, Node.containedAll, Node.containedAll_eq_true_iff, Bool.and_true]
      exact fun child hmem => hchildren child (hfirst child hmem)
    · rw [hsplit] at hfirst hothers
      simp only [Node.contained, Node.containedAll, Node.containedAll_eq_true_iff, Bool.and_true,
        Bool.and_eq_true]
      exact ⟨fun child hmem => hchildren child (hfirst child hmem),
        fun child hmem => hchildren child (hothers other (.head _) child hmem)⟩
  | loop head =>
    have hchildren : ∀ child ∈ nodes, child.contained true = true := by
      simpa [body] using hnodes
    cases head <;> (cases hnode; simpa [Node.contained, Node.containedAll_eq_true_iff])
  | switch subject =>
    have hchildren : ∀ child ∈ nodes, child.contained inLoop = true := by
      simpa [body] using hnodes
    have hbranches : ∀ branch ∈ Node.rollUp nodes, branch.contained inLoop = true :=
      Node.forall_mem_rollUp (fun _ _ => Node.contained_append) hchildren
    cases hnode
    simpa [Node.contained, Node.containedAll_eq_true_iff] using hbranches

/-- A statement that leaves a loop is accepted inside of one only. -/
theorem Statement.contained_of_part {statement : Statement} {body : Body} {depth : Depth}
    {node : Node} (h : statement.part body depth = .ok (.node node)) :
    node.contained (depth.loops != 0) = true := by
  cases statement <;> simp [part, mark_part_eq_ok_iff] at h <;>
    grind [Node.contained, Node.containedAll]

/-- Inside a construct there is one more loop when it is one. -/
theorem Depth.loops_enter_ne_zero (depth : Depth) (body : Body) :
    ((depth.enter body).loops != 0) =
      (depth.loops != 0 || decide (body = .loop)) := by
  rw [Bool.eq_iff_iff]
  cases body <;> simp [enter]

/-- The nodes of a body are contained, in the loops that are open around it. -/
theorem Spells.contained {body : Body} {depth : Depth} {segments : List Segment}
    {nodes : List Node} (h : Spells body depth segments nodes) :
    ∀ node ∈ nodes, node.contained (depth.loops != 0) = true := by
  induction h with
  | last raw => exact Node.forall_mem_ofText rfl
  | node hparse hpart hmore ih =>
    rw [List.forall_mem_append, List.forall_mem_cons]
    exact ⟨Node.forall_mem_ofText rfl, Statement.contained_of_part hpart, ih⟩
  | construct hopening hinner hclosing hnode hmore ihinner ihmore =>
    rw [List.forall_mem_append, List.forall_mem_cons]
    rw [Depth.loops_enter_ne_zero] at ihinner
    exact ⟨Node.forall_mem_ofText rfl, Construct.contained_of_node? hnode ihinner, ihmore⟩

/-- The case that a switch chooses is contained when all are. -/
theorem Node.contained_of_chosen? [JsonLibrary] {subject : Operand} {context : Context}
    {nodes chosen : List Node} {inLoop : Bool}
    (h : chosen? subject context nodes = .ok (some chosen))
    (hnodes : containedAll inLoop nodes = true) : containedAll inLoop chosen = true := by
  rw [containedAll_eq_true_iff] at hnodes
  obtain ⟨test, hmem⟩ | hmem := mem_of_chosen? h
  · simpa [contained] using hnodes _ hmem
  · simpa [contained] using hnodes _ hmem

namespace Site

/-- Whether a site is outside of loops and contained there. -/
def isContained : Site → Bool
  | node single => single.contained false
  | all nodes => Node.containedAll false nodes
  | visits .. | counts .. => false

/-- Contained nodes outside of loops end normally or with an interruption. The induction is on the
size of a site; a loop ends so whatever its body does. -/
theorem eq_of_isContained [JsonLibrary] {registry : Registry} {iterations : Nat} {site : Site}
    {context : Context} {flow : Flow} (hsite : site.isContained = true)
    (h : (site.render registry iterations context).result = .ok flow) :
    flow = .done ∨ flow = .interrupt := by
  induction site using size_wf.induction generalizing context with
  | _ site ih =>
    by_cases hflow : flow = .done
    · exact .inl hflow
    cases site with
    | node single =>
      obtain hown | ⟨written, next, after, hcalls, hnext⟩ := exists_calls_of_node h hflow
      · cases single <;> simp_all [Node.flow?, isContained, Node.contained]
      · have hsize := hcalls.size_lt
        cases hcalls with
        | cond hholds hchild =>
          rw [isContained, Node.contained, Node.containedAll_eq_true_iff] at hsite
          exact ih _ hsize (hsite _ (List.mem_of_getElem? hchild)) hnext
        | onTrue | onFalse | case | default =>
          rw [isContained, Node.contained] at hsite
          exact ih _ hsize hsite hnext
        | switch hchosen =>
          rw [isContained, Node.contained] at hsite
          exact ih _ hsize (Node.contained_of_chosen? hchosen hsite) hnext
        -- A loop stops breaks and continues, so nothing is asked of what its body ends with.
        | range hsource helements =>
          rw [render, Node.render, RangeHead.render_of_elements hsource helements] at h
          exact Rendered.eq_of_ofLoop h
        | count hinit =>
          rw [render, Node.render, CountHead.render_of_init hinit] at h
          obtain hdone | ⟨_, _, -, -, -, hinterrupt, -⟩ := CountHead.eq_done_of_run h
          · exact .inl hdone
          · exact .inr hinterrupt
    | all nodes =>
      obtain ⟨written, next, after, hcalls, hnext⟩ := exists_calls_of_all h hflow
      have hsize := hcalls.size_lt
      cases hcalls with
      | first =>
        rw [isContained, Node.containedAll, Bool.and_eq_true] at hsite
        exact ih _ hsize hsite.1 hnext
      | next hdone =>
        rw [isContained, Node.containedAll, Bool.and_eq_true] at hsite
        exact ih _ hsize hsite.2 hnext
    | visits head inspector slot children elements => simp [isContained] at hsite
    | counts head slot children left counter => simp [isContained] at hsite

/-- What is interrupted has come to an exit node. The induction is on the size of a site. -/
theorem exists_executes_of_interrupt [JsonLibrary] {registry : Registry} {iterations : Nat}
    {site : Site} {context : Context}
    (h : (site.render registry iterations context).result = .ok .interrupt) :
    ∃ written atExit, Executes registry iterations site context written atExit := by
  induction site using size_wf.induction generalizing context with
  | _ site ih =>
    have hstep : site = node .exit ∨ ∃ written next after,
        Calls registry iterations site context written next after ∧
          (next.render registry iterations after).result = .ok .interrupt := by
      cases site with
      | node single =>
        obtain hown | hcalls := exists_calls_of_node h (by simp)
        · cases single <;> simp_all [Node.flow?]
        · exact .inr hcalls
      | all nodes => exact .inr (exists_calls_of_all h (by simp))
      | visits head inspector slot children elements =>
        exact .inr (exists_calls_of_visits h (by simp))
      | counts head slot children left counter => exact .inr (exists_calls_of_counts h (by simp))
    obtain rfl | ⟨written, next, after, hcalls, hnext⟩ := hstep
    · exact ⟨_, _, .exit⟩
    · obtain ⟨more, atExit, hexecutes⟩ := ih next hcalls.size_lt hnext
      exact ⟨_, _, .step hcalls hexecutes⟩

end Site

/-- Control flow never escapes. The rendering of a parsed template, from any context and with any
registry, ends normally or with an interruption when it ends; it is interrupted exactly when an exit
node is executed; and what has been written and what the variables are when an exit node is
executed, anywhere in the template, is what has been written and what they are at the end. -/
theorem Tree.flow_of_parse [JsonLibrary] {keepFormatting : Bool} {text : Bytes} {tree : Tree}
    (h : Tree.parse keepFormatting text = .ok tree) (registry : Registry) (iterations : Nat)
    (context : Context) :
    (∀ flow, (Node.renderAll registry iterations tree.nodes context).result = .ok flow →
      flow = .done ∨ flow = .interrupt) ∧
    ((Node.renderAll registry iterations tree.nodes context).result = .ok .interrupt ↔
      ∃ written atExit,
        Site.Executes registry iterations (.all tree.nodes) context written atExit) ∧
    (∀ written atExit,
      Site.Executes registry iterations (.all tree.nodes) context written atExit →
        (Node.renderAll registry iterations tree.nodes context).written = written ∧
        (Node.renderAll registry iterations tree.nodes context).context.bindings =
          atExit.bindings) := by
  -- Break and continue are accepted only while a loop is open, and none is open at the start.
  have hcontained : (Site.all tree.nodes).isContained = true :=
    Node.containedAll_eq_true_iff.mpr (Tree.spells_of_parse h).contained
  refine ⟨?_, ⟨?_, ?_⟩, ?_⟩
  · intro flow hflow
    exact Site.eq_of_isContained hcontained hflow
  · intro hresult
    exact Site.exists_executes_of_interrupt hresult
  · rintro ⟨written, atExit, hexecutes⟩
    exact hexecutes.interrupted.result
  · intro written atExit hexecutes
    exact ⟨hexecutes.interrupted.written, hexecutes.interrupted.bindings⟩

/-- A template with an exit in a branch of a switch. -/
def Source.leaving : Bytes :=
  ascii "a{% switch x %}{% default %}b{% exit %}c{% endswitch %}d"

/-- The tree of that template. -/
def Tree.leaving : Tree :=
  ⟨[.raw (ascii "a"),
    .switch (Operand.parse (ascii "x"))
      [.default [.raw (ascii "b"), .exit, .raw (ascii "c")]],
    .raw (ascii "d")]⟩

set_option maxRecDepth 4000 in
/-- The reader reads the template as that tree. -/
theorem Reader.reads_leaving :
    Reads (start Source.leaving)
      { nodes := Tree.leaving.nodes, depth := {}, offset := 56, rest := [] } := by
  let subject := Operand.parse (ascii "x")
  have hswitch : Statement.parse (ascii " switch x ").strip =
      .ok (Construct.switch subject).opening := rfl
  have hdefault : Statement.parse (ascii " default ").strip = .ok .defaultMark := rfl
  have hexit : Statement.parse (ascii " exit ").strip = .ok .exit := rfl
  have hend : Statement.parse (ascii " endswitch ").strip = .ok .endSwitch := rfl
  let outer := start Source.leaving
  let afterSwitch := ascii "{% default %}b{% exit %}c{% endswitch %}d"
  let afterDefault := ascii "b{% exit %}c{% endswitch %}d"
  let afterExit := ascii "c{% endswitch %}d"
  have hmeets : outer.Meets (ascii "a") (ascii " switch x ") afterSwitch := ⟨rfl, _, rfl, rfl⟩
  let body := outer.enter (.switch subject) (ascii "a") (ascii " switch x ") afterSwitch
  have hmeetsDefault : body.Meets [] (ascii " default ") afterDefault := ⟨rfl, _, rfl, rfl⟩
  let branch := body.pass [] (ascii " default ") afterDefault
  have hmeetsExit : branch.Meets (ascii "b") (ascii " exit ") afterExit := ⟨rfl, _, rfl, rfl⟩
  have hmeetsEnd : (branch.pass (ascii "b") (ascii " exit ") afterExit).Meets (ascii "c")
      (ascii " endswitch ") (ascii "d") := ⟨rfl, _, rfl, rfl⟩
  have hbody := Reads.node hmeetsDefault hdefault rfl
    (.node hmeetsExit hexit rfl (.ends hmeetsEnd hend rfl))
  exact .construct hmeets hswitch rfl hbody rfl (.finish rfl rfl rfl)

/-- The template is parsed as that tree. -/
theorem Tree.parse_leaving : parse true Source.leaving = .ok leaving :=
  parse_of_reads rfl Reader.reads_leaving

/-- The rendering of `Tree.leaving` comes to its exit node. -/
theorem Tree.executes_leaving [JsonLibrary] :
    Site.Executes {} 0 (.all leaving.nodes) {} (ascii "ab") {} :=
  .step (.next rfl) <| .step .first <| .step (.switch rfl) <| .step (.next rfl) <|
    .step .first .exit

open scoped JsonLibrary.Strict

/-- The rendering of a template that executes an exit node is interrupted there. -/
theorem Tree.flow_leaving :
    parse true Source.leaving = .ok leaving ∧
      (Node.renderAll {} 0 leaving.nodes {}).result = .ok .interrupt ∧
      (Node.renderAll {} 0 leaving.nodes {}).written = ascii "ab" :=
  have hflow := flow_of_parse parse_leaving {} 0 {}
  ⟨parse_leaving, hflow.2.1.mpr ⟨_, _, executes_leaving⟩, (hflow.2.2 _ _ executes_leaving).1⟩

end Stencil
