import Stencil.Proofs.Template.Reading
import Stencil.Proofs.Tree.Grouping
import Stencil.Template.Parse

/-!
# The grammar of templates

`Spells` says which segments are the body of a construct, or the whole of a template, and which
nodes they are. It speaks of segments only, so that a fact about what is accepted needs no offsets
and no bytes. `Reads.spells` finds the grammar in what a reader has read.
-/

set_option autoImplicit false

namespace Stencil

/-- The statement that ends a body; that of the template has none. -/
def Body.terminator? : Body → Option Statement
  | .template => none
  | .condition => some .endIf
  | .loop => some .endFor
  | .switch => some .endSwitch

namespace Node

/-- What holds of the node of a raw text holds of all nodes that the text makes. -/
theorem forall_mem_ofText {p : Node → Prop} {raw : Bytes} (h : p (.raw raw)) :
    ∀ node ∈ ofText raw, p node := by
  intro node hmem
  by_cases hraw : raw.isEmpty = true
  · simp [ofText, hraw] at hmem
  · obtain rfl : node = .raw raw := by simpa [ofText, hraw] using hmem
    exact h

/-- The groups that dividers make are stretches of the list, without dividers. -/
theorem isInfix_splitAtDividers (nodes : List Node) :
    ((splitAtDividers nodes).1 <+: nodes ∧ ∀ node ∈ (splitAtDividers nodes).1, node ≠ divider) ∧
      ∀ group ∈ (splitAtDividers nodes).2, group <:+: nodes ∧ ∀ node ∈ group, node ≠ divider := by
  have hdivides := divides_splitAtDividers nodes
  have hdividers : ∀ group ∈ (splitAtDividers nodes).1 :: (splitAtDividers nodes).2,
      ∀ node ∈ group, node ≠ divider := fun group hgroup _ hmem =>
    ne_of_mem_of_not_mem hmem (hdivides.divider_notMem group hgroup)
  exact ⟨⟨⟨_, hdivides.eq_append.symm⟩, hdividers _ (.head _)⟩, fun group hgroup =>
    ⟨hdivides.isInfix hgroup, hdividers group (.tail _ hgroup)⟩⟩

/-- The groups that dividers make hold nodes of the list only. -/
theorem mem_of_mem_splitAtDividers (nodes : List Node) :
    (∀ node ∈ (splitAtDividers nodes).1, node ∈ nodes) ∧
      ∀ group ∈ (splitAtDividers nodes).2, ∀ node ∈ group, node ∈ nodes := by
  obtain ⟨⟨hinitial, -⟩, hgroups⟩ := isInfix_splitAtDividers nodes
  exact ⟨fun _ hmem => hinitial.subset hmem, fun group hgroup _ hmem =>
    (hgroups group hgroup).1.subset hmem⟩

/-- The branches of a switch have every property of the nodes of its body that nodes keep when they
take in others. -/
theorem forall_mem_rollUp {p : Node → Prop} {nodes : List Node}
    (happend : ∀ node more, p node → (∀ other ∈ more, p other) → p (node.append more))
    (h : ∀ node ∈ nodes, p node) : ∀ branch ∈ rollUp nodes, p branch := by
  intro branch hmem
  obtain ⟨stretch, hpart, rfl⟩ := (rollsUp_rollUp nodes).exists_stretch hmem
  have hstretch : ∀ node ∈ stretch.nodes, p node := fun node hnode => h node (hpart.subset hnode)
  rw [Stretch.nodes, List.forall_mem_cons] at hstretch
  obtain ⟨hheading, hfollowers⟩ := hstretch
  rw [Stretch.rolledUp, ← append_branch]
  exact happend _ _ hheading hfollowers

end Node

namespace Construct

/-- The statement that opens a construct. -/
def opening : Construct → Statement
  | condition test => .ifOpen test
  | loop head => .forOpen head
  | switch subject => .switchOpen subject

/-- The statement that closes a construct. -/
def closing : Construct → Statement
  | condition _ => .endIf
  | loop _ => .endFor
  | switch _ => .endSwitch

/-- The body of a construct ends with what closes the construct. -/
@[simp] theorem terminator?_body (construct : Construct) :
    construct.body.terminator? = some construct.closing := by
  cases construct <;> rfl

/-- The node of a condition: its body is one group, or two groups that a divider stands between. -/
theorem eq_cond_of_node? {test : Condition} {nodes : List Node} {node : Node}
    (h : (condition test).node? nodes = some node) :
    (∃ group, Node.splitAtDividers nodes = (group, []) ∧ node = .cond test [.onTrue group]) ∨
      (∃ group other, Node.splitAtDividers nodes = (group, [other]) ∧
        node = .cond test [.onTrue group, .onFalse other]) := by
  cases hsplit : Node.splitAtDividers nodes with
  | mk group others =>
    match others with
    | [] =>
      simp only [node?, hsplit, Option.some.injEq] at h
      exact .inl ⟨group, rfl, h.symm⟩
    | [other] =>
      simp only [node?, hsplit, Option.some.injEq] at h
      exact .inr ⟨group, other, rfl, h.symm⟩
    | _ :: _ :: _ => simp [node?, hsplit] at h

/-- A construct is neither a divider nor a branch of a switch. -/
theorem isDivider_isBranch_of_node? {construct : Construct} {nodes : List Node} {node : Node}
    (h : construct.node? nodes = some node) :
    node.isDivider = false ∧ node.isBranch = false := by
  cases construct with
  | condition test => obtain ⟨_, _, rfl⟩ | ⟨_, _, _, rfl⟩ := eq_cond_of_node? h <;> exact ⟨rfl, rfl⟩
  | loop head => cases head <;> (cases h; exact ⟨rfl, rfl⟩)
  | switch subject =>
    cases h
    exact ⟨rfl, rfl⟩

end Construct

namespace Statement

/-- A mark makes its part where it is allowed. -/
theorem mark_part_eq_ok_iff {mark : Mark} {allowed : Bool} {part part' : Part} :
    mark.part allowed part = .ok part' ↔ allowed = true ∧ part = part' := by
  unfold Mark.part
  split <;> simp_all

/-- A mark is misplaced where it is not allowed. -/
theorem mark_part_eq_error_iff {mark : Mark} {allowed : Bool} {part : Part}
    {fault : TemplateFault} :
    mark.part allowed part = .error fault ↔ allowed = false ∧ .misplaced mark = fault := by
  unfold Mark.part
  split <;> simp_all

/-- A body is ended by its own terminator only. -/
theorem part_eq_ends_iff {statement : Statement} {body : Body} {depth : Depth} :
    statement.part body depth = .ok .ends ↔ body.terminator? = some statement := by
  cases statement <;> cases body <;> simp [part, mark_part_eq_ok_iff, Body.terminator?]

/-- A construct is opened by its own statement only, anywhere. -/
theorem part_eq_opens_iff {statement : Statement} {body : Body} {depth : Depth}
    {construct : Construct} :
    statement.part body depth = .ok (.opens construct) ↔ statement = construct.opening := by
  cases statement <;> cases construct <;> simp [part, mark_part_eq_ok_iff, Construct.opening]

end Statement

/-- How a body ends: the template with its source, a construct with its terminator. What comes after
the end is left over. -/
inductive Ends (body : Body) : List Segment → List Segment → Prop
  | source (hbody : body = .template) : Ends body [] []
  | terminator {offset : Nat} {inside : Bytes} {statement : Statement} {segments : List Segment}
    (hterminator : body.terminator? = some statement)
    (hparse : Statement.parse inside.strip = .ok statement) :
    Ends body (.region offset inside :: segments) segments

/-- The body of the template ends with the source. -/
theorem Ends.of_template {ending segments : List Segment} (h : Ends .template ending segments) :
    ending = [] ∧ segments = [] := by
  cases h with
  | source hbody => exact ⟨rfl, rfl⟩
  | terminator hterminator hparse => simp [Body.terminator?] at hterminator

/-- The body of a construct ends with its terminator only. -/
theorem Ends.of_construct {construct : Construct} {ending segments : List Segment}
    (h : Ends construct.body ending segments) :
    ∃ offset inside, ending = .region offset inside :: segments ∧
      Statement.parse inside.strip = .ok construct.closing := by
  cases h with
  | source hbody => exact absurd hbody construct.body_ne_template
  | terminator hterminator hparse =>
    rw [Construct.terminator?_body, Option.some.injEq] at hterminator
    exact ⟨_, _, rfl, hterminator ▸ hparse⟩

/-- The segments of a body up to its end, and its nodes. -/
inductive Spells : Body → Depth → List Segment → List Node → Prop
  | last {body : Body} {depth : Depth} (raw : Bytes) :
    Spells body depth (Segment.ofText raw) (Node.ofText raw)
  | node {body : Body} {depth : Depth} {raw inside : Bytes} {offset : Nat} {statement : Statement}
    {node : Node} {segments : List Segment} {nodes : List Node}
    (hparse : Statement.parse inside.strip = .ok statement)
    (hpart : statement.part body depth = .ok (.node node))
    (hmore : Spells body depth segments nodes) :
    Spells body depth (Segment.ofText raw ++ .region offset inside :: segments)
      (Node.ofText raw ++ node :: nodes)
  | construct {body : Body} {depth : Depth} {raw opening closing : Bytes} {start finish : Nat}
    {construct : Construct} {inner segments : List Segment} {children nodes : List Node}
    {node : Node} (hopening : Statement.parse opening.strip = .ok construct.opening)
    (hinner : Spells construct.body (depth.enter construct.body) inner children)
    (hclosing : Statement.parse closing.strip = .ok construct.closing)
    (hnode : construct.node? children = some node) (hmore : Spells body depth segments nodes) :
    Spells body depth
      (Segment.ofText raw ++ .region start opening :: (inner ++ .region finish closing :: segments))
      (Node.ofText raw ++ node :: nodes)

namespace Reader

/-- What a reader has left begins with the region that it meets. -/
theorem Meets.scanFrom_eq {reader : Reader} {raw inside rest : Bytes}
    (hmeets : reader.Meets raw inside rest) :
    Segment.scanFrom reader.offset reader.rest =
      Segment.ofText raw ++ .region (reader.regionStart raw) inside ::
        Segment.scanFrom (reader.regionEnd raw inside) rest := by
  obtain ⟨-, afterOpener, hopen, hclose⟩ := hmeets
  exact Segment.scanFrom_of_region hopen hclose

/-- In the body of a construct that was entered properly the counters are never back where they
were. -/
theorem isDone_of_depth_eq {reader : Reader}
    (hdepth : reader.depth = reader.target.enter reader.body) : reader.isDone = false := by
  by_cases hbody : reader.body = .template
  · simp [isDone, hbody]
  · have hne := Depth.enter_ne reader.target hbody
    rw [← hdepth] at hne
    simp [isDone, hne]

end Reader

/-- What a reader has read is spelled by the segments up to the end of its body. -/
theorem Reads.spells {reader : Reader} {reading : Reading} (h : Reads reader reading)
    (hdepth : reader.depth = reader.target.enter reader.body) :
    ∃ inner ending, Segment.scanFrom reader.offset reader.rest = inner ++ ending ∧
      Ends reader.body ending (Segment.scanFrom reading.offset reading.rest) ∧
      Spells reader.body reader.depth inner reading.nodes := by
  induction h with
  | done hdone => simp [Reader.isDone_of_depth_eq hdepth] at hdone
  | @finish reader hdone hbody hopen =>
    refine ⟨Segment.ofText reader.rest, [], ?_, ?_, .last reader.rest⟩
    · rw [Segment.scanFrom_of_none hopen, List.append_nil]
    · rw [Segment.scanFrom_nil]
      exact .source hbody
  | ends hmeets hparse hpart =>
    exact ⟨_, _, hmeets.scanFrom_eq, .terminator (Statement.part_eq_ends_iff.mp hpart) hparse,
      .last _⟩
  | @node reader raw inside rest statement node more hmeets hparse hpart hmore ih =>
    obtain ⟨inner, ending, hscan, hends, hspells⟩ := ih hdepth
    refine ⟨Segment.ofText raw ++ .region (reader.regionStart raw) inside :: inner, ending, ?_,
      hends, .node hparse hpart hspells⟩
    have hscan : Segment.scanFrom (reader.regionEnd raw inside) rest = inner ++ ending := hscan
    rw [hmeets.scanFrom_eq, hscan, List.append_assoc, List.cons_append]
  | @construct reader raw inside rest statement construct inner more node hmeets hparse hpart hinner
      hnode hmore ihinner ihmore =>
    obtain rfl := Statement.part_eq_opens_iff.mp hpart
    -- The body of the construct leaves the counters as they were, so what follows it is spelled in
    -- the same body at the same depth.
    have hdepthAfter : inner.depth = reader.depth := hinner.depth_eq rfl
    obtain ⟨body, ending, hscan, hends, hspells⟩ := ihinner rfl
    obtain ⟨after, last, hscanAfter, hendsAfter, hspellsAfter⟩ := ihmore (hdepthAfter.trans hdepth)
    obtain ⟨finish, closing, rfl, hclosing⟩ := hends.of_construct
    have hscan : Segment.scanFrom (reader.regionEnd raw inside) rest = _ := hscan
    have hscanAfter : Segment.scanFrom inner.offset inner.rest = after ++ last := hscanAfter
    have hspellsAfter : Spells reader.body reader.depth after more.nodes := by
      simpa only [Reader.after, hdepthAfter] using hspellsAfter
    refine ⟨Segment.ofText raw ++ .region (reader.regionStart raw) inside ::
      (body ++ .region finish closing :: after), last, ?_, hendsAfter,
      .construct hparse hspells hclosing hnode hspellsAfter⟩
    rw [hmeets.scanFrom_eq, hscan, hscanAfter]
    simp

/-- The nodes of a source that is accepted are spelled by its segments. -/
theorem Reader.spells_of_parseSource {source : Bytes} {nodes : List Node}
    (h : parseSource source = .ok nodes) : Spells .template {} (Segment.scan source) nodes := by
  obtain ⟨reading, hreads, rfl⟩ := parseSource_eq_ok_iff.mp h
  obtain ⟨inner, ending, hscan, hends, hspells⟩ := hreads.spells rfl
  obtain ⟨rfl, -⟩ := hends.of_template
  have hscan : Segment.scan source = inner ++ [] := hscan
  rw [hscan, List.append_nil]
  exact hspells

/-- The nodes of a template that is accepted are spelled by the segments of its prepared source. -/
theorem Tree.spells_of_parse {keepFormatting : Bool} {text : Bytes} {tree : Tree}
    (h : parse keepFormatting text = .ok tree) :
    Spells .template {} (Segment.scan (Source.prepare keepFormatting text)) tree.nodes := by
  rw [parse, ofSource] at h
  split at h
  · rename_i nodes hnodes
    cases h
    exact Reader.spells_of_parseSource hnodes
  · cases h

/-- A text without comments that a reader reads is a template, with its formatting kept. -/
theorem Tree.parse_of_reads {text : Bytes} {reading : Reading}
    (hcomments : Bytes.breakOn Source.commentOpener text = none)
    (hreads : Reads (Reader.start text) reading) : parse true text = .ok ⟨reading.nodes⟩ := by
  have hprepare : Source.prepare true text = text := Source.cutComments_of_none hcomments
  rw [parse, hprepare, ofSource, Reader.parseSource_eq_ok_iff.mpr ⟨reading, hreads, rfl⟩]

end Stencil
