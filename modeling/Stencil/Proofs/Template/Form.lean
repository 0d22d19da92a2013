import Mathlib.Data.List.Chain
import Stencil.Proofs.Template.Grammar
import Stencil.Proofs.Template.Statement

/-!
# The form of parsed trees

What the nodes of a parsed tree look like: where the parts of conditions and switches stand, that
raw texts are whole, and that counting loops are proper. The body of a construct holds dividers and
bare branches until the construct takes its nodes (`Body.Holds`); then they are gone
(`Construct.isFormed_of_node?`).
-/

set_option autoImplicit false

namespace Stencil

/-- Whether nodes of a kind stand in bodies. The others are parts of a condition or a switch. -/
def NodeKind.standsInBodies : NodeKind → Bool
  | onTrue | onFalse | case | default | divider => false
  | raw | print | bind | counter | cond | forRange | forCount | breakLoop | continueLoop | switch
  | exit => true

namespace Node

/-- Raw texts with nothing between them would be one text. -/
def IsApart (node next : Node) : Prop := ¬(node.kind = .raw ∧ next.kind = .raw)

/-- It can be decided whether two nodes are apart. -/
instance : DecidableRel IsApart := fun node next =>
  inferInstanceAs (Decidable ¬(node.kind = .raw ∧ next.kind = .raw))

/-- Whether nodes can be those of a body. -/
def isBody (nodes : List Node) : Bool :=
  nodes.all (·.kind.standsInBodies) && decide (nodes.IsChain IsApart)

/-- Whether nodes can be the branches of a condition. -/
def areBranches (nodes : List Node) : Bool :=
  nodes.map kind = [.onTrue] || nodes.map kind = [.onTrue, .onFalse]

mutual

/-- Whether a node and those that it owns have the form that a parser gives them. -/
def isFormed : Node → Bool
  | raw text => !text.isEmpty
  | print _ | bind _ | counter _ | breakLoop | continueLoop | exit => true
  | cond _ children => areBranches children && formedAll children
  | switch _ children => children.all isBranch && formedAll children
  | onTrue children | onFalse children | case _ children | default children
  | forRange _ children => isBody children && formedAll children
  | forCount head children => head.isProper && isBody children && formedAll children
  | divider => false

/-- Whether all nodes are formed. -/
def formedAll : List Node → Bool
  | [] => true
  | node :: rest => node.isFormed && formedAll rest

end

/-- Nodes are formed when each of them is. -/
theorem formedAll_eq_true_iff {nodes : List Node} :
    formedAll nodes = true ↔ ∀ node ∈ nodes, node.isFormed = true := by
  induction nodes with
  | nil => simp [formedAll]
  | cons node rest ih => simp [formedAll, ih]

/-- Nodes are a body when each can stand in one and no two raw texts touch. -/
theorem isBody_eq_true_iff {nodes : List Node} :
    isBody nodes = true ↔
      (∀ node ∈ nodes, node.kind.standsInBodies = true) ∧ nodes.IsChain IsApart := by
  simp [isBody]

end Node

/-- What the body of a construct may hold before the construct takes its nodes: the divider of a
condition, the branches of a switch with nothing in them yet, and formed nodes. -/
inductive Body.Holds (body : Body) : Node → Prop
  | formed {node : Node} (hformed : node.isFormed = true)
    (hkind : node.kind.standsInBodies = true) : Holds body node
  | divider (hbody : body = .condition) : Holds body .divider
  | case (hbody : body = .switch) (test : Comparison) : Holds body (.case test [])
  | default (hbody : body = .switch) : Holds body (.default [])

namespace Body.Holds

variable {body : Body} {node : Node}

/-- Only conditions hold dividers. -/
theorem ne_divider (h : body.Holds node) (hbody : body ≠ .condition) : node ≠ .divider := by
  rintro rfl
  cases h with
  | formed hformed hkind => cases hkind
  | divider hcondition => exact hbody hcondition

/-- Only switches hold branches. -/
theorem isBranch_eq_false (h : body.Holds node) (hbody : body ≠ .switch) :
    node.isBranch = false := by
  cases h with
  | formed hformed hkind =>
    cases node <;> simp_all [Node.isBranch, Node.kind, NodeKind.standsInBodies]
  | divider hcondition => rfl
  | case hswitch test => exact absurd hswitch hbody
  | default hswitch => exact absurd hswitch hbody

/-- What a body holds is formed, but for dividers and branches. -/
theorem formed_of_ne (h : body.Holds node) (hdivider : node ≠ .divider)
    (hbranch : node.isBranch = false) :
    node.isFormed = true ∧ node.kind.standsInBodies = true := by
  cases h with
  | formed hformed hkind => exact ⟨hformed, hkind⟩
  | divider hcondition => exact absurd rfl hdivider
  | case hswitch test => cases hbranch
  | default hswitch => cases hbranch

end Body.Holds

/-- What the nodes of a body are before its construct takes them. -/
structure Body.Fits (body : Body) (nodes : List Node) : Prop where
  holds : ∀ node ∈ nodes, body.Holds node
  apart : nodes.IsChain Node.IsApart

namespace Body.Fits

variable {body : Body} {node : Node} {nodes : List Node}

/-- A raw text fits every body. -/
theorem ofText (body : Body) (raw : Bytes) : body.Fits (Node.ofText raw) := by
  unfold Node.ofText
  cases hraw : raw.isEmpty with
  | true => exact ⟨by simp, .nil⟩
  | false => exact ⟨by simpa using .formed (by simp [Node.isFormed, hraw]) rfl, .singleton _⟩

/-- A body goes on with a text, which may be empty, and a node that is no text. -/
theorem cons (raw : Bytes) (hnode : body.Holds node) (hkind : node.kind ≠ .raw)
    (h : body.Fits nodes) : body.Fits (Node.ofText raw ++ node :: nodes) := by
  obtain ⟨hholds, hapart⟩ := Body.Fits.ofText body raw
  constructor
  · rw [List.forall_mem_append, List.forall_mem_cons]
    exact ⟨hholds, hnode, h.holds⟩
  · refine hapart.append (h.apart.cons fun next _ hraw => hkind hraw.1) ?_
    intro text _ next hnext hraw
    obtain rfl : node = next := by simpa using hnext
    exact hkind hraw.2

/-- What stands in a row in fitting nodes fits. -/
theorem of_isInfix {group : List Node} (h : body.Fits nodes) (hgroup : group <:+: nodes) :
    body.Fits group :=
  ⟨fun node hmem => h.holds node (hgroup.subset hmem), h.apart.infix hgroup⟩

/-- Without dividers and branches the nodes are those of a body. -/
theorem isBody (h : body.Fits nodes) (hdividers : ∀ node ∈ nodes, node ≠ .divider)
    (hbranches : ∀ node ∈ nodes, node.isBranch = false) :
    Node.isBody nodes = true ∧ Node.formedAll nodes = true := by
  have hformed := fun node hmem =>
    (h.holds node hmem).formed_of_ne (hdividers node hmem) (hbranches node hmem)
  exact ⟨Node.isBody_eq_true_iff.mpr ⟨fun node hmem => (hformed node hmem).2, h.apart⟩,
    Node.formedAll_eq_true_iff.mpr fun node hmem => (hformed node hmem).1⟩

/-- A body that is neither that of a condition nor that of a switch has no parts of them. -/
theorem isBody_of_ne (h : body.Fits nodes) (hcondition : body ≠ .condition)
    (hswitch : body ≠ .switch) : Node.isBody nodes = true ∧ Node.formedAll nodes = true :=
  h.isBody (fun node hmem => (h.holds node hmem).ne_divider hcondition)
    fun node hmem => (h.holds node hmem).isBranch_eq_false hswitch

/-- A group of a condition is a body. -/
theorem isBody_of_group {group : List Node} (h : Fits .condition nodes)
    (hgroup : group <:+: nodes) (hdividers : ∀ node ∈ group, node ≠ .divider) :
    Node.isBody group = true ∧ Node.formedAll group = true :=
  (h.of_isInfix hgroup).isBody hdividers fun node hmem =>
    (h.holds node (hgroup.subset hmem)).isBranch_eq_false (by decide)

/-- The branches of a switch are formed when they have taken in the nodes that follow them. -/
theorem formed_rollUp (h : Fits .switch nodes) :
    ∀ branch ∈ Node.rollUp nodes, branch.isBranch = true ∧ branch.isFormed = true := by
  intro branch hmem
  obtain ⟨⟨heading, children, followers, hloose⟩, hpart, rfl⟩ :=
    (Node.rollsUp_rollUp nodes).exists_stretch hmem
  have hstretch := h.of_isInfix hpart
  have hfits : Fits .switch followers := hstretch.of_isInfix (List.suffix_cons _ _).isInfix
  have hbody := hfits.isBody (fun node hnode => (hfits.holds node hnode).ne_divider (by decide))
    hloose
  have hhead := hstretch.holds (heading.branch children) (.head _)
  refine ⟨Node.isBranch_branch _ _, ?_⟩
  -- A branch of a body that has been read owns nothing yet.
  cases heading with
  | case test =>
    cases hhead with
    | formed hformed hkind => cases hkind
    | case hswitch => simp [Node.Stretch.rolledUp, Node.Heading.branch, Node.isFormed, hbody]
  | default =>
    cases hhead with
    | formed hformed hkind => cases hkind
    | default hswitch => simp [Node.Stretch.rolledUp, Node.Heading.branch, Node.isFormed, hbody]

end Body.Fits

/-- A construct that is read gives a formed node, which stands in a body. -/
theorem Construct.isFormed_of_node? {construct : Construct} {nodes : List Node} {node : Node}
    (hnode : construct.node? nodes = some node) (hnodes : construct.body.Fits nodes)
    (hhead : ∀ head, construct = .loop (.count head) → head.isProper = true) :
    node.isFormed = true ∧ node.kind.standsInBodies = true ∧ node.kind ≠ .raw := by
  cases construct with
  | condition test =>
    obtain ⟨⟨hinitial, hfirst⟩, hothers⟩ := Node.isInfix_splitAtDividers nodes
    obtain ⟨group, hsplit, rfl⟩ | ⟨group, other, hsplit, rfl⟩ := eq_cond_of_node? hnode
    · rw [hsplit] at hinitial hfirst
      have hgroup := hnodes.isBody_of_group hinitial.isInfix hfirst
      simp [Node.isFormed, Node.formedAll, Node.areBranches, Node.kind, NodeKind.standsInBodies,
        hgroup]
    · rw [hsplit] at hinitial hfirst hothers
      obtain ⟨hstretch, hdividers⟩ := hothers other (.head _)
      have hgroup := hnodes.isBody_of_group hinitial.isInfix hfirst
      have hother := hnodes.isBody_of_group hstretch hdividers
      simp [Node.isFormed, Node.formedAll, Node.areBranches, Node.kind, NodeKind.standsInBodies,
        hgroup, hother]
  | loop head =>
    have hbody := hnodes.isBody_of_ne (by simp [body]) (by simp [body])
    cases head with
    | range head =>
      cases hnode
      simp [Node.isFormed, Node.kind, NodeKind.standsInBodies, hbody]
    | count head =>
      cases hnode
      simp [Node.isFormed, Node.kind, NodeKind.standsInBodies, hbody, hhead head rfl]
  | switch subject =>
    have hbranches := hnodes.formed_rollUp
    have hformed : Node.formedAll (Node.rollUp nodes) = true :=
      Node.formedAll_eq_true_iff.mpr fun branch hmem => (hbranches branch hmem).2
    have hkinds : (Node.rollUp nodes).all Node.isBranch = true :=
      List.all_eq_true.mpr fun branch hmem => (hbranches branch hmem).1
    cases hnode
    simp [Node.isFormed, Node.kind, NodeKind.standsInBodies, hformed, hkinds]

/-- A statement that becomes a node fits the body that it stands in. -/
theorem Statement.holds_of_part {statement : Statement} {body : Body} {depth : Depth}
    {node : Node} (h : statement.part body depth = .ok (.node node)) :
    body.Holds node ∧ node.kind ≠ .raw := by
  cases statement with
  | print statement | bind statement | counter statement | exit =>
    cases h
    exact ⟨.formed rfl rfl, by simp [Node.kind]⟩
  | breakLoop | continueLoop =>
    obtain ⟨-, hpart⟩ := mark_part_eq_ok_iff.mp h
    cases hpart
    exact ⟨.formed rfl rfl, by simp [Node.kind]⟩
  | elseMark =>
    obtain ⟨hbody, hpart⟩ := mark_part_eq_ok_iff.mp h
    cases hpart
    exact ⟨.divider (of_decide_eq_true hbody), by simp [Node.kind]⟩
  | caseMark test =>
    obtain ⟨hbody, hpart⟩ := mark_part_eq_ok_iff.mp h
    cases hpart
    exact ⟨.case (of_decide_eq_true hbody) test, by simp [Node.kind]⟩
  | defaultMark =>
    obtain ⟨hbody, hpart⟩ := mark_part_eq_ok_iff.mp h
    cases hpart
    exact ⟨.default (of_decide_eq_true hbody), by simp [Node.kind]⟩
  | ifOpen | forOpen | switchOpen => cases h
  | endIf | endFor | endSwitch =>
    obtain ⟨-, hpart⟩ := mark_part_eq_ok_iff.mp h
    cases hpart

/-- The nodes of a body fit it. -/
theorem Spells.fits {body : Body} {depth : Depth} {segments : List Segment} {nodes : List Node}
    (h : Spells body depth segments nodes) : body.Fits nodes := by
  induction h with
  | last raw => exact .ofText _ raw
  | @node body depth raw inside offset statement node segments nodes hparse hpart hmore ih =>
    obtain ⟨hholds, hkind⟩ := Statement.holds_of_part hpart
    exact ih.cons raw hholds hkind
  | @construct body depth raw opening closing start finish construct inner segments children nodes
      node hopening hinner hclosing hnode hmore ihinner ihmore =>
    obtain ⟨hformed, hbody, hkind⟩ := Construct.isFormed_of_node? hnode ihinner (by
      rintro head rfl
      exact LoopHead.isProper_of_parse (Statement.parse_loop_of_forOpen hopening))
    exact ihmore.cons raw (.formed hformed hbody) hkind

/-- A parsed tree is a body of formed nodes. -/
theorem Tree.isBody_of_parse {keepFormatting : Bool} {text : Bytes} {tree : Tree}
    (h : parse keepFormatting text = .ok tree) :
    Node.isBody tree.nodes = true ∧ Node.formedAll tree.nodes = true :=
  (Tree.spells_of_parse h).fits.isBody_of_ne (by decide) (by decide)

end Stencil
