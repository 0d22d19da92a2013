import Stencil.Proofs.Template.Grammar
import Stencil.Proofs.Template.Statement
import Stencil.Render.Tree
import Stencil.Tree.Dump
import Stencil.Tree.Outline

/-!
# Normal trees

A condition may hold a comparison that nobody asks for, because it names a helper as well, or
arguments of a helper that it does not name. The normal form of a tree drops them. It has the data
form, the outline and the rendering of the tree, and a parsed tree is its own normal form.
-/

set_option autoImplicit false

namespace Stencil

namespace Condition

/-- The condition with those fields only that it asks for. -/
def normal (condition : Condition) : Condition :=
  if condition.helper.isEmpty then { comparison := condition.comparison }
  else { helper := condition.helper, args := condition.args }

/-- The normal form of a condition has the same fields. -/
theorem fields_normal (condition : Condition) : condition.normal.fields = condition.fields := by
  obtain ⟨comparison, helper, args⟩ := condition
  cases helper <;> rfl

/-- The normal form of a condition has the same outline. -/
theorem outline_normal (condition : Condition) : condition.normal.outline = condition.outline := by
  obtain ⟨comparison, helper, args⟩ := condition
  cases helper <;> rfl

/-- The normal form of a condition comes to the same. -/
theorem evaluate_normal [JsonLibrary] (registry : Registry) (context : Context)
    (condition : Condition) :
    condition.normal.evaluate registry context = condition.evaluate registry context := by
  obtain ⟨comparison, helper, args⟩ := condition
  cases helper <;> rfl

/-- A parsed condition has no field that it does not ask for. -/
theorem normal_of_parse {expression : Bytes} {condition : Condition}
    (h : parse expression = .ok condition) : condition.normal = condition := by
  unfold parse at h
  split at h
  · cases h
  · split at h
    · rename_i call hcall
      cases h
      unfold helperCall? at hcall
      simp only at hcall
      split at hcall
      · split at hcall
        · cases hcall
        · rename_i hhelper
          cases hcall
          simp_all [normal]
      · cases hcall
    · split at h
      · cases h
      · cases h
        rfl

end Condition

namespace Node

mutual

/-- The node with normal conditions. -/
def normal : Node → Node
  | cond condition children => cond condition.normal (normalAll children)
  | onTrue children => onTrue (normalAll children)
  | onFalse children => onFalse (normalAll children)
  | forRange head children => forRange head (normalAll children)
  | forCount head children => forCount head (normalAll children)
  | switch subject children => switch subject (normalAll children)
  | case test children => case test (normalAll children)
  | default children => default (normalAll children)
  | raw text => raw text
  | print statement => print statement
  | bind statement => bind statement
  | counter statement => counter statement
  | breakLoop => breakLoop
  | continueLoop => continueLoop
  | divider => divider
  | exit => exit

/-- Nodes with all of their conditions in normal form. -/
def normalAll : List Node → List Node
  | [] => []
  | node :: rest => node.normal :: normalAll rest

end

mutual

/-- The normal form of a node has the data form of the node. -/
theorem toJson_normal : (node : Node) → node.normal.toJson = node.toJson
  | cond condition children => by
    simp [normal, toJson, fields, kind, condition.fields_normal, listToJson_normalAll children]
  | onTrue children | onFalse children | forRange _ children | forCount _ children
  | switch _ children | case _ children | default children => by
    simp [normal, toJson, fields, kind, listToJson_normalAll children]
  | raw _ | print _ | bind _ | counter _ | breakLoop | continueLoop | divider | exit => rfl

/-- Nodes in normal form have the same data form. -/
theorem listToJson_normalAll : (nodes : List Node) → listToJson (normalAll nodes) = listToJson nodes
  | [] => rfl
  | node :: rest => by simp [normalAll, listToJson, toJson_normal node, listToJson_normalAll rest]

end

mutual

/-- The normal form of a node has the outline of the node. -/
theorem outline_normal (depth : Nat) :
    (node : Node) → node.normal.outline depth = node.outline depth
  | cond condition children => by
    simp [normal, outline, line, summary, kind, condition.outline_normal,
      listOutline_normalAll (depth + 1) children]
  | onTrue children | onFalse children | forRange _ children | forCount _ children
  | switch _ children | case _ children | default children => by
    simp [normal, outline, line, summary, kind, listOutline_normalAll (depth + 1) children]
  | raw _ | print _ | bind _ | counter _ | breakLoop | continueLoop | divider | exit => rfl

/-- Nodes in normal form have the same outline. -/
theorem listOutline_normalAll (depth : Nat) :
    (nodes : List Node) → listOutline depth (normalAll nodes) = listOutline depth nodes
  | [] => rfl
  | node :: rest => by
    simp [normalAll, listOutline, outline_normal depth node, listOutline_normalAll depth rest]

end

mutual

/-- The normal form of a node is rendered as the node. -/
theorem render_normal [JsonLibrary] (registry : Registry) (iterations : Nat) :
    (node : Node) → node.normal.render registry iterations = node.render registry iterations
  | cond condition children => by
    simp only [normal, render, condition.evaluate_normal, renderNth_normalAll _ _ _ children]
  | onTrue children | onFalse children | case _ children | default children => by
    simp only [normal, render, renderAll_normalAll _ _ children]
  | forRange _ children | forCount _ children => by
    simp only [normal, render, renderAll_normalAll _ _ children]
  | switch subject children => by
    simp only [normal, render, renderBranch_normalAll _ _ subject children]
  | raw _ | print _ | bind _ | counter _ | breakLoop | continueLoop | divider | exit => rfl

/-- Nodes in normal form render the same. -/
theorem renderAll_normalAll [JsonLibrary] (registry : Registry) (iterations : Nat) :
    (nodes : List Node) →
      renderAll registry iterations (normalAll nodes) = renderAll registry iterations nodes
  | [] => rfl
  | node :: rest => by
    simp only [normalAll, renderAll, render_normal _ _ node, renderAll_normalAll _ _ rest]

/-- A node by its index renders the same in normal form. -/
theorem renderNth_normalAll [JsonLibrary] (registry : Registry) (iterations : Nat) :
    (index : Nat) → (nodes : List Node) →
      renderNth registry iterations index (normalAll nodes) =
        renderNth registry iterations index nodes
  | _, [] => rfl
  | 0, node :: rest => by simp only [normalAll, renderNth, render_normal _ _ node]
  | index + 1, node :: rest => by
    simp only [normalAll, renderNth, renderNth_normalAll _ _ index rest]

/-- The cases of a switch render the same in normal form. -/
theorem renderBranch_normalAll [JsonLibrary] (registry : Registry) (iterations : Nat)
    (subject : Operand) :
    (nodes : List Node) →
      renderBranch registry iterations subject (normalAll nodes) =
        renderBranch registry iterations subject nodes
  | [] => rfl
  | node :: rest => by
    have hrest := renderBranch_normalAll registry iterations subject rest
    cases node with
    | case test children =>
      simp only [normalAll, normal, renderBranch, renderAll_normalAll _ _ children, hrest]
    | default children =>
      simp only [normalAll, normal, renderBranch, renderAll_normalAll _ _ children, hrest]
    | _ => simp only [normalAll, normal, renderBranch, hrest]

end

/-- Nodes that are all in normal form stay as they are. -/
theorem normalAll_eq_self {nodes : List Node} (h : ∀ node ∈ nodes, node.normal = node) :
    normalAll nodes = nodes := by
  induction nodes with
  | nil => rfl
  | cons node rest ih =>
    rw [normalAll, h node (.head _), ih fun other hmem => h other (.tail _ hmem)]

/-- Nodes in a row are taken to their normal forms in a row. -/
theorem normalAll_append (nodes more : List Node) :
    normalAll (nodes ++ more) = normalAll nodes ++ normalAll more := by
  induction nodes with
  | nil => rfl
  | cons node rest ih => simp [normalAll, ih]

/-- A node in normal form stays so when nodes in normal form are appended to it. -/
theorem normal_append {node : Node} {more : List Node} (hnode : node.normal = node)
    (hmore : ∀ other ∈ more, other.normal = other) :
    (node.append more).normal = node.append more := by
  have hmore := normalAll_eq_self hmore
  cases node <;> simp_all [append, normal, normalAll_append]

end Node

/-- A construct is normal when what it asks for and its body are. -/
theorem Construct.normal_of_node? {construct : Construct} {nodes : List Node} {node : Node}
    (hnode : construct.node? nodes = some node)
    (htest : ∀ test, construct = .condition test → test.normal = test)
    (hnodes : ∀ child ∈ nodes, child.normal = child) : node.normal = node := by
  cases construct with
  | condition test =>
    obtain ⟨hfirst, hothers⟩ := Node.mem_of_mem_splitAtDividers nodes
    obtain ⟨group, hsplit, rfl⟩ | ⟨group, other, hsplit, rfl⟩ := eq_cond_of_node? hnode
    · have hgroup := Node.normalAll_eq_self fun child hmem =>
        hnodes child (hfirst child (by simpa [hsplit] using hmem))
      simp [Node.normal, Node.normalAll, htest test rfl, hgroup]
    · have hgroup := Node.normalAll_eq_self fun child hmem =>
        hnodes child (hfirst child (by simpa [hsplit] using hmem))
      have hother := Node.normalAll_eq_self fun child hmem =>
        hnodes child (hothers other (by simp [hsplit]) child hmem)
      simp [Node.normal, Node.normalAll, htest test rfl, hgroup, hother]
  | loop head =>
    have hchildren := Node.normalAll_eq_self hnodes
    cases head <;> (cases hnode; simp [Node.normal, hchildren])
  | switch subject =>
    have hbranches := Node.normalAll_eq_self
      (Node.forall_mem_rollUp (fun _ _ => Node.normal_append) hnodes)
    cases hnode
    simp [Node.normal, hbranches]

namespace Statement

/-- A statement opens a condition only when a condition has been read from its content. -/
theorem exists_parse_of_ifOpen {content : Bytes} {test : Condition}
    (h : parse content = .ok (.ifOpen test)) :
    ∃ expression, Condition.parse expression = .ok test := by
  cases readAs_of_parse h with
  | condition hcondition => exact ⟨_, hcondition⟩
  | word hword => simp [words] at hword

/-- A statement makes a node in normal form. -/
theorem normal_of_part {statement : Statement} {body : Body} {depth : Depth}
    {node : Node} (h : statement.part body depth = .ok (.node node)) : node.normal = node := by
  cases statement <;> simp [part, mark_part_eq_ok_iff] at h <;>
    grind [Node.normal, Node.normalAll]

end Statement

/-- The nodes of a body are normal. -/
theorem Spells.normal {body : Body} {depth : Depth} {segments : List Segment} {nodes : List Node}
    (h : Spells body depth segments nodes) : ∀ node ∈ nodes, node.normal = node := by
  induction h with
  | last raw => exact Node.forall_mem_ofText rfl
  | node hparse hpart hmore ih =>
    rw [List.forall_mem_append, List.forall_mem_cons]
    exact ⟨Node.forall_mem_ofText rfl, Statement.normal_of_part hpart, ih⟩
  | construct hopening hinner hclosing hnode hmore ihinner ihmore =>
    rw [List.forall_mem_append, List.forall_mem_cons]
    refine ⟨Node.forall_mem_ofText rfl, Construct.normal_of_node? hnode ?_ ihinner, ihmore⟩
    rintro test rfl
    obtain ⟨expression, hparse⟩ := Statement.exists_parse_of_ifOpen hopening
    exact Condition.normal_of_parse hparse

end Stencil
