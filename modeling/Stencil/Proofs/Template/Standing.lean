import Stencil.Proofs.Template.Origin

/-!
# Where nodes stand

`Node.StandsIn` says that a node stands somewhere in a tree. Its content is then content of the
tree, so that a node of a parsed tree was read from a region of the template. The counter of a
counting loop in a parsed tree, in particular, is a word (`Tree.dot_notMem_of_parse`).
-/

set_option autoImplicit false

namespace Stencil

namespace Node

/-- The nodes of the body of a node; none when it has no body. -/
def children : Node → List Node
  | cond _ nodes | onTrue nodes | onFalse nodes | forRange _ nodes | forCount _ nodes
  | switch _ nodes | case _ nodes | default nodes => nodes
  | raw _ | print _ | bind _ | counter _ | breakLoop | continueLoop | divider | exit => []

/-- A node stands in a list of nodes: it is one of them, or stands in the body of one. -/
inductive StandsIn (node : Node) : List Node → Prop
  | among {nodes : List Node} (h : node ∈ nodes) : StandsIn node nodes
  | inside {nodes : List Node} {outer : Node} (houter : outer ∈ nodes)
      (h : StandsIn node outer.children) : StandsIn node nodes

/-- The content of a node is content of the nodes around it. -/
theorem mem_walkAll {node : Node} {nodes : List Node} (hnode : node ∈ nodes) {token : Token}
    (h : token ∈ node.walk) : token ∈ walkAll nodes := by
  induction nodes with
  | nil => cases hnode
  | cons first rest ih =>
    rw [walkAll, List.mem_append]
    obtain rfl | hrest := List.mem_cons.mp hnode
    · exact .inl h
    · exact .inr (ih hrest)

/-- The content of the children of a node is content of the node. -/
theorem mem_walk_of_children {node : Node} {token : Token} (h : token ∈ walkAll node.children) :
    token ∈ node.walk := by
  cases node <;> simp_all [children, walk, walkAll]

/-- The content of a node is content of every tree in which it stands. -/
theorem StandsIn.mem_walkAll {node : Node} {nodes : List Node} (hstands : node.StandsIn nodes)
    {token : Token} (h : token ∈ node.walk) : token ∈ walkAll nodes := by
  induction hstands with
  | among hnode => exact Node.mem_walkAll hnode h
  | inside houter _ ih => exact Node.mem_walkAll houter (mem_walk_of_children ih)

end Node

/-! ## Counters of a parsed tree -/

/-- A word holds no dot. -/
theorem Statement.dot_notMem_of_readWord? {s word rest : Bytes}
    (h : readWord? s = some (word, rest)) : Byte.dot ∉ word := by
  unfold readWord? at h
  simp only at h
  split at h
  · cases h
  · cases h
    intro hdot
    have hword := List.mem_takeWhile_imp hdot
    exact absurd hword (by decide)

/-- The counter of a loop that was read has no dot in its name. -/
theorem LoopHead.dot_notMem_of_parse {content : Bytes} {head : CountHead}
    (h : parse content = .ok (.count head)) : Byte.dot ∉ head.counter := by
  obtain ⟨text, separator, parts, -, hparts, hhead⟩ := exists_parts_of_parse h
  have hcounter : head.counter = parts.counter := by
    unfold ofParts at hhead
    simp only at hhead
    split at hhead
    · cases hhead
    · split at hhead
      · cases hhead
        rfl
      · cases hhead
  simp only [readCount?, Option.bind_eq_bind, Option.bind_eq_some_iff] at hparts
  obtain ⟨_, -, ⟨_, _⟩, hword, _, -, ⟨_, _⟩, -, _, -, ⟨_, _⟩, -, ⟨_, _, _⟩, -, ⟨_, _⟩, -,
    ⟨_, _⟩, -, hfields⟩ := hparts
  cases hfields
  rw [hcounter]
  exact Statement.dot_notMem_of_readWord? hword

/-- The counter of a loop of a parsed template is a word, and so has no dot. -/
theorem Tree.dot_notMem_of_parse {keepFormatting : Bool} {text : Bytes} {tree : Tree}
    (hparse : parse keepFormatting text = .ok tree) {head : CountHead} {children : List Node}
    (hstands : (Node.forCount head children).StandsIn tree.nodes) :
    Byte.dot ∉ head.counter := by
  obtain ⟨_, _, -, hstatement⟩ := exists_region_of_parse hparse
    (hstands.mem_walkAll (by rw [Node.walk]; exact .head _))
  exact LoopHead.dot_notMem_of_parse (Statement.parse_loop_of_forOpen hstatement)

end Stencil
