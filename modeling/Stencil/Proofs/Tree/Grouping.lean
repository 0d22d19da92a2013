import Mathlib.Data.List.Basic
import Mathlib.Data.List.Induction
import Stencil.Tree.Basic

/-!
# Dividing and rolling up

The nodes of a condition are split at their dividers, and those of a switch are rolled up under its
branches. Either is one walk over the nodes that adds to the last part of what it has built.
`Divides` and `RollsUp` say what may be built of the nodes behind the walk; a step keeps them, and
so they hold at its end (`divides_splitAtDividers`, `rollsUp_rollUp`). What other modules need of
groups and branches is drawn from there. The main statement, `grouping_keeps_nodes`, puts both
together.
-/

set_option autoImplicit false

namespace Stencil

namespace Node

/-! ## Groups between dividers -/

section Dividing

variable {nodes seen first : List Node} {later : List (List Node)} {node : Node}

/-- Only the divider is a divider. -/
theorem eq_divider_of_isDivider (h : node.isDivider = true) : node = divider := by
  cases node <;> simp_all [isDivider]

/-- A list of nodes taken apart at its dividers: one divider stands before each group but the first,
and none within a group. -/
structure Divides (nodes first : List Node) (later : List (List Node)) : Prop where
  eq_append : nodes = first ++ later.flatMap (divider :: ·)
  divider_notMem : ∀ group ∈ first :: later, divider ∉ group

/-- A group without a divider takes another node that is none. -/
theorem divider_notMem_concat {group : List Node} (hgroup : divider ∉ group)
    (hnode : node.isDivider = false) : divider ∉ group ++ [node] := by
  rw [List.mem_append, List.mem_singleton, not_or]
  refine ⟨hgroup, ?_⟩
  rintro rfl
  cases hnode

/-- A divider opens an empty group. -/
theorem Divides.open_group (h : Divides seen first later) :
    Divides (seen ++ [divider]) first (later ++ [[]]) where
  eq_append := by simp [h.eq_append]
  divider_notMem := by
    rw [← List.cons_append, List.forall_mem_append]
    exact ⟨h.divider_notMem, by simp⟩

/-- While there is no divider the first group takes every node. -/
theorem Divides.fill_first (h : Divides seen first []) (hnode : node.isDivider = false) :
    Divides (seen ++ [node]) (first ++ [node]) [] where
  eq_append := by simp [h.eq_append]
  divider_notMem := by
    rw [List.forall_mem_singleton]
    exact divider_notMem_concat (h.divider_notMem first (.head _)) hnode

/-- The group that was opened last takes every node up to the next divider. -/
theorem Divides.fill_last {group : List Node} (h : Divides seen first (later ++ [group]))
    (hnode : node.isDivider = false) :
    Divides (seen ++ [node]) first (later ++ [group ++ [node]]) where
  eq_append := by simp [h.eq_append]
  divider_notMem := by
    have hgroups := h.divider_notMem
    rw [← List.cons_append, List.forall_mem_append, List.forall_mem_singleton] at hgroups ⊢
    obtain ⟨hearlier, hgroup⟩ := hgroups
    exact ⟨hearlier, divider_notMem_concat hgroup hnode⟩

/-- A step takes the groups of the nodes seen so far to those of one node more. -/
theorem Divides.step {groups : List Node × List (List Node)}
    (h : Divides seen groups.1 groups.2) (node : Node) :
    Divides (seen ++ [node]) (splitStep groups node).1 (splitStep groups node).2 := by
  obtain ⟨first, later⟩ := groups
  cases hnode : node.isDivider with
  | true =>
    obtain rfl := eq_divider_of_isDivider hnode
    exact h.open_group
  | false =>
    obtain rfl | ⟨earlier, group, rfl⟩ := List.eq_nil_or_concat' later
    · simpa [splitStep, hnode] using h.fill_first hnode
    · simpa [splitStep, hnode] using h.fill_last hnode

/-- Splitting divides the nodes at their dividers. -/
theorem divides_splitAtDividers (nodes : List Node) :
    Divides nodes (splitAtDividers nodes).1 (splitAtDividers nodes).2 := by
  induction nodes using List.reverseRecOn with
  | nil => exact ⟨rfl, by simp [splitAtDividers]⟩
  | append_singleton seen node ih =>
    rw [splitAtDividers, List.foldl_concat]
    exact ih.step node

/-- With a divider between any two neighbours the groups are the list again. -/
theorem Divides.intercalate_eq (h : Divides nodes first later) :
    [divider].intercalate (first :: later) = nodes := by
  rw [h.eq_append]
  clear h
  induction later generalizing first with
  | nil => simp
  | cons group later ih => simp [List.intercalate_cons_cons, ih]

/-- There is one group more than there are dividers. -/
theorem Divides.length_eq (h : Divides nodes first later) :
    later.length = nodes.countP isDivider := by
  have hnone : ∀ group ∈ first :: later, group.countP isDivider = 0 := fun group hgroup =>
    List.countP_eq_zero.mpr fun node hmem hnode =>
      h.divider_notMem group hgroup (eq_divider_of_isDivider hnode ▸ hmem)
  have hone : ∀ group ∈ later, (List.countP isDivider ∘ (divider :: ·)) group = 1 := by
    intro group hgroup
    rw [Function.comp_apply, List.countP_cons_of_pos rfl, hnone group (.tail _ hgroup)]
  rw [h.eq_append, List.countP_append, hnone first (.head _), Nat.zero_add, List.countP_flatMap,
    List.map_congr_left hone]
  simp

/-- A later group stands in the list as one piece. -/
theorem Divides.isInfix (h : Divides nodes first later) {group : List Node}
    (hgroup : group ∈ later) : group <:+: nodes := by
  have hpart : divider :: group <:+: later.flatMap (divider :: ·) :=
    List.infix_of_mem_flatten (List.mem_map_of_mem hgroup)
  rw [h.eq_append]
  exact (List.suffix_cons divider group).isInfix.trans
    (hpart.trans (List.suffix_append first _).isInfix)

end Dividing

/-! ## Branches of a switch -/

/-- What makes a node a branch of a switch: that it is a case, with its test, or the default. -/
inductive Heading where
  | case (test : Comparison)
  | default

/-- The branch with a heading that owns given nodes. -/
def Heading.branch : Heading → List Node → Node
  | case test, children => .case test children
  | default, children => .default children

/-- A branch in the body of a switch, which may own nodes already, and the nodes between it and the
next branch. -/
structure Stretch where
  heading : Heading
  children : List Node
  followers : List Node
  followers_loose : ∀ node ∈ followers, node.isBranch = false

namespace Stretch

/-- The nodes of a stretch as they stand in the body. -/
def nodes (stretch : Stretch) : List Node :=
  stretch.heading.branch stretch.children :: stretch.followers

/-- The branch of a stretch when it has taken in the nodes behind it. -/
def rolledUp (stretch : Stretch) : Node :=
  stretch.heading.branch (stretch.children ++ stretch.followers)

/-- A branch with nothing behind it. -/
def start (heading : Heading) (children : List Node) : Stretch where
  heading
  children
  followers := []
  followers_loose := by simp

/-- A stretch with one node more behind its branch. -/
def extend (stretch : Stretch) (node : Node) (hnode : node.isBranch = false) : Stretch where
  heading := stretch.heading
  children := stretch.children
  followers := stretch.followers ++ [node]
  followers_loose := by
    rw [List.forall_mem_append, List.forall_mem_singleton]
    exact ⟨stretch.followers_loose, hnode⟩

end Stretch

/-- A heading with children is a branch. -/
@[simp] theorem isBranch_branch (heading : Heading) (children : List Node) :
    (heading.branch children).isBranch = true := by
  cases heading <;> rfl

/-- What is appended to a branch goes to its children. -/
@[simp] theorem append_branch (heading : Heading) (children more : List Node) :
    (heading.branch children).append more = heading.branch (children ++ more) := by
  cases heading <;> rfl

/-- A branch is a heading with children. -/
theorem exists_branch_of_isBranch {node : Node} (h : node.isBranch = true) :
    ∃ heading : Heading, ∃ children, node = heading.branch children := by
  cases node with
  | case test children => exact ⟨.case test, children, rfl⟩
  | default children => exact ⟨.default, children, rfl⟩
  | _ => cases h

section RollingUp

variable {nodes seen branches : List Node} {node : Node}

/-- Nodes taken apart at the branches among them, and the branches with what follows them taken in;
of the nodes before the first branch nothing is left. -/
def RollsUp (nodes branches : List Node) : Prop :=
  ∃ (loose : List Node) (stretches : List Stretch),
    (∀ node ∈ loose, node.isBranch = false) ∧
      nodes = loose ++ stretches.flatMap Stretch.nodes ∧
      branches = stretches.map Stretch.rolledUp

/-- A step takes the branches of the nodes seen so far to those of one node more. -/
theorem RollsUp.step (h : RollsUp seen branches) (node : Node) :
    RollsUp (seen ++ [node]) (rollStep branches node) := by
  obtain ⟨loose, stretches, hloose, rfl, rfl⟩ := h
  cases hnode : node.isBranch with
  | true =>
    obtain ⟨heading, children, rfl⟩ := exists_branch_of_isBranch hnode
    refine ⟨loose, stretches ++ [.start heading children], hloose, ?_, ?_⟩
    · simp [Stretch.nodes, Stretch.start]
    · simp [rollStep, Stretch.rolledUp, Stretch.start]
  | false =>
    -- The node goes to the last stretch, or to the loose nodes while there is no stretch.
    obtain rfl | ⟨earlier, last, rfl⟩ := List.eq_nil_or_concat' stretches
    · refine ⟨loose ++ [node], [], ?_, by simp, by simp [rollStep, hnode]⟩
      rw [List.forall_mem_append, List.forall_mem_singleton]
      exact ⟨hloose, hnode⟩
    · refine ⟨loose, earlier ++ [last.extend node hnode], hloose, ?_, ?_⟩
      · simp [Stretch.nodes, Stretch.extend]
      · simp [rollStep, hnode, Stretch.rolledUp, Stretch.extend]

/-- Rolling up gathers the nodes under the branches before them. -/
theorem rollsUp_rollUp (nodes : List Node) : RollsUp nodes (rollUp nodes) := by
  induction nodes using List.reverseRecOn with
  | nil => exact ⟨[], [], by simp, rfl, rfl⟩
  | append_singleton seen node ih =>
    rw [rollUp, List.foldl_concat]
    exact ih.step node

/-- A case that owns a node keeps it before the one that it takes in; a divider is taken in like any
other node. -/
example (test : Comparison) :
    rollUp [exit, .case test [breakLoop], exit, .default [], divider] =
      [.case test [breakLoop, exit], .default [divider]] := rfl

/-- Each branch is a stretch of the list that has been rolled up. -/
theorem RollsUp.exists_stretch (h : RollsUp nodes branches) {branch : Node}
    (hbranch : branch ∈ branches) :
    ∃ stretch : Stretch, stretch.nodes <:+: nodes ∧ branch = stretch.rolledUp := by
  obtain ⟨loose, stretches, -, rfl, rfl⟩ := h
  obtain ⟨stretch, hstretch, rfl⟩ := List.mem_map.mp hbranch
  have hpart : stretch.nodes <:+: stretches.flatMap Stretch.nodes :=
    List.infix_of_mem_flatten (List.mem_map_of_mem hstretch)
  exact ⟨stretch, hpart.trans (List.suffix_append loose _).isInfix, rfl⟩

end RollingUp

/-- No node is lost on the way into groups and branches. Groups hold no divider, and with one
divider between neighbours they are the list again. A switch has one branch for each case and each
default of its list, in order; it owns what it owned before and then the nodes up to the next
branch, and only the nodes before the first one are dropped. -/
theorem grouping_keeps_nodes (nodes : List Node) :
    ((∀ group ∈ (splitAtDividers nodes).1 :: (splitAtDividers nodes).2, divider ∉ group) ∧
      [divider].intercalate ((splitAtDividers nodes).1 :: (splitAtDividers nodes).2) = nodes) ∧
    ∃ (loose : List Node) (stretches : List Stretch),
      (∀ node ∈ loose, node.isBranch = false) ∧
      nodes = loose ++ stretches.flatMap Stretch.nodes ∧
      rollUp nodes = stretches.map Stretch.rolledUp := by
  have hgroups := divides_splitAtDividers nodes
  exact ⟨⟨hgroups.divider_notMem, hgroups.intercalate_eq⟩, rollsUp_rollUp nodes⟩

end Node

end Stencil
