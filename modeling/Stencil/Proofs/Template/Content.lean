import Stencil.Proofs.Template.Grammar

/-!
# The content of templates

No content of a template is lost, doubled or moved on the way to its tree. A walk of the tree names
its texts and statements in order, and the scanner finds the same ones in the source, save for what
stands loose in a switch before its first branch. The main statement is `Tree.walk_eq_of_parse`.
-/

set_option autoImplicit false

namespace Stencil

/-- A piece of content: a raw text or a statement. -/
inductive Token where
  | text (raw : Bytes)
  | statement (statement : Statement)

namespace Token

/-- Whether a piece opens a switch. -/
def opensSwitch : Token → Bool
  | statement (.switchOpen _) => true
  | _ => false

/-- Whether a piece closes a switch. -/
def closesSwitch : Token → Bool
  | statement .endSwitch => true
  | _ => false

/-- Whether a piece opens a branch of a switch. -/
def opensBranch : Token → Bool
  | statement (.caseMark _) | statement .defaultMark => true
  | _ => false

/-- The content without what stands loose between the opener of a switch and its own first branch,
or its end. The number counts the switches that are open inside the loose part; there is none
outside of one. -/
def dropLoose : Option Nat → List Token → List Token
  | _, [] => []
  | none, token :: rest => token :: dropLoose (if token.opensSwitch then some 0 else none) rest
  | some n, token :: rest =>
    if token.opensSwitch then dropLoose (some (n + 1)) rest
    else
      match n with
      | 0 =>
        if token.opensBranch || token.closesSwitch then token :: dropLoose none rest
        else dropLoose (some 0) rest
      | n + 1 => dropLoose (some (if token.closesSwitch then n else n + 1)) rest

end Token

/-- A segment as content; a region is its statement. -/
def Segment.token? : Segment → Option Token
  | text raw => some (.text raw)
  | region _ inside => (Statement.parse inside.strip).toOption.map .statement
  | unclosed _ => none

namespace Node

mutual

/-- The content of a node in order. -/
def walk : Node → List Token
  | raw text => [.text text]
  | print statement => [.statement (.print statement)]
  | bind statement => [.statement (.bind statement)]
  | counter statement => [.statement (.counter statement)]
  | cond condition children =>
    .statement (.ifOpen condition) :: (walkAll children ++ [.statement .endIf])
  | onTrue children => walkAll children
  | onFalse children => .statement .elseMark :: walkAll children
  | forRange head children =>
    .statement (.forOpen (.range head)) :: (walkAll children ++ [.statement .endFor])
  | forCount head children =>
    .statement (.forOpen (.count head)) :: (walkAll children ++ [.statement .endFor])
  | breakLoop => [.statement .breakLoop]
  | continueLoop => [.statement .continueLoop]
  | switch subject children =>
    .statement (.switchOpen subject) :: (walkAll children ++ [.statement .endSwitch])
  | case test children => .statement (.caseMark test) :: walkAll children
  | default children => .statement .defaultMark :: walkAll children
  | divider => [.statement .elseMark]
  | exit => [.statement .exit]

/-- The content of nodes in order. -/
def walkAll : List Node → List Token
  | [] => []
  | node :: rest => node.walk ++ walkAll rest

end

/-- Nodes in a row have their content in a row. -/
@[simp] theorem walkAll_append (nodes more : List Node) :
    walkAll (nodes ++ more) = walkAll nodes ++ walkAll more := by
  induction nodes with
  | nil => rfl
  | cons node rest ih => simp [walkAll, ih]

/-- Nodes that are put together have their content put together. -/
theorem walkAll_flatMap {α : Type} (l : List α) (f : α → List Node) :
    walkAll (l.flatMap f) = l.flatMap fun a => walkAll (f a) := by
  induction l with
  | nil => rfl
  | cons a rest ih => simp [ih]

/-- Dividing the nodes of a condition moves no content. -/
theorem walkAll_splitAtDividers (nodes : List Node) :
    walkAll (splitAtDividers nodes).1 ++
      (splitAtDividers nodes).2.flatMap (fun group => .statement .elseMark :: walkAll group) =
        walkAll nodes := by
  conv_rhs => rw [(divides_splitAtDividers nodes).eq_append, walkAll_append, walkAll_flatMap]
  rfl

/-- What is appended to the children of a branch stands behind its content. -/
theorem walk_append {node : Node} (hbranch : node.isBranch = true) (more : List Node) :
    (node.append more).walk = node.walk ++ walkAll more := by
  cases node <;> simp_all [isBranch, append, walk]

/-- Rolling up the branches of a switch moves no content. -/
theorem walkAll_rolledUp (stretches : List Stretch) :
    walkAll (stretches.map Stretch.rolledUp) = walkAll (stretches.flatMap Stretch.nodes) := by
  induction stretches with
  | nil => rfl
  | cons stretch rest ih =>
    have hwalk : stretch.rolledUp.walk = walkAll stretch.nodes := by
      rw [Stretch.rolledUp, ← append_branch, walk_append (isBranch_branch _ _), Stretch.nodes,
        walkAll]
    rw [List.map_cons, List.flatMap_cons, walkAll, walkAll_append, hwalk, ih]

/-- From its first branch on a switch keeps everything. -/
theorem walkAll_rollUp_cons_branch {node : Node} (hbranch : node.isBranch = true)
    (rest : List Node) : walkAll (rollUp (node :: rest)) = node.walk ++ walkAll rest := by
  obtain ⟨loose, stretches, hloose, hnodes, hrolled⟩ := rollsUp_rollUp (node :: rest)
  cases loose with
  | nil =>
    rw [hrolled, walkAll_rolledUp, ← List.nil_append (stretches.flatMap _), ← hnodes, walkAll]
  | cons first more =>
    -- The first node is a branch, and so nothing stands before the first branch.
    obtain rfl : node = first := (List.cons.inj hnodes).1
    exact absurd hbranch (by simp [hloose node (.head _)])

/-- Before its first branch a switch keeps nothing. -/
theorem rollUp_cons_loose {node : Node} (hbranch : node.isBranch = false) (rest : List Node) :
    rollUp (node :: rest) = rollUp rest := by
  simp [rollUp, rollStep, hbranch]

end Node

/-- The nodes of a body that its construct keeps: a switch drops what stands before its first
branch. -/
def Construct.kept (construct : Construct) (nodes : List Node) : List Node :=
  match construct with
  | switch _ => Node.rollUp nodes
  | condition _ | loop _ => nodes

/-- The content of a construct stands between its opener and its terminator. -/
theorem Construct.walk_of_node? {construct : Construct} {nodes : List Node} {node : Node}
    (h : construct.node? nodes = some node) :
    node.walk = .statement construct.opening ::
      (Node.walkAll (construct.kept nodes) ++ [.statement construct.closing]) := by
  cases construct with
  | condition test =>
    have hsplit := Node.walkAll_splitAtDividers nodes
    obtain ⟨group, hgroup, rfl⟩ | ⟨group, other, hgroup, rfl⟩ := eq_cond_of_node? h
    · simpa [hgroup, Node.walk, Node.walkAll, opening, closing, kept] using hsplit
    · simp only [hgroup] at hsplit
      simp [Node.walk, Node.walkAll, opening, closing, kept, ← hsplit]
  | loop head =>
    cases head <;> (cases h; rfl)
  | switch subject =>
    cases h
    rfl

namespace Statement

variable {statement : Statement} {body : Body} {depth : Depth} {node : Node}

/-- A statement that makes a node by itself is the content of that node. -/
theorem walk_of_part (h : statement.part body depth = .ok (.node node)) :
    node.walk = [.statement statement] := by
  cases statement <;> simp [part, mark_part_eq_ok_iff] at h <;> grind [Node.walk, Node.walkAll]

/-- A statement that makes a node by itself neither opens nor closes a switch. -/
theorem opensSwitch_of_part (h : statement.part body depth = .ok (.node node)) :
    (Token.statement statement).opensSwitch = false ∧
      (Token.statement statement).closesSwitch = false := by
  cases statement <;> simp_all [part, mark_part_eq_ok_iff, Token.opensSwitch, Token.closesSwitch]

/-- Branches begin in the body of a switch only. -/
theorem opensBranch_of_part (h : statement.part body depth = .ok (.node node)) :
    (Token.statement statement).opensBranch = node.isBranch ∧
      (node.isBranch = true → body = .switch) := by
  cases statement <;> simp [part, mark_part_eq_ok_iff] at h <;>
    grind [Token.opensBranch, Node.isBranch]

end Statement

namespace Token

variable {token : Token} {n : Nat} {rest : List Token}

/-- Outside loose parts a piece that opens no switch stays. -/
theorem dropLoose_none_cons (h : token.opensSwitch = false) :
    dropLoose none (token :: rest) = token :: dropLoose none rest := by
  simp [dropLoose, h]

/-- A switch that opens inside a loose part is counted. -/
theorem dropLoose_some_opener (h : token.opensSwitch = true) :
    dropLoose (some n) (token :: rest) = dropLoose (some (n + 1)) rest := by
  cases n <;> simp [dropLoose, h]

/-- A switch that closes inside a loose part is counted off. -/
theorem dropLoose_some_closer (h : token.opensSwitch = false) (hclose : token.closesSwitch = true) :
    dropLoose (some (n + 1)) (token :: rest) = dropLoose (some n) rest := by
  simp [dropLoose, h, hclose]

/-- A loose part ends where its own switch branches or ends. -/
theorem dropLoose_some_zero (h : token.opensSwitch = false)
    (hend : token.opensBranch = true ∨ token.closesSwitch = true) :
    dropLoose (some 0) (token :: rest) = token :: dropLoose none rest := by
  simp [dropLoose, h, hend]

/-- Inside a loose part other pieces are dropped, and so are the branches of switches inside it. -/
theorem dropLoose_some_cons (h : token.opensSwitch = false) (hclose : token.closesSwitch = false)
    (hbranch : token.opensBranch = false ∨ n ≠ 0) :
    dropLoose (some n) (token :: rest) = dropLoose (some n) rest := by
  cases n <;> simp_all [dropLoose]

end Token

/-- Outside loose parts a raw text stays. -/
theorem Segment.dropLoose_none_ofText (raw : Bytes) (rest : List Token) :
    Token.dropLoose none ((ofText raw).filterMap token? ++ rest) =
      Node.walkAll (Node.ofText raw) ++ Token.dropLoose none rest := by
  by_cases hraw : raw.isEmpty = true
  · simp [ofText, Node.ofText, hraw, Node.walkAll]
  · simp [ofText, Node.ofText, hraw, Node.walkAll, Node.walk, token?,
      Token.dropLoose_none_cons (rfl : (Token.text raw).opensSwitch = false)]

/-- Inside a loose part a raw text is dropped. -/
theorem Segment.dropLoose_some_ofText (n : Nat) (raw : Bytes) (rest : List Token) :
    Token.dropLoose (some n) ((ofText raw).filterMap token? ++ rest) =
      Token.dropLoose (some n) rest := by
  by_cases hraw : raw.isEmpty = true
  · simp [ofText, hraw]
  · simp [ofText, hraw, token?,
      Token.dropLoose_some_cons (rfl : (Token.text raw).opensSwitch = false) rfl (.inl rfl)]

/-- A raw text before the first branch is not rolled up. -/
theorem Node.rollUp_ofText_append (raw : Bytes) (nodes : List Node) :
    rollUp (ofText raw ++ nodes) = rollUp nodes := by
  by_cases hraw : raw.isEmpty = true
  · simp [ofText, hraw]
  · simp [ofText, hraw, rollUp_cons_loose (rfl : (Node.raw raw).isBranch = false)]

/-- The content of a region is its statement. -/
theorem Segment.filterMap_region {offset : Nat} {inside : Bytes} {statement : Statement}
    (raw : Bytes) (hparse : Statement.parse inside.strip = .ok statement)
    (segments : List Segment) (rest : List Token) :
    (ofText raw ++ region offset inside :: segments).filterMap token? ++ rest =
      (ofText raw).filterMap token? ++
        (.statement statement :: (segments.filterMap token? ++ rest)) := by
  simp [token?, hparse, Except.toOption]

/-- The content of a construct is its opener, what is inside, and its closer. -/
theorem Segment.filterMap_construct {start finish : Nat} {opening closing : Bytes}
    {opener closer : Statement} (raw : Bytes)
    (hopening : Statement.parse opening.strip = .ok opener) (inner : List Segment)
    (hclosing : Statement.parse closing.strip = .ok closer) (segments : List Segment)
    (rest : List Token) :
    (ofText raw ++ region start opening :: (inner ++ region finish closing :: segments)).filterMap
        token? ++ rest =
      (ofText raw).filterMap token? ++ (.statement opener :: (inner.filterMap token? ++
        .statement closer :: (segments.filterMap token? ++ rest))) := by
  simp [token?, hopening, hclosing, Except.toOption]

/-- A construct is dropped whole in a loose part, when its body is. -/
theorem Construct.dropLoose_some (construct : Construct) {inner : List Token} (n : Nat)
    (hinner : ∀ m, (construct.body = .switch → m ≠ 0) → ∀ rest,
      Token.dropLoose (some m) (inner ++ rest) = Token.dropLoose (some m) rest)
    (rest : List Token) :
    Token.dropLoose (some n) (.statement construct.opening ::
      (inner ++ .statement construct.closing :: rest)) = Token.dropLoose (some n) rest := by
  cases construct with
  | switch subject =>
    rw [Token.dropLoose_some_opener rfl, hinner (n + 1) (by simp),
      Token.dropLoose_some_closer rfl rfl]
  | condition test =>
    rw [Token.dropLoose_some_cons rfl rfl (.inl rfl), hinner n (by simp [body]),
      Token.dropLoose_some_cons rfl rfl (.inl rfl)]
  | loop head =>
    rw [Token.dropLoose_some_cons rfl rfl (.inl rfl), hinner n (by simp [body]),
      Token.dropLoose_some_cons rfl rfl (.inl rfl)]

/-- Of a construct outside of a loose part, what its body keeps is kept. -/
theorem Construct.dropLoose_none (construct : Construct) {inner : List Token} {nodes : List Node}
    (hkeep : ∀ rest, Token.dropLoose none (inner ++ rest) =
      Node.walkAll nodes ++ Token.dropLoose none rest)
    (hloose : construct.body = .switch → ∀ rest,
      Token.dropLoose (some 0) (inner ++ .statement .endSwitch :: rest) =
        Node.walkAll (Node.rollUp nodes) ++ .statement .endSwitch :: Token.dropLoose none rest)
    (rest : List Token) :
    Token.dropLoose none (.statement construct.opening ::
      (inner ++ .statement construct.closing :: rest)) =
        .statement construct.opening :: (Node.walkAll (construct.kept nodes) ++
          .statement construct.closing :: Token.dropLoose none rest) := by
  cases construct with
  | switch subject =>
    exact congrArg (Token.statement (Statement.switchOpen subject) :: ·) (hloose rfl rest)
  | condition test =>
    rw [Token.dropLoose_none_cons rfl, hkeep, Token.dropLoose_none_cons rfl]
    rfl
  | loop head =>
    rw [Token.dropLoose_none_cons rfl, hkeep, Token.dropLoose_none_cons rfl]
    rfl

/-- A body is dropped whole in a loose part; the body of a switch only in one that another switch
began. -/
theorem Spells.dropLoose_some {body : Body} {depth : Depth} {segments : List Segment}
    {nodes : List Node} (h : Spells body depth segments nodes) (n : Nat)
    (hn : body = .switch → n ≠ 0) (rest : List Token) :
    Token.dropLoose (some n) (segments.filterMap Segment.token? ++ rest) =
      Token.dropLoose (some n) rest := by
  induction h generalizing n rest with
  | last raw => exact Segment.dropLoose_some_ofText n raw rest
  | @node body depth raw inside offset statement node segments nodes hparse hpart hmore ih =>
    obtain ⟨hopens, hcloses⟩ := Statement.opensSwitch_of_part hpart
    obtain ⟨hbranch, hswitch⟩ := Statement.opensBranch_of_part hpart
    have hkept : (Token.statement statement).opensBranch = false ∨ n ≠ 0 := by
      rw [hbranch]
      grind
    rw [Segment.filterMap_region raw hparse, Segment.dropLoose_some_ofText,
      Token.dropLoose_some_cons hopens hcloses hkept, ih n hn]
  | @construct body depth raw opening closing start finish construct inner segments children nodes
      node hopening hinner hclosing hnode hmore ihinner ihmore =>
    rw [Segment.filterMap_construct raw hopening inner hclosing, Segment.dropLoose_some_ofText,
      construct.dropLoose_some n ihinner, ihmore n hn]

/-- Of a body everything is kept outside of a loose part; in the loose part of its own switch, what
the switch keeps. -/
theorem Spells.dropLoose_none {body : Body} {depth : Depth} {segments : List Segment}
    {nodes : List Node} (h : Spells body depth segments nodes) :
    (∀ rest, Token.dropLoose none (segments.filterMap Segment.token? ++ rest) =
      Node.walkAll nodes ++ Token.dropLoose none rest) ∧
    (body = .switch → ∀ rest,
      Token.dropLoose (some 0)
          (segments.filterMap Segment.token? ++ .statement .endSwitch :: rest) =
        Node.walkAll (Node.rollUp nodes) ++
          .statement .endSwitch :: Token.dropLoose none rest) := by
  induction h with
  | last raw =>
    constructor
    · intro rest
      exact Segment.dropLoose_none_ofText raw rest
    · rintro - rest
      -- The switch ends without a branch and keeps nothing.
      have hempty := Node.rollUp_ofText_append raw []
      rw [List.append_nil] at hempty
      rw [Segment.dropLoose_some_ofText, Token.dropLoose_some_zero rfl (.inr rfl), hempty]
      rfl
  | @node body depth raw inside offset statement node segments nodes hparse hpart hmore ih =>
    obtain ⟨ihkeep, ihloose⟩ := ih
    obtain ⟨hopens, hcloses⟩ := Statement.opensSwitch_of_part hpart
    obtain ⟨hbranch, -⟩ := Statement.opensBranch_of_part hpart
    have hwalk := Statement.walk_of_part hpart
    constructor
    · intro rest
      rw [Segment.filterMap_region raw hparse, Segment.dropLoose_none_ofText,
        Token.dropLoose_none_cons hopens, ihkeep]
      simp [Node.walkAll, hwalk]
    · intro hbody rest
      rw [Segment.filterMap_region raw hparse, Segment.dropLoose_some_ofText,
        Node.rollUp_ofText_append]
      cases hnode : node.isBranch with
      | true =>
        -- The loose part ends here, and what follows is kept as outside of it.
        rw [Token.dropLoose_some_zero hopens (.inl (hbranch.trans hnode)), ihkeep,
          Node.walkAll_rollUp_cons_branch hnode, hwalk,
          Token.dropLoose_none_cons (rfl : (Token.statement .endSwitch).opensSwitch = false)]
        simp
      | false =>
        rw [Token.dropLoose_some_cons hopens hcloses (.inl (hbranch.trans hnode)), ihloose hbody,
          Node.rollUp_cons_loose hnode]
  | @construct body depth raw opening closing start finish construct inner segments children nodes
      node hopening hinner hclosing hnode hmore ihinner ihmore =>
    obtain ⟨ihkeep, ihloose⟩ := ihmore
    obtain ⟨-, hbranch⟩ := Construct.isDivider_isBranch_of_node? hnode
    have hwalk := Construct.walk_of_node? hnode
    constructor
    · intro rest
      rw [Segment.filterMap_construct raw hopening inner hclosing, Segment.dropLoose_none_ofText,
        construct.dropLoose_none ihinner.1 ihinner.2, ihkeep]
      simp [Node.walkAll, hwalk]
    · intro hbody rest
      rw [Segment.filterMap_construct raw hopening inner hclosing, Segment.dropLoose_some_ofText,
        construct.dropLoose_some 0 hinner.dropLoose_some, ihloose hbody,
        Node.rollUp_ofText_append, Node.rollUp_cons_loose hbranch]

/-- Every segment of a body has content, and no raw text is empty. -/
theorem Spells.token?_ne_none {body : Body} {depth : Depth} {segments : List Segment}
    {nodes : List Node} (h : Spells body depth segments nodes) :
    ∀ segment ∈ segments, segment.token? ≠ none ∧ segment ≠ .text [] := by
  have htext : ∀ raw, ∀ segment ∈ Segment.ofText raw,
      segment.token? ≠ none ∧ segment ≠ .text [] := by
    intro raw segment hmem
    by_cases hraw : raw.isEmpty = true
    · simp [Segment.ofText, hraw] at hmem
    · obtain rfl : segment = .text raw := by simpa [Segment.ofText, hraw] using hmem
      simp_all [Segment.token?]
  have hregion : ∀ offset inside statement, Statement.parse inside.strip = .ok statement →
      (Segment.region offset inside).token? ≠ none ∧ Segment.region offset inside ≠ .text [] := by
    intro offset inside statement hparse
    simp [Segment.token?, hparse, Except.toOption]
  induction h with
  | last raw => exact htext raw
  | node hparse hpart hmore ih =>
    simp only [List.forall_mem_append, List.forall_mem_cons]
    exact ⟨htext _, hregion _ _ _ hparse, ih⟩
  | construct hopening hinner hclosing hnode hmore ihinner ihmore =>
    simp only [List.forall_mem_append, List.forall_mem_cons]
    exact ⟨htext _, hregion _ _ _ hopening, ihinner, hregion _ _ _ hclosing, ihmore⟩

/-- A template that is accepted has the content of its source. The scanner cuts the prepared source
into raw texts, none of them empty, and closed regions, each of them a statement; the walk of the
tree names the same content in the same order, and only what stands loose in a switch is dropped. -/
theorem Tree.walk_eq_of_parse {keepFormatting : Bool} {text : Bytes} {tree : Tree}
    (h : Tree.parse keepFormatting text = .ok tree) :
    (Segment.scan (Source.prepare keepFormatting text)).flatMap Segment.written =
        Source.prepare keepFormatting text ∧
      (∀ segment ∈ Segment.scan (Source.prepare keepFormatting text),
        segment.token? ≠ none ∧ segment ≠ .text []) ∧
      Node.walkAll tree.nodes = Token.dropLoose none
        ((Segment.scan (Source.prepare keepFormatting text)).filterMap Segment.token?) := by
  have hspells := Tree.spells_of_parse h
  have htokens := hspells.token?_ne_none
  refine ⟨Segment.flatMap_written_scanFrom 0 _ ?_, htokens, ?_⟩
  · rw [List.all_eq_true]
    intro segment hmem
    cases segment with
    | unclosed offset => exact absurd rfl (htokens _ hmem).1
    | text raw => rfl
    | region offset inside => rfl
  · have hkeep := hspells.dropLoose_none.1 []
    simpa [Token.dropLoose] using hkeep.symm

/-- A template with a text that stands loose in a switch. -/
def Source.loose : Bytes := ascii "{% switch x %}-{% case 1 %}b{% endswitch %}"

/-- The tree of that template. -/
def Tree.loose : Tree :=
  ⟨[.switch (Operand.parse (ascii "x"))
    [.case (Comparison.parse (ascii "1")) [.raw (ascii "b")]]]⟩

set_option maxRecDepth 4000 in
/-- The reader reads the template as that tree. -/
theorem Reader.reads_loose :
    Reads (start Source.loose)
      { nodes := Tree.loose.nodes, depth := {}, offset := 43, rest := [] } := by
  have hswitch : Statement.parse (ascii " switch x ").strip =
      .ok (Construct.switch (Operand.parse (ascii "x"))).opening := rfl
  have hcase : Statement.parse (ascii " case 1 ").strip =
      .ok (.caseMark (Comparison.parse (ascii "1"))) := rfl
  have hend : Statement.parse (ascii " endswitch ").strip = .ok .endSwitch := rfl
  let outer := start Source.loose
  have hmeets : outer.Meets [] (ascii " switch x ") (ascii "-{% case 1 %}b{% endswitch %}") :=
    ⟨rfl, _, rfl, rfl⟩
  let body := outer.enter (.switch (Operand.parse (ascii "x"))) [] (ascii " switch x ")
    (ascii "-{% case 1 %}b{% endswitch %}")
  have hmeetsCase : body.Meets (ascii "-") (ascii " case 1 ") (ascii "b{% endswitch %}") :=
    ⟨rfl, _, rfl, rfl⟩
  have hmeetsEnd : (body.pass (ascii "-") (ascii " case 1 ") (ascii "b{% endswitch %}")).Meets
      (ascii "b") (ascii " endswitch ") [] := ⟨rfl, _, rfl, rfl⟩
  have hbody := Reads.node hmeetsCase hcase rfl (.ends hmeetsEnd hend rfl)
  exact .construct hmeets hswitch rfl hbody rfl (.finish rfl rfl rfl)

/-- The template is parsed as that tree. -/
theorem Tree.parse_loose : parse true Source.loose = .ok loose :=
  parse_of_reads rfl Reader.reads_loose

/-- The walk of a tree whose source has a text that is dropped. -/
theorem Tree.walk_loose :
    parse true Source.loose = .ok loose ∧
      Node.walkAll loose.nodes = Token.dropLoose none
        ((Segment.scan (Source.prepare true Source.loose)).filterMap Segment.token?) :=
  ⟨parse_loose, (walk_eq_of_parse parse_loose).2.2⟩

end Stencil
