import Mathlib.Logic.Relation
import Stencil.Proofs.Template.Grammar

/-!
# Nesting

A reference recogniser keeps one stack of open constructs. The reader has no such stack: it has
three counters, the counters from before its construct, and the kind of its body. This file shows
that they come to the same: a source is accepted exactly when the recogniser empties its stack, and
wherever the reader stands, its counters count the stack. The main statement is
`Tree.accepts_iff_nested`.
-/

set_option autoImplicit false

namespace Stencil

/-- A construct that is open. A condition knows how many dividers of its own have been seen. -/
inductive Open where
  | condition (dividers : Nat)
  | loop
  | switch
  deriving DecidableEq

namespace Open

/-- The body that an open construct has. -/
def body : Open → Body
  | condition _ => .condition
  | loop => .loop
  | switch => .switch

/-- A construct when it opens, with no divider yet. -/
def ofConstruct : Construct → Open
  | .condition _ => condition 0
  | .loop _ => loop
  | .switch _ => switch

/-- An open construct has the body of the construct. -/
@[simp] theorem body_ofConstruct (construct : Construct) :
    (ofConstruct construct).body = construct.body := by
  cases construct <;> rfl

end Open

namespace Nesting

/-- The stack after a statement, unless the statement must not stand there. -/
def step (stack : List Open) : Statement → Option (List Open)
  | .print _ | .bind _ | .counter _ | .exit => some stack
  | .ifOpen _ => some (.condition 0 :: stack)
  | .forOpen _ => some (.loop :: stack)
  | .switchOpen _ => some (.switch :: stack)
  | .elseMark =>
    match stack with
    | .condition dividers :: rest => some (.condition (dividers + 1) :: rest)
    | _ => none
  | .endIf =>
    match stack with
    | .condition dividers :: rest => if dividers ≤ 1 then some rest else none
    | _ => none
  | .endFor =>
    match stack with
    | .loop :: rest => some rest
    | _ => none
  | .caseMark _ | .defaultMark =>
    match stack with
    | .switch :: _ => some stack
    | _ => none
  | .endSwitch =>
    match stack with
    | .switch :: rest => some rest
    | _ => none
  | .breakLoop | .continueLoop => if .loop ∈ stack then some stack else none

/-- The stack after a segment. A region must be closed and a statement. -/
def stepSegment (stack : List Open) : Segment → Option (List Open)
  | .text _ => some stack
  | .region _ inside =>
    match Statement.parse inside.strip with
    | .ok statement => step stack statement
    | .error _ => none
  | .unclosed _ => none

/-- The stack after segments, from left to right. -/
def run (stack : List Open) : List Segment → Option (List Open)
  | [] => some stack
  | segment :: rest => (stepSegment stack segment).bind (run · rest)

/-- How many constructs of each kind are on a stack. -/
def count (stack : List Open) : Depth where
  conditions := stack.countP (·.body = .condition)
  loops := stack.countP (·.body = .loop)
  switches := stack.countP (·.body = .switch)

/-- The body on the top of a stack. -/
def top : List Open → Body
  | [] => .template
  | opened :: _ => opened.body

/-- A stack whose top has seen more dividers. -/
def divide (dividers : Nat) : List Open → List Open
  | .condition seen :: rest => .condition (seen + dividers) :: rest
  | stack => stack

/-- Segments in a row are run through one after another. -/
theorem run_append (stack : List Open) (segments more : List Segment) :
    run stack (segments ++ more) = (run stack segments).bind (run · more) := by
  induction segments generalizing stack with
  | nil => rfl
  | cons segment rest ih =>
    simp only [List.cons_append, run]
    cases stepSegment stack segment with
    | none => rfl
    | some next => exact ih next

/-- A raw text opens and closes nothing. -/
@[simp] theorem run_ofText (stack : List Open) (raw : Bytes) :
    run stack (Segment.ofText raw) = some stack := by
  by_cases hraw : raw.isEmpty = true
  · simp [Segment.ofText, hraw, run]
  · simp [Segment.ofText, hraw, run, stepSegment]

/-- A region is one step, and the others follow it. -/
theorem run_region {stack : List Open} {inside : Bytes} {offset : Nat} {statement : Statement}
    (hparse : Statement.parse inside.strip = .ok statement) (segments : List Segment) :
    run stack (.region offset inside :: segments) =
      (step stack statement).bind (run · segments) := by
  rw [run, stepSegment, hparse]

/-- The counters of a stack go up with what it opens. -/
@[simp] theorem count_cons (opened : Open) (stack : List Open) :
    count (opened :: stack) = (count stack).enter opened.body := by
  cases opened <;> simp [count, Depth.enter, Open.body]

/-- Dividers do not count. -/
@[simp] theorem count_divide (dividers : Nat) (stack : List Open) :
    count (divide dividers stack) = count stack := by
  rcases stack with _ | ⟨_ | _ | _, rest⟩ <;> rfl

/-- Dividers do not change what is open. -/
@[simp] theorem top_divide (dividers : Nat) (stack : List Open) :
    top (divide dividers stack) = top stack := by
  rcases stack with _ | ⟨_ | _ | _, rest⟩ <;> rfl

/-- Dividers belong to the innermost construct. -/
@[simp] theorem tail_divide (dividers : Nat) (stack : List Open) :
    (divide dividers stack).tail = stack.tail := by
  rcases stack with _ | ⟨_ | _ | _, rest⟩ <;> rfl

/-- Without dividers the stack is what it was. -/
@[simp] theorem divide_zero (stack : List Open) : divide 0 stack = stack := by
  rcases stack with _ | ⟨_ | _ | _, rest⟩ <;> rfl

/-- Dividers add up. -/
@[simp] theorem divide_divide (dividers more : Nat) (stack : List Open) :
    divide more (divide dividers stack) = divide (dividers + more) stack := by
  rcases stack with _ | ⟨_ | _ | _, rest⟩ <;> simp [divide, Nat.add_assoc]

/-- A loop is counted exactly when it is on the stack. -/
theorem count_loops_ne_zero_iff (stack : List Open) :
    (count stack).loops ≠ 0 ↔ .loop ∈ stack := by
  have hloop : ∀ opened : Open, opened.body = .loop ↔ opened = .loop := by
    intro opened
    cases opened <;> simp [Open.body]
  rw [← Nat.pos_iff_ne_zero, count, List.countP_pos_iff]
  simp [hloop]

/-- A statement that the reader refuses is refused by the recogniser. -/
theorem step_of_part_error {stack : List Open} {statement : Statement} {fault : TemplateFault}
    (h : statement.part (top stack) (count stack) = .error fault) :
    step stack statement = none := by
  have hloop := count_loops_ne_zero_iff stack
  rcases stack with _ | ⟨_ | _ | _, rest⟩ <;> cases statement <;>
    simp_all [Statement.part, Statement.mark_part_eq_error_iff, step, top, Open.body]

/-- Of the statements that are nodes, the one between two branches is a divider. -/
theorem isDivider_of_part {statement : Statement} {body : Body} {depth : Depth} {node : Node}
    (h : statement.part body depth = .ok (.node node)) :
    node.isDivider = true ↔ statement = .elseMark := by
  cases statement <;> simp [Statement.part, Statement.mark_part_eq_ok_iff] at h <;>
    grind [Node.isDivider]

/-- A statement that is a node only counts as a divider, when it is one. -/
theorem step_of_part_node {stack : List Open} {statement : Statement} {node : Node}
    (h : statement.part (top stack) (count stack) = .ok (.node node)) :
    step stack statement = some (divide (if node.isDivider then 1 else 0) stack) := by
  have hloop := count_loops_ne_zero_iff stack
  simp only [isDivider_of_part h]
  rcases stack with _ | ⟨_ | _ | _, rest⟩ <;> cases statement <;>
    simp_all [Statement.part, Statement.mark_part_eq_ok_iff, step, top, Open.body, divide]

/-- What opens a construct puts it on the stack. -/
@[simp] theorem step_opening (stack : List Open) (construct : Construct) :
    step stack construct.opening = some (.ofConstruct construct :: stack) := by
  cases construct <;> rfl

/-- A construct can be closed when its nodes are the body of one. -/
theorem step_closing (stack : List Open) (construct : Construct) (nodes : List Node) :
    step (divide (nodes.countP Node.isDivider) (.ofConstruct construct :: stack))
        construct.closing =
      (construct.node? nodes).map fun _ => stack := by
  rw [← (Node.divides_splitAtDividers nodes).length_eq]
  cases construct with
  | condition test =>
    cases hsplit : Node.splitAtDividers nodes with
    | mk group others =>
      rcases others with _ | ⟨other, _ | ⟨_, _⟩⟩ <;>
        simp [step, divide, Open.ofConstruct, Construct.closing, Construct.node?, hsplit]
  | loop head => cases head <;> rfl
  | switch subject => rfl

/-- A raw text holds no divider. -/
@[simp] theorem countP_isDivider_ofText (raw : Bytes) :
    (Node.ofText raw).countP Node.isDivider = 0 := by
  by_cases hraw : raw.isEmpty = true <;> simp [Node.ofText, hraw, Node.isDivider]

end Nesting

open Nesting

/-- The recogniser runs through the segments of a body and leaves its stack as it was, but for the
dividers of the body. -/
theorem Spells.run_eq {body : Body} {depth : Depth} {segments : List Segment} {nodes : List Node}
    (h : Spells body depth segments nodes) (stack : List Open) (htop : top stack = body)
    (hcount : count stack = depth) :
    run stack segments = some (divide (nodes.countP Node.isDivider) stack) := by
  induction h generalizing stack with
  | last raw => simp
  | @node body depth raw inside offset statement node segments nodes hparse hpart hmore ih =>
    -- The stack is the one that the reader would have, so that its verdict can be taken over.
    subst htop hcount
    rw [run_append, run_ofText, Option.bind_some, run_region hparse, step_of_part_node hpart,
      Option.bind_some, ih _ (by simp) (by simp), divide_divide, List.countP_append,
      countP_isDivider_ofText, List.countP_cons, Nat.zero_add, Nat.add_comm]
  | @construct body depth raw opening closing start finish construct inner segments children nodes
      node hopening hinner hclosing hnode hmore ihinner ihmore =>
    rw [run_append, run_ofText, Option.bind_some, run_region hopening, step_opening,
      Option.bind_some, run_append,
      ihinner (.ofConstruct construct :: stack) (Open.body_ofConstruct construct)
        (by simp [hcount]),
      Option.bind_some, run_region hclosing, step_closing, hnode, Option.map_some,
      Option.bind_some, ihmore stack htop hcount]
    simp [(Construct.isDivider_isBranch_of_node? hnode).1]

/-- The recogniser runs through the body of a construct that has been read, and its closing decides
on the dividers. -/
theorem Reads.run_construct {reader : Reader} {construct : Construct} {raw inside rest : Bytes}
    {inner : Reading} (hinner : Reads (reader.enter construct raw inside rest) inner)
    (stack : List Open) (hcount : count stack = reader.depth) :
    ∃ segments, Segment.scanFrom (reader.regionEnd raw inside) rest =
        segments ++ Segment.scanFrom inner.offset inner.rest ∧
      run (.ofConstruct construct :: stack) segments =
        (construct.node? inner.nodes).map fun _ => stack := by
  obtain ⟨segments, ending, hscan, hends, hspells⟩ := hinner.spells rfl
  obtain ⟨finish, closing, rfl, hclosing⟩ := hends.of_construct
  refine ⟨segments ++ [.region finish closing], ?_, ?_⟩
  · rw [List.append_assoc]
    exact hscan
  · have hdepth : count (.ofConstruct construct :: stack) = reader.depth.enter construct.body := by
      simp [hcount]
    have hrun := hspells.run_eq (.ofConstruct construct :: stack) (Open.body_ofConstruct construct)
      hdepth
    rw [run_append, hrun, Option.bind_some, run_region hclosing, step_closing]
    cases construct.node? inner.nodes <;> rfl

/-- A run goes on with the region that the reader meets. -/
theorem Reader.Meets.run_eq {reader : Reader} {raw inside rest : Bytes} {statement : Statement}
    (hmeets : reader.Meets raw inside rest)
    (hparse : Statement.parse inside.strip = .ok statement) (stack : List Open) :
    run stack (Segment.scanFrom reader.offset reader.rest) =
      (step stack statement).bind
        (run · (Segment.scanFrom (reader.regionEnd raw inside) rest)) := by
  rw [hmeets.scanFrom_eq, run_append, run_ofText, Option.bind_some, run_region hparse]

/-- A reader that is stopped by a fault has segments before it that the recogniser refuses, or that
leave a construct open. -/
theorem Fails.run_ne {reader : Reader} {fault : TemplateFault × Nat} (h : Fails reader fault)
    (hdepth : reader.depth = reader.target.enter reader.body) (stack : List Open)
    (htop : top stack = reader.body) (hcount : count stack = reader.depth) :
    run stack (Segment.scanFrom reader.offset reader.rest) ≠ some [] := by
  induction h generalizing stack with
  | unterminated hdone hbody hopen =>
    rw [Segment.scanFrom_of_none hopen, run_ofText]
    rintro ⟨⟩
    exact hbody htop.symm
  | unclosed hdone hopen hclose =>
    rw [Segment.scanFrom_of_unclosed hopen hclose, run_append, run_ofText, Option.bind_some]
    simp [run, stepSegment]
  | statement hmeets hparse =>
    rw [hmeets.scanFrom_eq, run_append, run_ofText, Option.bind_some]
    simp [run, stepSegment, hparse]
  | misplaced hmeets hparse hpart =>
    rw [← htop, ← hcount] at hpart
    simp [hmeets.run_eq hparse, step_of_part_error hpart]
  | @inner reader raw inside rest statement construct fault hmeets hparse hpart hinner ih =>
    obtain rfl := Statement.part_eq_opens_iff.mp hpart
    rw [hmeets.run_eq hparse, step_opening, Option.bind_some]
    exact ih rfl (.ofConstruct construct :: stack) (Open.body_ofConstruct construct)
      (by simp [hcount, Reader.enter, Reader.inside])
  | @divided reader raw inside rest statement construct inner hmeets hparse hpart hinner hnode =>
    obtain rfl := Statement.part_eq_opens_iff.mp hpart
    obtain ⟨segments, hscan, hrun⟩ := hinner.run_construct stack hcount
    rw [hmeets.run_eq hparse, step_opening, Option.bind_some, hscan, run_append, hrun, hnode]
    simp
  | @afterNode reader raw inside rest statement node fault hmeets hparse hpart hmore ih =>
    rw [← htop, ← hcount] at hpart
    rw [hmeets.run_eq hparse, step_of_part_node hpart, Option.bind_some]
    exact ih hdepth _ ((top_divide _ _).trans htop) ((count_divide _ _).trans hcount)
  | @afterConstruct reader raw inside rest statement construct inner node fault hmeets hparse hpart
      hinner hnode hmore ih =>
    obtain rfl := Statement.part_eq_opens_iff.mp hpart
    obtain ⟨segments, hscan, hrun⟩ := hinner.run_construct stack hcount
    have hdepthAfter : inner.depth = reader.depth := hinner.depth_eq rfl
    rw [hmeets.run_eq hparse, step_opening, Option.bind_some, hscan, run_append, hrun, hnode,
      Option.map_some, Option.bind_some]
    exact ih (hdepthAfter.trans hdepth) stack htop (hcount.trans hdepthAfter.symm)

/-- A source is accepted exactly when the recogniser empties its stack on it. -/
theorem Tree.exists_ofSource_iff (source : Bytes) :
    (∃ tree, Tree.ofSource source = .ok tree) ↔ run [] (Segment.scan source) = some [] := by
  have hofSource : (∃ tree, Tree.ofSource source = .ok tree) ↔
      ∃ nodes, Reader.parseSource source = .ok nodes := by
    rw [Tree.ofSource]
    cases Reader.parseSource source <;> simp
  rw [hofSource]
  constructor
  · rintro ⟨nodes, hnodes⟩
    exact (Reader.spells_of_parseSource hnodes).run_eq [] rfl rfl
  · intro hrun
    cases hparse : Reader.parseSource source with
    | ok nodes => exact ⟨nodes, rfl⟩
    | error fault => exact absurd hrun ((Reader.fails_of_parseSource hparse).run_ne rfl [] rfl rfl)

/-! ## The readers of a source -/

/-- The readers that a reader calls: for the body that its next region opens, and for what follows
the region. -/
inductive Reader.Calls : Reader → Reader → Prop
  | inside {reader : Reader} {raw inside rest : Bytes} {construct : Construct}
    (hmeets : reader.Meets raw inside rest)
    (hparse : Statement.parse inside.strip = .ok construct.opening) :
    Calls reader (reader.enter construct raw inside rest)
  | after {reader : Reader} {raw inside rest : Bytes} {region : Reading}
    (hmeets : reader.Meets raw inside rest)
    (hregion : reader.regionOutcome raw inside rest = .ok (region, false)) :
    Calls reader (reader.after region)

/-- A called reader has less left to read. -/
theorem Reader.Calls.length_lt {reader next : Reader} (h : reader.Calls next) :
    next.rest.length < reader.rest.length := by
  cases h with
  | inside hmeets hparse => exact hmeets.length_lt
  | after hmeets hregion =>
    exact Nat.lt_of_le_of_lt (Reader.length_le_of_regionOutcome hregion) hmeets.length_lt

/-- A reader of a source stands where the recogniser has a given stack, and its body and counters
are those of the stack. -/
structure Reader.Tracks (source : Bytes) (reader : Reader) (stack : List Open) : Prop where
  seen : ∃ segments, Segment.scan source =
      segments ++ Segment.scanFrom reader.offset reader.rest ∧ run [] segments = some stack
  body : reader.body = top stack
  depth : reader.depth = count stack
  target : reader.target = count stack.tail

/-- The counters of a reader that tracks a stack are those inside its body. -/
theorem Reader.Tracks.depth_eq {source : Bytes} {reader : Reader} {stack : List Open}
    (h : reader.Tracks source stack) : reader.depth = reader.target.enter reader.body := by
  rw [h.depth, h.target, h.body]
  cases stack with
  | nil => rfl
  | cons opened rest => exact count_cons opened rest

/-- A region that does not end its body is a node, or a construct whose body has been read. -/
theorem Reader.eq_of_regionOutcome {reader : Reader} {raw inside rest : Bytes} {region : Reading}
    (h : reader.regionOutcome raw inside rest = .ok (region, false)) :
    (∃ statement node, Statement.parse inside.strip = .ok statement ∧
      statement.part reader.body reader.depth = .ok (.node node) ∧
      reader.after region = reader.pass raw inside rest) ∨
    (∃ construct inner node, Statement.parse inside.strip = .ok construct.opening ∧
      Reads (reader.enter construct raw inside rest) inner ∧
      construct.node? inner.nodes = some node ∧ reader.after region = reader.after inner) := by
  rw [Reader.regionOutcome_eq] at h
  cases hparse : Statement.parse inside.strip with
  | error fault => simp [hparse] at h
  | ok statement =>
    cases hpart : statement.part reader.body reader.depth with
    | error fault => simp [hparse, hpart] at h
    | ok part =>
      cases part with
      | node node =>
        simp only [hparse, hpart, Except.ok.injEq, Prod.mk.injEq, and_true] at h
        subst h
        exact .inl ⟨statement, node, rfl, hpart, rfl⟩
      | ends => simp [hparse, hpart] at h
      | opens construct =>
        obtain rfl := Statement.part_eq_opens_iff.mp hpart
        cases hread : (reader.enter construct raw inside rest).outcome with
        | error fault =>
          rw [Reader.enter] at hread
          simp [hparse, hpart, hread] at h
        | ok inner =>
          have hinner := (Reader.sound _).reads inner hread
          rw [Reader.enter] at hread
          cases hnode : construct.node? inner.nodes with
          | none => simp [hparse, hpart, hread, hnode] at h
          | some node =>
            simp only [hparse, hpart, hread, hnode, Except.ok.injEq, Prod.mk.injEq, and_true] at h
            subst h
            exact .inr ⟨construct, inner, node, rfl, hinner, hnode, rfl⟩

/-- The readers that a tracking reader calls track a stack. -/
theorem Reader.Tracks.calls {source : Bytes} {reader next : Reader} {stack : List Open}
    (h : reader.Tracks source stack) (hcalls : reader.Calls next) :
    ∃ stack, next.Tracks source stack := by
  obtain ⟨⟨segments, hscan, hrun⟩, hbody, hdepth, htarget⟩ := h
  cases hcalls with
  | @inside raw inside rest construct hmeets hparse =>
    refine ⟨.ofConstruct construct :: stack, ⟨segments ++ (Segment.ofText raw ++
      [.region (reader.regionStart raw) inside]), ?_, ?_⟩, ?_, ?_, ?_⟩
    · rw [hscan, hmeets.scanFrom_eq]
      simp [Reader.enter, Reader.inside]
    · rw [run_append, hrun, Option.bind_some, run_append, run_ofText, Option.bind_some,
        run_region hparse, step_opening]
      rfl
    · exact (Open.body_ofConstruct construct).symm
    · simp [Reader.enter, Reader.inside, hdepth]
    · exact hdepth
  | @after raw inside rest region hmeets hregion =>
    obtain ⟨statement, node, hparse, hpart, hnext⟩ | ⟨construct, inner, node, hparse, hinner, hnode,
      hnext⟩ := Reader.eq_of_regionOutcome hregion
    · rw [hbody, hdepth] at hpart
      rw [hnext]
      refine ⟨divide (if node.isDivider then 1 else 0) stack, ⟨segments ++ (Segment.ofText raw ++
        [.region (reader.regionStart raw) inside]), ?_, ?_⟩, ?_, ?_, ?_⟩
      · rw [hscan, hmeets.scanFrom_eq]
        simp [Reader.pass]
      · rw [run_append, hrun, Option.bind_some, run_append, run_ofText, Option.bind_some,
          run_region hparse, step_of_part_node hpart]
        rfl
      · simpa [Reader.pass] using hbody
      · simpa [Reader.pass] using hdepth
      · simpa [Reader.pass] using htarget
    · obtain ⟨body, hscanBody, hrunBody⟩ := hinner.run_construct stack hdepth.symm
      have hdepthAfter : inner.depth = reader.depth := hinner.depth_eq rfl
      rw [hnext]
      refine ⟨stack, ⟨segments ++ (Segment.ofText raw ++
        .region (reader.regionStart raw) inside :: body), ?_, ?_⟩, hbody,
        hdepthAfter.trans hdepth, htarget⟩
      · rw [hscan, hmeets.scanFrom_eq, hscanBody]
        simp [Reader.after]
      · rw [run_append, hrun, Option.bind_some, run_append, run_ofText, Option.bind_some,
          run_region hparse, step_opening, Option.bind_some, hrunBody, hnode]
        rfl

/-- Wherever a reader of a source stands, it tracks a stack of the recogniser. -/
theorem Reader.exists_tracks {source : Bytes} {reader : Reader}
    (h : Relation.ReflTransGen Reader.Calls (Reader.start source) reader) :
    ∃ stack, reader.Tracks source stack := by
  induction h with
  | refl => exact ⟨[], ⟨[], rfl, rfl⟩, rfl, rfl, rfl⟩
  | tail _ hcalls ih =>
    obtain ⟨stack, htracks⟩ := ih
    exact htracks.calls hcalls

/-- Acceptance is proper nesting. Reading ends on every source, and a source has a tree exactly when
the recogniser empties its one stack on it. Wherever a reader of the source stands, its counters
count the stack; the counters are never back where they were before its construct until the
terminator of the construct has been read, and then they are; so the check of the counters at the
end of a template never fails. -/
theorem Tree.accepts_iff_nested (source : Bytes) :
    WellFounded (fun next reader => Reader.Calls reader next) ∧
    ((∃ tree, Tree.ofSource source = .ok tree) ↔ run [] (Segment.scan source) = some []) ∧
    (∀ reader, Relation.ReflTransGen Reader.Calls (Reader.start source) reader →
      (∃ stack, reader.Tracks source stack) ∧ reader.isDone = false ∧
      ∀ reading, reader.outcome = .ok reading → reading.depth = reader.target ∧
        ∃ segments ending, Segment.scanFrom reader.offset reader.rest = segments ++ ending ∧
          Ends reader.body ending (Segment.scanFrom reading.offset reading.rest)) ∧
    (∀ reading, (Reader.start source).outcome = .ok reading → reading.depth = {}) := by
  refine ⟨?_, Tree.exists_ofSource_iff source, ?_, ?_⟩
  · exact Subrelation.wf (fun hcalls => Reader.Calls.length_lt hcalls)
      (measure fun reader : Reader => reader.rest.length).wf
  · intro reader hreached
    obtain ⟨stack, htracks⟩ := Reader.exists_tracks hreached
    have hdepth := htracks.depth_eq
    refine ⟨⟨stack, htracks⟩, Reader.isDone_of_depth_eq hdepth, ?_⟩
    intro reading houtcome
    have hreads := (Reader.sound reader).reads reading houtcome
    obtain ⟨segments, ending, hscan, hends, -⟩ := hreads.spells hdepth
    exact ⟨hreads.depth_eq hdepth, segments, ending, hscan, hends⟩
  · intro reading houtcome
    exact ((Reader.sound _).reads reading houtcome).depth_eq rfl

end Stencil
