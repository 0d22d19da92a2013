import Stencil.Template.Segment
import Stencil.Template.Statement

/-!
# Reading bodies

A source is read region by region into the nodes of a body. The body of a construct is read by a
reader of its own, which hands back its nodes, the counters of open constructs, and what is left of
the source. Conditions, loops and switches nest with the same delimiters, so each kind has a counter
of its own; a body ends at the terminator of its construct, or when the counters are back where they
were before the construct. What is left after a region is shorter than what was there before it,
which is why reading ends.
-/

set_option autoImplicit false

namespace Stencil

/-- What nodes stand in: the template, or one of the constructs. -/
inductive Body where
  | template
  | condition
  | loop
  | switch
  deriving DecidableEq, Repr

/-- How many constructs of each kind are open. -/
structure Depth where
  conditions : Nat := 0
  loops : Nat := 0
  switches : Nat := 0
  deriving DecidableEq, Repr

namespace Depth

/-- The counters inside a construct with a given body. -/
def enter (depth : Depth) : Body → Depth
  | .template => depth
  | .condition => { depth with conditions := depth.conditions + 1 }
  | .loop => { depth with loops := depth.loops + 1 }
  | .switch => { depth with switches := depth.switches + 1 }

/-- The counters behind a construct with a given body. -/
def leave (depth : Depth) : Body → Depth
  | .template => depth
  | .condition => { depth with conditions := depth.conditions - 1 }
  | .loop => { depth with loops := depth.loops - 1 }
  | .switch => { depth with switches := depth.switches - 1 }

/-- Behind a construct the counters are those from before it. -/
@[simp] theorem leave_enter (depth : Depth) (body : Body) :
    (depth.enter body).leave body = depth := by
  cases body <;> simp [enter, leave]

/-- Inside a construct the counters are not what they were before it. -/
theorem enter_ne (depth : Depth) {body : Body} (hbody : body ≠ .template) :
    depth.enter body ≠ depth := by
  obtain ⟨conditions, loops, switches⟩ := depth
  cases body <;> simp_all [enter]

end Depth

/-- What opens a body of its own, with what its head says. -/
inductive Construct where
  | condition (test : Condition)
  | loop (head : LoopHead)
  | switch (subject : Operand)
  deriving DecidableEq, Repr

namespace Construct

/-- The body that a construct opens. -/
def body : Construct → Body
  | condition _ => .condition
  | loop _ => .loop
  | switch _ => .switch

/-- The node of a construct that owns given nodes. A condition is divided at most once; a switch
drops what stands before its first branch. -/
def node? (construct : Construct) (nodes : List Node) : Option Node :=
  match construct with
  | condition test =>
    match Node.splitAtDividers nodes with
    | (group, []) => some (.cond test [.onTrue group])
    | (group, [other]) => some (.cond test [.onTrue group, .onFalse other])
    | _ => none
  | loop (.range head) => some (.forRange head nodes)
  | loop (.count head) => some (.forCount head nodes)
  | switch subject => some (.switch subject (Node.rollUp nodes))

/-- No construct opens the body of the template. -/
theorem body_ne_template (construct : Construct) : construct.body ≠ .template := by
  cases construct <;> simp [body]

end Construct

/-- What a statement does to the body that it stands in. -/
inductive Part where
  /-- It becomes a node of the body. -/
  | node (node : Node)
  /-- It opens a construct, which becomes a node of the body. -/
  | opens (construct : Construct)
  /-- It ends the body. -/
  | ends

/-- The part of a mark that is allowed in some places only. -/
def Mark.part (mark : Mark) (allowed : Bool) (part : Part) : Except TemplateFault Part :=
  if allowed then .ok part else .error (.misplaced mark)

/-- The part of a statement in a body, with given counters of open constructs. -/
def Statement.part (body : Body) (depth : Depth) : Statement → Except TemplateFault Part
  | print statement => .ok (.node (.print statement))
  | bind statement => .ok (.node (.bind statement))
  | counter statement => .ok (.node (.counter statement))
  | ifOpen condition => .ok (.opens (.condition condition))
  | elseMark => Mark.elseMark.part (body = .condition) (.node .divider)
  | endIf => Mark.endIf.part (body = .condition) .ends
  | forOpen head => .ok (.opens (.loop head))
  | endFor => Mark.endFor.part (body = .loop) .ends
  | breakLoop => Mark.breakLoop.part (depth.loops ≠ 0) (.node .breakLoop)
  | continueLoop => Mark.continueLoop.part (depth.loops ≠ 0) (.node .continueLoop)
  | switchOpen subject => .ok (.opens (.switch subject))
  | caseMark test => Mark.case.part (body = .switch) (.node (.case test []))
  | defaultMark => Mark.default.part (body = .switch) (.node (.default []))
  | endSwitch => Mark.endSwitch.part (body = .switch) .ends
  | exit => .ok (.node .exit)

/-- A raw text as a node, unless it is empty. -/
def Node.ofText (text : Bytes) : List Node := if text.isEmpty then [] else [.raw text]

/-- What has been read, and what is left to read. -/
structure Reading where
  nodes : List Node
  depth : Depth
  /-- The offset of what is left. -/
  offset : Nat
  rest : Bytes

/-- Where the reading of a body stands. -/
structure Reader where
  body : Body
  /-- The offset at which the construct of the body opens. -/
  opened : Nat
  /-- The counters from before the construct. -/
  target : Depth
  /-- Whether a region of the body has been read. -/
  begun : Bool
  depth : Depth
  /-- The offset of what is left to read. -/
  offset : Nat
  rest : Bytes

namespace Reader

/-- The reader before a template. -/
def start (source : Bytes) : Reader where
  body := .template
  opened := 0
  target := {}
  begun := false
  depth := {}
  offset := 0
  rest := source

/-- The reader of the body of a construct that opens at an offset; `depth` holds the counters from
before it. -/
def inside (construct : Construct) (opened : Nat) (depth : Depth) (offset : Nat) (rest : Bytes) :
    Reader where
  body := construct.body
  opened
  target := depth
  begun := false
  depth := depth.enter construct.body
  offset
  rest

/-- The reader after a region of its body. -/
def after (reader : Reader) (region : Reading) : Reader :=
  { reader with begun := true, depth := region.depth, offset := region.offset, rest := region.rest }

/-- The offset of the next region, which follows a raw text. -/
def regionStart (reader : Reader) (raw : Bytes) : Nat := reader.offset + raw.length

/-- The offset after the next region, which follows a raw text and encloses `inside`. -/
def regionEnd (reader : Reader) (raw inside : Bytes) : Nat :=
  reader.regionStart raw + Segment.opener.length + inside.length + Segment.closer.length

/-- Whether the body has ended because the counters are back where they were. The template goes on
to the end of its source. -/
def isDone (reader : Reader) : Bool :=
  reader.body != .template && reader.begun && reader.depth == reader.target

mutual

/-- Reads a body to its end. A fault is reported with the offset of the region that is to blame. -/
def read (reader : Reader) :
    Except (TemplateFault × Nat)
      { reading : Reading // reading.rest.length ≤ reader.rest.length } :=
  if reader.isDone then
    .ok ⟨{ nodes := [], depth := reader.depth, offset := reader.offset, rest := reader.rest },
      Nat.le_refl _⟩
  else
    match hopen : Bytes.breakOn Segment.opener reader.rest with
    | none =>
      if reader.body = .template then
        .ok ⟨{ nodes := Node.ofText reader.rest, depth := reader.depth,
               offset := reader.offset + reader.rest.length, rest := [] }, Nat.zero_le _⟩
      else .error (.unterminated, reader.opened)
    | some (raw, afterOpener) =>
      match hclose : Bytes.breakOn Segment.closer afterOpener with
      | none => .error (.unterminated, reader.regionStart raw)
      | some (inside, rest) =>
        have hopener := Bytes.length_after_lt (by decide) hopen
        have hcloser := Bytes.length_after_lt (by decide) hclose
        match reader.readRegion (reader.regionStart raw) inside (reader.regionEnd raw inside) rest
          with
        | .error fault => .error fault
        | .ok ⟨(region, ended), hregion⟩ =>
          have hafter : region.rest.length < reader.rest.length :=
            Nat.lt_of_le_of_lt hregion (Nat.lt_trans hcloser hopener)
          if ended then
            .ok ⟨{ region with nodes := Node.ofText raw ++ region.nodes }, Nat.le_of_lt hafter⟩
          else
            match (reader.after region).read with
            | .error fault => .error fault
            | .ok ⟨more, hmore⟩ =>
              .ok ⟨{ more with nodes := Node.ofText raw ++ region.nodes ++ more.nodes },
                Nat.le_trans hmore (Nat.le_of_lt hafter)⟩
termination_by (reader.rest.length, 0)
decreasing_by
  · exact Prod.Lex.left _ _ (by omega)
  · exact Prod.Lex.left _ _ hafter

/-- Reads the region that opens at `start` and encloses `inside`, and with it the body that it
opens; what follows the region begins at `offset`. The reading comes with whether the region ends
the body that it stands in. -/
def readRegion (reader : Reader) (start : Nat) (inside : Bytes) (offset : Nat) (rest : Bytes) :
    Except (TemplateFault × Nat)
      { region : Reading × Bool // region.1.rest.length ≤ rest.length } :=
  match Statement.parse inside.strip with
  | .error fault => .error (fault, start)
  | .ok statement =>
    match statement.part reader.body reader.depth with
    | .error fault => .error (fault, start)
    | .ok (.node node) =>
      .ok ⟨({ nodes := [node], depth := reader.depth, offset, rest }, false), Nat.le_refl _⟩
    | .ok .ends =>
      .ok ⟨({ nodes := [], depth := reader.depth.leave reader.body, offset, rest }, true),
        Nat.le_refl _⟩
    | .ok (.opens construct) =>
      match (Reader.inside construct start reader.depth offset rest).read with
      | .error fault => .error fault
      | .ok ⟨inner, hinner⟩ =>
        match construct.node? inner.nodes with
        | some node => .ok ⟨({ inner with nodes := [node] }, false), hinner⟩
        | none => .error (.secondDivider, start)
termination_by (rest.length, 1)
decreasing_by
  exact Prod.Lex.right _ (by decide)

end

/-- What reading a body comes to, without the proof that the reader has moved on. -/
def outcome (reader : Reader) : Except (TemplateFault × Nat) Reading := reader.read.map (·.1)

/-- What reading the next region of a body comes to, with whether it ends the body. -/
def regionOutcome (reader : Reader) (raw inside rest : Bytes) :
    Except (TemplateFault × Nat) (Reading × Bool) :=
  (reader.readRegion (reader.regionStart raw) inside (reader.regionEnd raw inside) rest).map (·.1)

/-- How a body goes on after a raw text and what its next region comes to. -/
def goOn (reader : Reader) (raw : Bytes) :
    Except (TemplateFault × Nat) (Reading × Bool) → Except (TemplateFault × Nat) Reading
  | .error fault => .error fault
  | .ok (region, true) => .ok { region with nodes := Node.ofText raw ++ region.nodes }
  | .ok (region, false) =>
    (reader.after region).outcome.map fun more =>
      { more with nodes := Node.ofText raw ++ region.nodes ++ more.nodes }

/-- The way through a body, without the bounds on what is left. -/
theorem outcome_eq (reader : Reader) : reader.outcome =
    if reader.isDone then
      .ok { nodes := [], depth := reader.depth, offset := reader.offset, rest := reader.rest }
    else
      match Bytes.breakOn Segment.opener reader.rest with
      | none =>
        if reader.body = .template then
          .ok { nodes := Node.ofText reader.rest, depth := reader.depth,
                offset := reader.offset + reader.rest.length, rest := [] }
        else .error (.unterminated, reader.opened)
      | some (raw, afterOpener) =>
        match Bytes.breakOn Segment.closer afterOpener with
        | none => .error (.unterminated, reader.regionStart raw)
        | some (inside, rest) =>
          reader.goOn raw (reader.regionOutcome raw inside rest) := by
  rw [outcome, read]
  split
  · rfl
  · split
    · rename_i hopen
      conv => rhs; simp only [hopen]
      split <;> rfl
    · rename_i raw afterOpener hopen
      conv => rhs; simp only [hopen]
      split
      · rename_i hclose
        conv => rhs; simp only [hclose]
        rfl
      · rename_i inside rest hclose
        conv => rhs; simp only [hclose, regionOutcome]
        split
        · rename_i fault hfault
          rw [hfault]
          rfl
        · rename_i region ended hlength hregion
          rw [hregion]
          cases ended with
          | true => rfl
          | false =>
            simp only [Except.map, goOn, Bool.false_eq_true, if_false, outcome]
            cases (reader.after region).read <;> rfl

/-- The way through a region, without the bounds on what is left. -/
theorem regionOutcome_eq (reader : Reader) (raw inside rest : Bytes) :
    reader.regionOutcome raw inside rest =
    match Statement.parse inside.strip with
    | .error fault => .error (fault, reader.regionStart raw)
    | .ok statement =>
      match statement.part reader.body reader.depth with
      | .error fault => .error (fault, reader.regionStart raw)
      | .ok (.node node) =>
        .ok ({ nodes := [node], depth := reader.depth,
               offset := reader.regionEnd raw inside, rest }, false)
      | .ok .ends =>
        .ok ({ nodes := [], depth := reader.depth.leave reader.body,
               offset := reader.regionEnd raw inside, rest }, true)
      | .ok (.opens construct) =>
        match (Reader.inside construct (reader.regionStart raw) reader.depth
            (reader.regionEnd raw inside) rest).outcome with
        | .error fault => .error fault
        | .ok inner =>
          match construct.node? inner.nodes with
          | some node => .ok ({ inner with nodes := [node] }, false)
          | none => .error (.secondDivider, reader.regionStart raw) := by
  rw [regionOutcome, readRegion]
  cases Statement.parse inside.strip with
  | error fault => rfl
  | ok statement =>
    simp only
    cases statement.part reader.body reader.depth with
    | error fault => rfl
    | ok part =>
      cases part with
      | node node => rfl
      | ends => rfl
      | opens construct =>
        simp only [outcome]
        cases (Reader.inside construct (reader.regionStart raw) reader.depth
          (reader.regionEnd raw inside) rest).read with
        | error fault => rfl
        | ok inner =>
          simp only [Except.map]
          cases construct.node? inner.val.nodes <;> rfl

/-- The nodes of a source; at its end no construct may be open. -/
def parseSource (source : Bytes) : Except (TemplateFault × Nat) (List Node) :=
  match (start source).outcome with
  | .error fault => .error fault
  | .ok reading =>
    if reading.depth = {} then .ok reading.nodes else .error (.unterminated, source.length)

end Reader

end Stencil
