import Stencil.Operand
import Stencil.Operator

/-!
# Template trees

A parsed template is a list of nodes. A node is a statement of the markup or a stretch of raw text;
conditions, their branches, loops, switches and their cases own the nodes of their bodies. A tree
read from its data form may own any nodes anywhere, so this file asks for no order among them.
-/

set_option autoImplicit false

namespace Stencil

/-- A call of a modifier in a print statement. -/
structure ModifierCall where
  name : Bytes
  args : List Operand := []
  deriving DecidableEq, Repr

/-- A print statement: a value, the modifiers it runs through, and the texts around it. -/
structure Print where
  value : Operand
  before : Bytes := []
  after : Bytes := []
  modifiers : List ModifierCall := []
  deriving DecidableEq, Repr

/-- A context statement: a variable is bound to the value of an operand through an inspector, the
source's own one when no kind is named. -/
structure Binding where
  target : Bytes
  source : Operand
  kind : Bytes := []
  deriving DecidableEq, Repr

/-- What a counter statement does to its counter. -/
inductive CounterAction where
  /-- Sets it to the amount. -/
  | init
  /-- Adds the amount. -/
  | add
  deriving DecidableEq, Repr

namespace CounterAction

/-- The name of an action in the data form. -/
def name : CounterAction → Bytes
  | init => ascii "init"
  | add => ascii "add"

end CounterAction

/-- A counter statement: the counter, what happens to it, and by how much. -/
structure Counter where
  name : Bytes
  action : CounterAction
  amount : Int64
  deriving DecidableEq, Repr

/-- A comparison of two operands; without operator and right side it asks whether the left side
holds anything. -/
structure Comparison where
  left : Operand
  op : Operator := .unknown
  right : Operand := {}
  deriving DecidableEq, Repr

/-- What a condition asks: the helper, when one is named, and the comparison otherwise. A condition
read from its data form may have fields that it does not ask for. -/
structure Condition where
  comparison : Comparison := { left := {} }
  /-- The name of a condition helper, empty when there is none. -/
  helper : Bytes := []
  args : List Operand := []
  deriving DecidableEq, Repr

/-- The head of a loop over the elements of a value. -/
structure RangeHead where
  /-- The variable for the key, none when it is empty. -/
  key : Bytes
  value : Bytes
  source : Bytes
  separator : Bytes
  deriving DecidableEq, Repr

/-- The head of a counting loop. -/
structure CountHead where
  counter : Bytes
  init : Operand
  test : Operator
  limit : Operand
  /-- Down when it is the decrement, up otherwise. -/
  direction : Operator
  step : Int64
  separator : Bytes
  deriving DecidableEq, Repr

/-- The nodes of a parsed template. -/
inductive Node where
  | raw (text : Bytes)
  | print (statement : Print)
  | bind (statement : Binding)
  | counter (statement : Counter)
  | cond (condition : Condition) (children : List Node)
  | onTrue (children : List Node)
  | onFalse (children : List Node)
  | forRange (head : RangeHead) (children : List Node)
  | forCount (head : CountHead) (children : List Node)
  | breakLoop
  | continueLoop
  | switch (subject : Operand) (children : List Node)
  | case (test : Comparison) (children : List Node)
  | default (children : List Node)
  | divider
  | exit
  deriving Inhabited

/-- The kinds of nodes. -/
inductive NodeKind where
  | raw
  | print
  | bind
  | counter
  | cond
  | onTrue
  | onFalse
  | forRange
  | forCount
  | breakLoop
  | continueLoop
  | switch
  | case
  | default
  | divider
  | exit
  deriving DecidableEq, Repr

namespace NodeKind

/-- All kinds in the order of their codes. -/
def all : List NodeKind :=
  [raw, print, bind, counter, cond, onTrue, onFalse, forRange, forCount, breakLoop, continueLoop,
    switch, case, default, divider, exit]

/-- The name of a kind in the data form and in the outline of a tree. -/
def name : NodeKind → Bytes
  | raw => ascii "raw"
  | print => ascii "tpl"
  | bind => ascii "ctx"
  | counter => ascii "counter"
  | cond => ascii "cond"
  | onTrue => ascii "true"
  | onFalse => ascii "false"
  | forRange => ascii "rloop"
  | forCount => ascii "cloop"
  | breakLoop => ascii "break"
  | continueLoop => ascii "cont"
  | switch => ascii "switch"
  | case => ascii "case"
  | default => ascii "def"
  | divider => ascii "div"
  | exit => ascii "exit"

/-- The kind of a name. -/
def ofName? (s : Bytes) : Option NodeKind := all.find? (·.name == s)

/-- The name of the kind with a given code, for any integer. -/
def nameOfCode (code : Int) : Bytes :=
  match code with
  | .ofNat n => (all[n]?.map name).getD (ascii "unk")
  | .negSucc _ => ascii "unk"

/-- The name of a kind is that of no other kind. -/
@[simp] theorem ofName?_name (kind : NodeKind) : ofName? kind.name = some kind := by
  cases kind <;> rfl

end NodeKind

namespace Node

/-- The kind of a node. -/
def kind : Node → NodeKind
  | raw _ => .raw
  | print _ => .print
  | bind _ => .bind
  | counter _ => .counter
  | cond _ _ => .cond
  | onTrue _ => .onTrue
  | onFalse _ => .onFalse
  | forRange _ _ => .forRange
  | forCount _ _ => .forCount
  | breakLoop => .breakLoop
  | continueLoop => .continueLoop
  | switch _ _ => .switch
  | case _ _ => .case
  | default _ => .default
  | divider => .divider
  | exit => .exit

/-- Whether a node is one of the branches of a switch. -/
def isBranch : Node → Bool
  | case _ _ | default _ => true
  | _ => false

/-- Whether a node divides the two branches of a condition. -/
def isDivider : Node → Bool
  | divider => true
  | _ => false

/-- A branch of a switch with nodes added at its end; any other node as it is. -/
def append (node : Node) (more : List Node) : Node :=
  match node with
  | case test children => case test (children ++ more)
  | default children => default (children ++ more)
  | other => other

/-- What the next node does to the groups of the nodes before it, the first one and the later ones:
a divider opens a new group, any other node goes to the end of the group opened last. -/
def splitStep (groups : List Node × List (List Node)) (node : Node) :
    List Node × List (List Node) :=
  let (first, later) := groups
  if node.isDivider then (first, later ++ [[]])
  else
    match later.getLast? with
    | none => (first ++ [node], [])
    | some group => (first, later.dropLast ++ [group ++ [node]])

/-- The nodes before the first divider and the groups after each divider. -/
def splitAtDividers (nodes : List Node) : List Node × List (List Node) :=
  nodes.foldl splitStep ([], [])

/-- What the next node does to the branches of a switch among the nodes before it: a branch joins
them, and any other node is taken in by the last of them. Before the first branch it is dropped. -/
def rollStep (branches : List Node) (node : Node) : List Node :=
  if node.isBranch then branches ++ [node]
  else
    match branches.getLast? with
    | none => branches
    | some branch => branches.dropLast ++ [branch.append [node]]

/-- The branches of a switch with the nodes that follow each of them taken in; the nodes before the
first one are dropped. -/
def rollUp (nodes : List Node) : List Node := nodes.foldl rollStep []

end Node

/-- A parsed template. -/
structure Tree where
  nodes : List Node
  deriving Inhabited

end Stencil
