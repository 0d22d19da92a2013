import Stencil.Inspector
import Stencil.Operand

/-!
# Contexts

What a rendering works on: variables, each with the inspector that it was bound through, and an
arena of loop slots indexed by nesting depth. The arena outlives a rendering, so that a slot is
taken again by the next loop at its depth; taking a slot and giving it back both clear it.
-/

set_option autoImplicit false

namespace Stencil

/-- A bound value and the inspector that looks into it. -/
structure Variable where
  value : Json
  inspector : Inspector

/-- The state of one loop that is being rendered. -/
structure LoopSlot where
  /-- How many iterations have begun. -/
  begun : Nat := 0
  separator : Bytes := []
  deriving DecidableEq, Repr

/-- The loop slots, of which the first `depth` are taken. -/
structure LoopArena where
  slots : List LoopSlot := []
  depth : Nat := 0
  deriving DecidableEq, Repr

namespace LoopArena

/-- Takes the slot at the current depth, made when there is none, and clears it. -/
def acquire (arena : LoopArena) : LoopArena :=
  { slots := if arena.depth < arena.slots.length then arena.slots.set arena.depth {}
             else arena.slots ++ [{}]
    depth := arena.depth + 1 }

/-- Gives back and clears the slot taken last; nothing happens when none is taken. -/
def release (arena : LoopArena) : LoopArena :=
  match arena.depth with
  | 0 => arena
  | depth + 1 => { slots := arena.slots.set depth {}, depth }

/-- Clears the taken slots and gives all of them back. -/
def reset (arena : LoopArena) : LoopArena :=
  { slots := List.replicate arena.depth {} ++ arena.slots.drop arena.depth, depth := 0 }

/-- The state of the loop at an index; a loop that has not begun has the initial one. -/
def slot (arena : LoopArena) (index : Nat) : LoopSlot := arena.slots[index]?.getD {}

/-- Replaces the state of the loop at an index. -/
def setSlot (arena : LoopArena) (index : Nat) (slot : LoopSlot) : LoopArena :=
  { arena with slots := arena.slots.set index slot }

end LoopArena

/-- The variables of a rendering, and the states of the loops that it is inside of. -/
structure Context where
  bindings : Table Variable := []
  arena : LoopArena := {}

/-- The value that a path addresses: a variable's name before the first dot, and a path inside its
value after it. -/
def Variable.lookUp (bindings : Table Variable) (path : Bytes) :
    Option Variable × Option Json :=
  match path.splitOn Byte.dot with
  | [] => (none, none)
  | name :: segments =>
    match bindings.find? name with
    | none => (none, none)
    | some found =>
      if segments.isEmpty then (some found, some found.value)
      else (some found, found.inspector.find? found.value segments)

namespace Context

/-- The variable whose name a path begins with. -/
def root? (context : Context) (path : Bytes) : Option Variable :=
  (Variable.lookUp context.bindings path).1

/-- The value that a path addresses, when there is one. -/
def find? (context : Context) (path : Bytes) : Option Json :=
  (Variable.lookUp context.bindings path).2

/-- The value of an operand: that of a literal, or what its path addresses, null when that is
nothing. -/
def resolve (context : Context) (operand : Operand) : Json :=
  if operand.isStatic then operand.literal else (context.find? operand.text).getD .null

/-- Gives a variable a value and an inspector; whatever the name stood for before is gone. -/
def assign (context : Context) (name : Bytes) (value : Json) (inspector : Inspector) : Context :=
  { context with bindings := context.bindings.insert name { value, inspector } }

/-- Drops all variables and gives all loop slots back. -/
def reset (context : Context) : Context :=
  { bindings := [], arena := context.arena.reset }

end Context

end Stencil
