import LineScript.Machine.Exec

/-!
# Blocks

Jump targets are positions in a root list: the program, or the body of a
function. A branch of a conditional is a part of its root list that knows the
position of its first line. A target outside a branch ends the branch, and the
enclosing block goes on there.

- `Block`, `Invocation`: the lines being executed, and the line at hand.
- `Control`: where execution goes on after a line.
- `Outcome`: how a block ended.
- `Block.next`: the next position in the block, or its outcome.
-/

namespace LineScript

/-- Lines to execute in a scope. The first line has position `origin` in the
root list; a nested block hands targets that lie outside to the enclosing one. -/
structure Block where
  code : List Instruction
  scope : ScopeId
  origin : Nat
  nested : Bool
deriving DecidableEq, Repr

/-- A root block: a program or the body of a function. -/
def Block.root (code : List Instruction) (scope : ScopeId) : Block :=
  ⟨code, scope, 0, false⟩

/-- A part of a block, from position `start` up to but excluding `stop`, in a
scope of its own. -/
def Block.branch (b : Block) (start stop : Nat) (scope : ScopeId) : Block :=
  ⟨(b.code.take stop).drop start, scope, b.origin + start, true⟩

/-- The line at hand: its block, its position there, and its parts. -/
structure Invocation where
  block : Block
  index : Nat
  operand : String
  line : Nat
deriving DecidableEq, Repr

namespace Invocation

/-- The scope of the line. -/
def scope (inv : Invocation) : ScopeId :=
  inv.block.scope

/-- The position of the line in its root list. -/
def absolute (inv : Invocation) : Nat :=
  inv.block.origin + inv.index

end Invocation

/-- Where execution goes on after a line. -/
inductive Control where
  /-- At the next line. -/
  | next
  /-- At a position of the root list. -/
  | goto (target : Nat)
  /-- After the current call, which has this value. -/
  | leave (value : Value)
deriving DecidableEq

/-- How a block ended. -/
inductive Outcome where
  /-- After its last line. -/
  | completed
  /-- By a jump to a position of the root list outside the block. -/
  | escaped (target : Nat)
  /-- By a return. -/
  | returned (value : Value)
deriving DecidableEq

/-- The next position in the block, or the outcome of the block. The position
right after the last line belongs to the block. -/
def Block.next (b : Block) (index : Nat) : Control → Nat ⊕ Outcome
  | .next => .inl (index + 1)
  | .goto target =>
    if b.origin ≤ target ∧ target ≤ b.origin + b.code.length then .inl (target - b.origin)
    else if b.nested then .inr (.escaped target)
    else .inr .completed
  | .leave value => .inr (.returned value)

end LineScript
