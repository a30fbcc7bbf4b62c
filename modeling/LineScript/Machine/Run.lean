import LineScript.Machine.Builtin

/-!
# Running a block

A block is executed line by line: the keyword of a line says what to do, and
what that answers says where to go on.

- `dispatch`: execute one line.
- `runBlock`: execute a block from a position on, within an amount of fuel.
- `runBlock_of_end`: after its last line a block is completed.
-/

namespace LineScript

/-- What is wrong with a line whose first word is no keyword. -/
def unrecognised (table : Table Handler) (keyword : String) : Cause :=
  if keyword = elseKeyword ∨ keyword = endKeyword then .strayBlockKeyword keyword
  else .unknownKeyword keyword (table.suggestions keyword)

/-- Do what a keyword does. -/
def Handler.run (runner : Runner) (inv : Invocation) : Handler → Exec Control
  | .builtin b => b.run runner inv
  | .host f => f inv

/-- Execute one line of a block. An unknown keyword is an error before the
instruction begins. -/
def dispatch (table : Table Handler) (runner : Runner) (b : Block) (index : Nat)
    (i : Instruction) : Exec Control :=
  match table.find? i.keyword with
  | none => Exec.fail (unrecognised table i.keyword)
  | some handler => do
    Exec.tick
    handler.run runner ⟨b, index, i.operand, i.line⟩

/-- Execute a block from position `index` on. Every line takes one unit of fuel,
and so does every block inside it; an error gets the line at hand unless an
inner one gave it its line. -/
def runBlock (table : Table Handler) : Nat → Block → Nat → State →
    Except Stop Outcome × State
  | 0, _, _, s => (.error .outOfFuel, s)
  | fuel + 1, b, index, s =>
    match b.code[index]? with
    | none => (.ok .completed, s)
    | some i =>
      match dispatch table (fun inner => runBlock table fuel inner 0) b index i s with
      | (.error e, s) => (.error (e.mapError (·.atLine i.line)), s)
      | (.ok control, s) =>
        match b.next index control with
        | .inl index => runBlock table fuel b index s
        | .inr outcome => (.ok outcome, s)

/-- After its last line a block is completed. -/
theorem runBlock_of_end (table : Table Handler) (fuel : Nat) {b : Block} {index : Nat}
    (h : b.code.length ≤ index) (s : State) :
    runBlock table (fuel + 1) b index s = (.ok .completed, s) := by
  simp [runBlock, h]

end LineScript
