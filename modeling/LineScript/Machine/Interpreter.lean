import LineScript.Machine.Run
import LineScript.Program.Source

/-!
# Interpreter

An interpreter is a table of keywords and a state. Programs run in its root
scope one after the other; what they declare there stays.

- `Interpreter.new`: an interpreter that has not run anything.
- `Interpreter.run`, `runSource`: run a program.
- `Interpreter.global?`, `globals`: the bindings of the root scope.
- `Interpreter.call`: call a function of the root scope.
-/

namespace LineScript

/-- The name under which every root scope has the host object. -/
def stdBinding : String := "std"

/-- A machine that runs programs. -/
structure Interpreter where
  table : Table Handler
  state : State

namespace Interpreter

/-- The state before anything has run: the host object is bound in the root. -/
def initialState (limit : Nat) (sink : Sink) : State where
  env := Environment.new.declare Environment.root stdBinding ⟨.std 0, true⟩
  calls := .empty limit
  sink := sink
  clock := .start
  nextId := 0

/-- An interpreter with the keywords of the language and those of a host. A
keyword of the host replaces one of the language. -/
def new (limit : Nat) (sink : Sink) (host : List (String × (Invocation → Exec Control))) :
    Interpreter :=
  ⟨host.foldl (fun t (word, f) => t.insert word (.host f)) standardTable, initialState limit sink⟩

/-- Do a computation on the interpreter's state. -/
def perform {α : Type} (m : Interpreter) (x : Exec α) : Except Stop α × Interpreter :=
  match x m.state with
  | (r, s) => (r, { m with state := s })

/-- How the interpreter executes a block. -/
def runner (m : Interpreter) (fuel : Nat) : Runner :=
  fun b => runBlock m.table fuel b 0

/-- Run a program in the root scope. -/
def run (m : Interpreter) (fuel : Nat) (p : Program) : Except Stop Unit × Interpreter :=
  m.perform do
    let _ ← m.runner fuel (.root p.instructions Environment.root)
    return ()

/-- Run the program of a source text in the root scope. -/
def runSource (m : Interpreter) (fuel : Nat) (source : String) :
    Except Stop Unit × Interpreter :=
  m.run fuel (.ofSource source)

/-- The value of an expression in the root scope. -/
def evaluate (m : Interpreter) (text : String) : Except Cause Value :=
  Expr.evaluate (m.state.lookup Environment.root) text

/-- The value of a name in the root scope. -/
def global? (m : Interpreter) (id : String) : Option Value :=
  m.state.lookup Environment.root id

/-- The bindings of the root scope apart from the host object, sorted by name. -/
def globals (m : Interpreter) : Bindings :=
  (m.state.env.bindings Environment.root).filter fun (id, _) => id ≠ stdBinding

/-- Call a function from the root scope. -/
def call (m : Interpreter) (fuel : Nat) (f : Function) (args : List String) (line : Nat) :
    Except Stop Value × Interpreter :=
  m.perform (invoke (m.runner fuel) Environment.root f args line)

/-- The interpreter without the lines that its sink keeps. -/
def clearOutput (m : Interpreter) : Interpreter :=
  { m with state := { m.state with sink := m.state.sink.clear } }

end Interpreter

end LineScript
