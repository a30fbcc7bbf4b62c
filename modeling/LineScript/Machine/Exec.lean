import LineScript.CallStack
import LineScript.Environment
import LineScript.Expr.Evaluate
import LineScript.Machine.Sink

/-!
# Computations on the state of a machine

A computation changes the state and either gives a value or stops. The state
outlives a stop: what was declared and printed before an error stays.

- `State`: bindings, active calls, output, clock, and the next identity.
- `Stop`: an error of the script, or the end of the fuel.
- `Exec`: computations, with the rules of its sequencing.
- `Exec.inChild`, `Exec.inCall`: a computation in a scope or call of its own,
  which is over when the computation is, however it ends.
-/

namespace LineScript

/-- The state of a machine. -/
structure State where
  env : Environment
  calls : CallStack
  sink : Sink
  clock : Clock
  nextId : Nat

/-- The values of names as seen from a scope. -/
def State.lookup (s : State) (scope : ScopeId) : Expr.Lookup :=
  fun id => (s.env.find? scope id).map Binding.value

/-- Why a computation gave no value. -/
inductive Stop where
  | failed (error : Error)
  | outOfFuel
deriving DecidableEq, Repr

/-- The stop with its error changed. -/
def Stop.mapError (f : Error → Error) : Stop → Stop
  | failed e => failed (f e)
  | outOfFuel => outOfFuel

/-- Results can be compared if values and stops can. -/
instance instDecidableEqExcept {ε α : Type} [DecidableEq ε] [DecidableEq α] :
    DecidableEq (Except ε α)
  | .ok a, .ok b => decidable_of_iff (a = b) ⟨congrArg _, Except.ok.inj⟩
  | .error e, .error e' => decidable_of_iff (e = e') ⟨congrArg _, Except.error.inj⟩
  | .ok _, .error _ => .isFalse nofun
  | .error _, .ok _ => .isFalse nofun

/-- A computation on the state of a machine. -/
def Exec (α : Type) : Type :=
  State → Except Stop α × State

namespace Exec

variable {α β : Type}

/-- Run a computation from a state. -/
@[inline] def run (x : Exec α) (s : State) : Except Stop α × State :=
  x s

instance : Monad Exec where
  pure a := fun s => (.ok a, s)
  bind x f := fun s =>
    match x s with
    | (.ok a, s) => f a s
    | (.error e, s) => (.error e, s)

/-- The state. -/
def get : Exec State := fun s => (.ok s, s)

/-- Change the state. -/
def modify (f : State → State) : Exec Unit := fun s => (.ok (), f s)

/-- Stop with an error about whose place nothing is known yet. -/
def fail (cause : Cause) : Exec α := fun s => (.error (.failed (.ofCause cause)), s)

/-- A result of an evaluation as a computation. -/
def ofExcept : Except Cause α → Exec α
  | .ok a => pure a
  | .error cause => fail cause

/-- The value that is there, or else an error. -/
def ofOption (cause : Cause) : Option α → Exec α
  | some a => pure a
  | none => fail cause

/-- The computation with its error changed, given the state that it ends in. -/
def mapError (f : State → Error → Error) (x : Exec α) : Exec α := fun s =>
  match x s with
  | (.ok a, s) => (.ok a, s)
  | (.error e, s) => (.error (e.mapError (f s)), s)

/-! ### What a state offers -/

/-- The value of an expression in a scope. -/
def evaluate (scope : ScopeId) (text : String) : Exec Value := fun s =>
  ofExcept (Expr.evaluate (s.lookup scope) text) s

/-- Bind a name in a scope. -/
def declare (scope : ScopeId) (id : String) (b : Binding) : Exec Unit :=
  modify fun s => { s with env := s.env.declare scope id b }

/-- Print a value. -/
def emit (v : Value) : Exec Unit :=
  modify fun s => { s with sink := s.sink.emit v }

/-- Wait. -/
def sleep (nanoseconds : Nat) : Exec Unit :=
  modify fun s =>
    { s with clock := s.clock.sleep nanoseconds, sink := s.sink.pause nanoseconds }

/-- Note that one more instruction begins. -/
def tick : Exec Unit :=
  modify fun s => { s with clock := s.clock.tick }

/-- An identity that was not given before. -/
def freshId : Exec Nat := fun s => (.ok s.nextId, { s with nextId := s.nextId + 1 })

/-! ### Scopes and calls with an end -/

/-- A computation in a new child of a scope. The child, and all that was made
after it, is released at the end. -/
def inChild (parent : ScopeId) (body : ScopeId → Exec α) : Exec α := fun s =>
  let depth := s.env.depth
  let (scope, env) := s.env.child parent
  match body scope { s with env } with
  | (r, s) => (r, { s with env := s.env.release depth })

/-- A computation inside a call. It is not begun when the limit of nested calls
is reached; the call is left at the end. -/
def inCall (call : Call) (body : Exec α) : Exec α := fun s =>
  match s.calls.push call with
  | .error cause => (.error (.failed (.ofCause cause)), s)
  | .ok calls =>
    match body { s with calls } with
    | (r, s) => (r, { s with calls := s.calls.pop })

/-! ### Rules of sequencing -/

@[simp] theorem pure_apply (a : α) (s : State) : (pure a : Exec α) s = (.ok a, s) := rfl

theorem bind_of_ok {x : Exec α} {f : α → Exec β} {s t : State} {a : α} (h : x s = (.ok a, t)) :
    (x >>= f) s = f a t := by
  simp [bind, h]

theorem bind_of_error {x : Exec α} {f : α → Exec β} {s t : State} {e : Stop}
    (h : x s = (.error e, t)) : (x >>= f) s = (.error e, t) := by
  simp [bind, h]

end Exec

end LineScript
