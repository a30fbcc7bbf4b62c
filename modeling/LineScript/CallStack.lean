import LineScript.Error

/-!
# Call stack

The calls that are active at a moment of a run, with a limit on their number.

- `CallStack.push`: enter a call, or fail when the limit is reached.
- `CallStack.attach`: give an error the active calls.
- `push_eq_ok_iff`, `push_eq_error_iff`: entering succeeds exactly below the limit.
- `pop_of_push`: leaving undoes entering.
-/

namespace LineScript

/-- The active calls, the most recent one first, and how many there may be. -/
structure CallStack where
  calls : List Call
  limit : Nat
deriving DecidableEq, Repr

namespace CallStack

/-- The number of nested calls that is allowed unless another limit is set. -/
def defaultLimit : Nat := 2000

/-- A stack without calls. -/
def empty (limit : Nat) : CallStack :=
  ⟨[], limit⟩

/-- The number of active calls. -/
def depth (s : CallStack) : Nat :=
  s.calls.length

/-- Whether no call is active. -/
def isEmpty (s : CallStack) : Bool :=
  s.calls.isEmpty

/-- The stack with one more call; an error when the limit is reached. -/
def push (s : CallStack) (call : Call) : Except Cause CallStack :=
  if s.limit ≤ s.depth then .error (.callDepthExceeded s.limit)
  else .ok { s with calls := call :: s.calls }

/-- The stack without the most recent call. -/
def pop (s : CallStack) : CallStack :=
  { s with calls := s.calls.drop 1 }

/-- The labels of the active calls, the outermost first. -/
def labels (s : CallStack) : List String :=
  s.calls.reverse.map Call.label

/-- The active calls as they are reported with an error. -/
def backtrace (s : CallStack) : Backtrace :=
  s.calls

/-- The error with the active calls. -/
def attach (s : CallStack) (e : Error) : Error :=
  e.withBacktrace s.backtrace

/-- Entering a call succeeds exactly below the limit, and adds that call. -/
theorem push_eq_ok_iff {s t : CallStack} {call : Call} :
    s.push call = .ok t ↔ s.depth < s.limit ∧ t = { s with calls := call :: s.calls } := by
  unfold push
  split
  · rename_i h
    simp [Nat.not_lt.2 h]
  · rename_i h
    simp [Nat.not_le.1 h, eq_comm]

/-- Entering a call fails only at the limit. -/
theorem push_eq_error_iff {s : CallStack} {call : Call} {c : Cause} :
    s.push call = .error c ↔ s.limit ≤ s.depth ∧ c = .callDepthExceeded s.limit := by
  unfold push
  split
  · rename_i h
    simp [h, eq_comm]
  · rename_i h
    simp [h]

/-- Leaving undoes entering. -/
theorem pop_of_push {s t : CallStack} {call : Call} (h : s.push call = .ok t) : t.pop = s := by
  obtain ⟨-, rfl⟩ := push_eq_ok_iff.1 h
  rfl

@[simp] theorem cause_attach (s : CallStack) (e : Error) : (s.attach e).cause = e.cause :=
  Error.cause_withBacktrace e _

end CallStack

end LineScript
