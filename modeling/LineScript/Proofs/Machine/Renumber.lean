import LineScript.Proofs.Expr.Renumber
import LineScript.Proofs.Machine.Line

/-!
# Other line numbers in a state

What a machine keeps with the line numbers that are in it: bindings, active calls, errors
and values that were handed to the host. All that a machine does with them commutes with
giving other numbers to the lines.

- `Environment.renumber`: other line numbers in the functions that are bound, with
  `find?_renumber`, `declare_renumber` and `rebind?_renumber`.
- `Call.renumber`, `Error.renumber`, `Sink.renumber`: calls, errors and output.
- `Environment.renumber_sameLine` and the like: the same numbers change nothing.
-/

namespace LineScript

/-! ### The same line numbers -/

/-- Every line keeps its number. -/
abbrev sameLine (line : Nat) : Nat := line

@[simp] theorem Function.renumber_sameLine (f : Function) : f.renumber sameLine = f := by
  have hbody : f.body.map (Instruction.renumber sameLine) = f.body := List.map_id f.body
  rw [Function.renumber, hbody]

@[simp] theorem Value.renumber_sameLine (v : Value) : v.renumber sameLine = v := by
  cases v with
  | function f => exact congrArg Value.function f.renumber_sameLine
  | undefined | boolean | number | string | std => rfl

/-! ### Bindings -/

/-- The same binding with other line numbers in its value. -/
def Binding.renumber (g : Nat → Nat) (b : Binding) : Binding :=
  { b with value := b.value.renumber g }

@[simp] theorem Binding.renumber_sameLine (b : Binding) : b.renumber sameLine = b := by
  rw [Binding.renumber, Value.renumber_sameLine]

/-- The same bindings with other line numbers in their values. -/
def Bindings.renumber (g : Nat → Nat) (bs : Bindings) : Bindings :=
  bs.map fun (id, b) => (id, b.renumber g)

namespace Bindings

@[simp] theorem renumber_sameLine (bs : Bindings) : renumber sameLine bs = bs := by
  simp only [renumber, Binding.renumber_sameLine]
  exact List.map_id bs

variable (g : Nat → Nat)

theorem find?_renumber (id : String) (bs : Bindings) :
    find? id (renumber g bs) = (find? id bs).map (Binding.renumber g) := by
  rw [find?, find?, renumber]
  induction bs with
  | nil => rfl
  | cons p bs ih =>
    rw [List.map_cons, List.lookup_cons, List.lookup_cons]
    dsimp only
    split
    · rfl
    · exact ih

theorem insert_renumber (id : String) (b : Binding) (bs : Bindings) :
    insert id (b.renumber g) (renumber g bs) = renumber g (insert id b bs) := by
  induction bs with
  | nil => rfl
  | cons p bs ih =>
    show insert id (b.renumber g) ((p.1, p.2.renumber g) :: renumber g bs) = _
    simp only [insert]
    by_cases hlt : id < p.1
    · rw [if_pos hlt, if_pos hlt]
      rfl
    · rw [if_neg hlt, if_neg hlt]
      by_cases heq : id = p.1
      · rw [if_pos heq, if_pos heq]
        rfl
      · rw [if_neg heq, if_neg heq, ih]
        rfl

end Bindings

/-! ### Frames -/

/-- The same frame with other line numbers in its bindings. -/
def Frame.renumber (g : Nat → Nat) (frame : Frame) : Frame :=
  { frame with bindings := Bindings.renumber g frame.bindings }

@[simp] theorem Frame.renumber_sameLine (frame : Frame) : frame.renumber sameLine = frame := by
  rw [Frame.renumber, Bindings.renumber_sameLine]

namespace Environment

/-- The same environment with other line numbers in the functions that are bound. -/
def renumber (g : Nat → Nat) (env : Environment) : Environment :=
  ⟨env.frames.map (Frame.renumber g)⟩

@[simp] theorem renumber_sameLine (env : Environment) : env.renumber sameLine = env := by
  have hframe : Frame.renumber sameLine = id := funext Frame.renumber_sameLine
  rw [renumber, hframe, Array.map_id]

variable (g : Nat → Nat) (env : Environment)

theorem renumber_new : Environment.new.renumber g = Environment.new := by
  simp only [renumber, new, List.map_toArray, List.map_cons, List.map_nil]
  rfl

@[simp] theorem depth_renumber : (env.renumber g).depth = env.depth := by
  simp [renumber, depth]

theorem getElem?_renumber (scope : ScopeId) :
    (env.renumber g).frames[scope]? = env.frames[scope]?.map (Frame.renumber g) :=
  Array.getElem?_map

theorem bindings_renumber (scope : ScopeId) :
    (env.renumber g).bindings scope = Bindings.renumber g (env.bindings scope) := by
  rw [bindings, bindings, getElem?_renumber]
  cases env.frames[scope]? with
  | none => rfl
  | some frame => rfl

theorem child_renumber (parent : ScopeId) :
    (env.renumber g).child parent = (env.depth, (env.child parent).2.renumber g) := by
  rw [child, child, depth_renumber]
  simp only [renumber, Array.map_push]
  rfl

theorem release_renumber (d : Nat) :
    (env.renumber g).release d = (env.release d).renumber g := by
  simp only [release, renumber, Environment.mk.injEq]
  apply Array.toList_inj.1
  simp only [Array.toList_shrink, Array.toList_map, List.map_take]

theorem declare_renumber (scope : ScopeId) (id : String) (b : Binding) :
    (env.renumber g).declare scope id (b.renumber g) = (env.declare scope id b).renumber g := by
  simp only [declare, modify, renumber, Environment.mk.injEq]
  apply Array.ext_getElem?
  intro k
  simp only [Array.getElem?_modify, Array.getElem?_map]
  by_cases hk : scope = k
  · rw [if_pos hk, if_pos hk]
    cases env.frames[k]? with
    | none => rfl
    | some frame =>
      simp only [Option.map_some, Frame.renumber, Bindings.insert_renumber]
  · rw [if_neg hk, if_neg hk]

theorem bindAll_renumber (scope : ScopeId) (params : List String) (values : List Value) :
    (env.renumber g).bindAll scope (params.zip (values.map (Value.renumber g))) =
      (env.bindAll scope (params.zip values)).renumber g := by
  induction params generalizing env values with
  | nil => rfl
  | cons param params ih =>
    cases values with
    | nil => rfl
    | cons v values =>
      show bindAll ((env.renumber g).declare scope param ⟨v.renumber g, false⟩) scope _ = _
      exact (congrArg (fun env => bindAll env scope _)
        (declare_renumber g env scope param ⟨v, false⟩)).trans (ih _ values)

theorem owner?_renumber (scope : ScopeId) (id : String) :
    (env.renumber g).owner? scope id = env.owner? scope id := by
  have hamong : ∀ n scope, (env.renumber g).ownerAmong id n scope = env.ownerAmong id n scope := by
    intro n
    induction n with
    | zero => exact fun _ => rfl
    | succ n ih =>
      intro scope
      rw [ownerAmong, ownerAmong, getElem?_renumber]
      cases env.frames[scope]? with
      | none => rfl
      | some frame =>
        simp only [Option.map_some, Frame.renumber, Bindings.find?_renumber, Option.isSome_map]
        split
        · rfl
        · cases frame.parent with
          | none => rfl
          | some up => exact ih up
  rw [owner?, owner?, depth_renumber, hamong]

theorem find?_renumber (scope : ScopeId) (id : String) :
    (env.renumber g).find? scope id = (env.find? scope id).map (Binding.renumber g) := by
  rw [find?_eq, find?_eq, owner?_renumber]
  cases env.owner? scope id with
  | none => rfl
  | some owner =>
    simp only [Option.bind_some, bindings_renumber, Bindings.find?_renumber]

theorem rebind?_renumber (scope : ScopeId) (id : String) (v : Value) (constant : Bool) :
    (env.renumber g).rebind? scope id (fun _ => ⟨v.renumber g, constant⟩) =
      (env.rebind? scope id fun _ => ⟨v, constant⟩).map (renumber g) := by
  rw [rebind?, rebind?, owner?_renumber]
  cases env.owner? scope id with
  | none => rfl
  | some owner =>
    dsimp only
    rw [bindings_renumber, Bindings.find?_renumber]
    cases Bindings.find? id (env.bindings owner) with
    | none => rfl
    | some b => exact congrArg some (declare_renumber g env owner id ⟨v, constant⟩)

end Environment

/-! ### Calls, errors and output -/

/-- The same call with another line number. -/
def Call.renumber (g : Nat → Nat) (c : Call) : Call :=
  { c with line := c.line.map g }

@[simp] theorem Call.renumber_sameLine (c : Call) : c.renumber sameLine = c := by
  obtain ⟨label, line⟩ := c
  cases line <;> rfl

/-- The same error with other line numbers. -/
def Error.renumber (g : Nat → Nat) (e : Error) : Error :=
  ⟨e.cause, e.line.map g, e.backtrace.map (List.map (Call.renumber g))⟩

namespace Error

@[simp] theorem renumber_sameLine (e : Error) : e.renumber sameLine = e := by
  have hcalls : ∀ calls : List Call, calls.map (Call.renumber sameLine) = calls := by
    intro calls
    rw [show Call.renumber sameLine = id from funext Call.renumber_sameLine, List.map_id]
  obtain ⟨cause, line, backtrace⟩ := e
  cases line <;> cases backtrace <;> simp only [renumber, Option.map, hcalls]

variable (g : Nat → Nat) (e : Error)

theorem atLine_renumber (line : Nat) :
    (e.renumber g).atLine (g line) = (e.atLine line).renumber g := by
  simp only [renumber, atLine]
  cases e.line with
  | none => rfl
  | some line => rfl

theorem withBacktrace_renumber (calls : Backtrace) :
    (e.renumber g).withBacktrace (calls.map (Call.renumber g)) =
      (e.withBacktrace calls).renumber g := by
  simp only [withBacktrace, renumber, Option.isNone_map, List.isEmpty_map]
  split
  · rfl
  · rfl

end Error

/-- The same output with other line numbers in the values that were handed on. -/
def Sink.renumber (g : Nat → Nat) : Sink → Sink
  | forward values => forward (values.map (Value.renumber g))
  | sink => sink

namespace Sink

@[simp] theorem renumber_sameLine (sink : Sink) : sink.renumber sameLine = sink := by
  have hvalue : Value.renumber sameLine = id := funext Value.renumber_sameLine
  cases sink with
  | forward values => simp only [renumber, hvalue, Array.map_id]
  | buffer | silent | console => rfl

variable (g : Nat → Nat) (sink : Sink)

/-- A function is printed without its lines. -/
theorem emit_renumber (v : Value) :
    (sink.renumber g).emit (v.renumber g) = (sink.emit v).renumber g := by
  cases sink with
  | forward values => simp only [renumber, emit, Array.map_push]
  | buffer | silent | console => simp only [renumber, emit, Value.text_renumber]

theorem pause_renumber (n : Nat) : (sink.renumber g).pause n = (sink.pause n).renumber g := by
  cases sink <;> rfl

end Sink

end LineScript
