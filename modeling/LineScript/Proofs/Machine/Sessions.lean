import LineScript.Proofs.Machine.Frames
import LineScript.Proofs.Machine.Scopes

/-!
# Sessions

The programs of a session are run one after the other, and each finds in the root
frame what the ones before it have left there.

- `Session`: the moments of a session.
- `Session.wellNested`, `Session.reachable`: what holds at every moment of a session.
- `Session.strays_eq_false`: names are searched for in live frames only.
-/

namespace LineScript

/-- The moments of a session. The first program finds an interpreter that has not run
anything, any other one the state that the program before it has left, however that
ended. Steps are taken from moments that `allowed` admits. -/
inductive Session (limit : Nat) (sink : Sink) (allowed : Config → Prop) : Config → Prop where
  | first (p : Program) : Session limit sink allowed ((Interpreter.new limit sink []).start p)
  | step {c : Config} (h : Session limit sink allowed c) (hallowed : allowed c) :
      Session limit sink allowed c.step
  | next {m : Interpreter} {r : Except Stop Outcome}
      (h : Session limit sink allowed (.ended [] r m.state)) (p : Program) :
      Session limit sink allowed (m.start p)

/-! ### The environment of a moment -/

/-- The scope of a new block is a child of the one of its line. -/
theorem Opens.reachable {inv : Invocation} {s t : State} {inner : Block} {p : Pending}
    (ho : Opens inv s inner p t) (hlive : inv.scope < s.env.depth) (h : s.env.Reachable) :
    t.env.Reachable := by
  cases ho with
  | branch => exact h.child hlive
  | call => exact (h.child hlive).bindAll _ _

/-- Closing a block releases frames, and nothing else of the environment. -/
theorem Pending.reachable_close (p : Pending) {s : State} (h : s.env.Reachable) :
    (p.close s).env.Reachable := by
  cases p with
  | branch | call => exact h.release _

/-- What a line does itself are operations on the environment. -/
theorem reachable_steady (scope : ScopeId) :
    Steady scope fun s t => s.env.Reachable → t.env.Reachable :=
  .ofEnv (Q := fun env env' => env.Reachable → env'.Reachable) (fun _ h => h)
    (fun h h' hr => h' (h hr)) (fun _ id b h => h.declare scope id b)
    fun _ _ henv h => h.rebind? henv

/-- Every step is made of operations on the environment. -/
theorem Config.reachable_step {start : Block} {base : Nat} (hstart : start.scope < base)
    (c : Config) (hn : c.WellNested start base) (h : c.state.env.Reachable) :
    c.step.state.env.Reachable := by
  have hstep := c.stepsTo
  generalize c.step = d at hstep ⊢
  cases hstep with
  | atEnd | error | goesOn | leaves | halted => exact h
  | @failed b _ _ _ _ _ _ _ hdoes | @finished b _ _ _ _ _ _ _ hdoes =>
    exact (reachable_steady b.scope).does hdoes h
  | @opens b _ _ _ _ _ s t _ _ hdoes ho =>
    have hdepth := hdoes.sameStacks.depth
    have hlive : b.scope < t.env.depth := by
      rw [hdepth]
      exact Nested.scope_lt hstart hn
    exact ho.reachable hlive ((reachable_steady b.scope).does hdoes h)
  | @resumes w _ r s =>
    exact w.pending.resume_related reachable_steady r s (w.pending.reachable_close h)

namespace Session

variable {limit : Nat} {sink : Sink} {allowed : Config → Prop} {c d : Config}

/-- At every moment of a session the blocks of a program hang together. -/
theorem wellNested (h : Session limit sink allowed c) :
    ∃ p : Program, c.WellNested (.root p.instructions Environment.root) 1 := by
  induction h with
  | first p => exact ⟨p, .root⟩
  | step _ _ ih =>
    obtain ⟨p, hp⟩ := ih
    exact ⟨p, Config.WellNested.step Nat.one_pos _ hp⟩
  | @next m r _ p ih =>
    -- after a program only the root frame is left
    obtain ⟨q, b, hb⟩ := ih
    have hdepth : m.state.env.depth = 1 := by
      generalize m.state.env.depth = depth at hb
      cases hb
      rfl
    refine ⟨p, ?_⟩
    show Nested _ 1 _ [] m.state.env.depth
    rw [hdepth]
    exact .root

/-- Every moment of a session has an environment that the operations can make. -/
theorem reachable (h : Session limit sink allowed c) : c.state.env.Reachable := by
  induction h with
  | first p => exact .initialState limit sink
  | step h _ ih =>
    obtain ⟨p, hp⟩ := h.wellNested
    exact Config.reachable_step Nat.zero_lt_one _ hp ih
  | next _ p ih => exact ih

/-- The line at hand is in a live scope. -/
theorem scope_live {b : Block} {index : Nat} {outer : List Suspended} {s : State}
    (h : Session limit sink allowed (.running b index outer s)) : s.env.isLive b.scope = true := by
  obtain ⟨p, hp⟩ := h.wellNested
  exact decide_eq_true (Nested.scope_lt Nat.zero_lt_one hp)

/-- No search for a name from the scope at hand comes to a frame that was released. -/
theorem strays_eq_false {b : Block} {index : Nat} {outer : List Suspended} {s : State}
    (h : Session limit sink allowed (.running b index outer s)) (id : String) :
    s.env.strays b.scope id = false :=
  Environment.strays_eq_false h.reachable.ranked (of_decide_eq_true h.scope_live) id

/-- A session goes on to every later moment of a run, if all steps are allowed. -/
theorem of_reaches (h : Session limit sink (fun _ => True) c) (hreach : Reaches c d) :
    Session limit sink (fun _ => True) d :=
  hreach.invariant (fun _ h => h.step trivial) h

end Session

end LineScript
