import LineScript.Proofs.Machine.Effect

/-!
# Scopes and calls after a run

Every conditional and every call makes frames and every call is pushed onto the
call stack; all of them are gone again when the block ends, in whatever way it
ends.

- `Environment.parents`: the live frames, each by its parent.
- `SameStacks`: two states with the same frames and calls.
- `runBlock_restores_stacks`: a run leaves frames and calls as they were.
-/

namespace LineScript

/-! ### The parents of the frames -/

namespace Environment

/-- The parent of every live frame, the root first. -/
def parents (env : Environment) : List (Option ScopeId) :=
  env.frames.toList.map Frame.parent

variable (env : Environment)

@[simp] theorem length_parents : env.parents.length = env.depth := by
  simp [parents, depth]

theorem depth_of_parents {env env' : Environment} (h : env'.parents = env.parents) :
    env'.depth = env.depth := by
  rw [← length_parents, h, length_parents]

theorem parent?_eq (scope : ScopeId) : env.parent? scope = env.parents[scope]?.join := by
  simp only [parent?, parents, List.getElem?_map, Array.getElem?_toList]
  cases env.frames[scope]? <;> rfl

@[simp] theorem parents_modify (scope : ScopeId) (f : Bindings → Bindings) :
    (env.modify scope f).parents = env.parents := by
  apply List.ext_getElem?
  intro k
  simp only [parents, modify, List.getElem?_map, Array.getElem?_toList, Array.getElem?_modify]
  split
  · cases env.frames[k]? <;> rfl
  · rfl

@[simp] theorem parents_declare (scope : ScopeId) (id : String) (b : Binding) :
    (env.declare scope id b).parents = env.parents :=
  parents_modify env scope _

@[simp] theorem parents_bindAll (scope : ScopeId) (ps : List (String × Value)) :
    (env.bindAll scope ps).parents = env.parents := by
  induction ps generalizing env with
  | nil => rfl
  | cons p ps ih => exact (ih _).trans (parents_declare env scope _ _)

@[simp] theorem parents_child (parent : ScopeId) :
    (env.child parent).2.parents = env.parents ++ [some parent] := by
  simp [child, parents]

theorem parents_release (d : Nat) : (env.release d).parents = env.parents.take (max d 1) := by
  simp [release, parents]

theorem parents_rebind? {scope : ScopeId} {id : String} {f : Binding → Binding}
    {env' : Environment} (h : env.rebind? scope id f = some env') : env'.parents = env.parents := by
  rw [rebind?] at h
  split at h
  · cases h
  · split at h
    · cases h
    · obtain rfl := Option.some.inj h
      exact parents_declare env _ _ _

end Environment

/-! ### States with the same frames and calls -/

/-- The two states have the same frames, each with the same parent, and the same
active calls. -/
structure SameStacks (s t : State) : Prop where
  parents : t.env.parents = s.env.parents
  calls : t.calls = s.calls

namespace SameStacks

variable {s t u : State}

theorem depth (h : SameStacks s t) : t.env.depth = s.env.depth :=
  Environment.depth_of_parents h.parents

theorem parent? (h : SameStacks s t) (scope : ScopeId) :
    t.env.parent? scope = s.env.parent? scope := by
  rw [Environment.parent?_eq, h.parents, ← Environment.parent?_eq]

theorem trans (h : SameStacks s t) (h' : SameStacks t u) : SameStacks s u :=
  ⟨h'.parents.trans h.parents, h'.calls.trans h.calls⟩

/-- What a line does itself leaves frames and calls as they are. -/
theorem steady (scope : ScopeId) : Steady scope SameStacks where
  refl _ := ⟨rfl, rfl⟩
  trans := trans
  tick _ := ⟨rfl, rfl⟩
  sleep _ _ := ⟨rfl, rfl⟩
  emit _ _ := ⟨rfl, rfl⟩
  fresh _ := ⟨rfl, rfl⟩
  declare s id b := ⟨Environment.parents_declare s.env scope id b, rfl⟩
  rebind _ _ h := ⟨Environment.parents_rebind? _ h, rfl⟩

end SameStacks

theorem Does.sameStacks {i : Instruction} {scope : ScopeId} {s t : State} (h : Does i scope s t) :
    SameStacks s t :=
  (SameStacks.steady scope).does h

theorem Bound.sameStacks {scope : ScopeId} {awaited : Option Target} {s t : State}
    (h : Bound scope awaited s t) : SameStacks s t :=
  (SameStacks.steady scope).bound h

/-- What is left to do when a block is closed leaves frames and calls as they are. -/
theorem Pending.sameStacks_resume (p : Pending) (r : Except Stop Outcome) (s : State) :
    SameStacks (p.close s) (p.resume r s).2 :=
  p.resume_related SameStacks.steady r s

/-- Entering a block makes one frame on top of the live ones; a call is pushed
as well. -/
theorem Opens.stacks {inv : Invocation} {s t : State} {inner : Block} {p : Pending}
    (h : Opens inv s inner p t) :
    inner.scope = s.env.depth ∧ t.env.parents = s.env.parents ++ [some inv.scope] := by
  cases h with
  | branch => exact ⟨rfl, Environment.parents_child _ _⟩
  | call => exact ⟨rfl, by simp⟩

/-- When the block of a line left the calls as they were when it began, then
closing it leaves them as they were before it was entered. -/
theorem Opens.calls_close {inv : Invocation} {s t u : State} {inner : Block} {p : Pending}
    (ho : Opens inv s inner p t) (h : u.calls = t.calls) : (p.close u).calls = s.calls := by
  cases ho with
  | branch => exact h
  | call hpush => rw [Pending.close, h, CallStack.pop_of_push hpush]

/-- The scope of a block is live when the block begins. -/
theorem Opens.scope_lt {inv : Invocation} {s t : State} {inner : Block} {p : Pending}
    (h : Opens inv s inner p t) : inner.scope < t.env.depth := by
  rw [← Environment.length_parents, h.stacks.2, h.stacks.1]
  simp

/-- When the block of a line left the frames as they were when it began, then closing
it leaves exactly those that there were before it was entered. -/
theorem Opens.parents_close {inv : Invocation} {s t u : State} {inner : Block} {p : Pending}
    (ho : Opens inv s inner p t) (hs : 0 < s.env.depth) (h : u.env.parents = t.env.parents) :
    (p.close u).env.parents = s.env.parents := by
  -- the frames made since are exactly those beyond the ones before
  have hparents : (u.env.release s.env.depth).parents = s.env.parents := by
    rw [Environment.parents_release, h, ho.stacks.2, Nat.max_eq_left hs,
      ← Environment.length_parents, List.take_left]
  cases ho with
  | branch | call => exact hparents

/-- When the block of a line left frames and calls as they were when it began,
then closing it leaves them as they were before it was entered. -/
theorem Opens.sameStacks_close {inv : Invocation} {s t u : State} {inner : Block} {p : Pending}
    (ho : Opens inv s inner p t) (hs : 0 < s.env.depth) (h : SameStacks t u) :
    SameStacks s (p.close u) :=
  ⟨ho.parents_close hs h.parents, ho.calls_close h.calls⟩

/-- A run in a live scope leaves frames and calls as they were. -/
theorem sameStacks_runRelation :
    RunRelation fun scope s t => scope < s.env.depth → SameStacks s t where
  steady scope :=
    { refl := fun s _ => (SameStacks.steady scope).refl s
      trans := fun h h' hlive => (h hlive).trans (h' (by rwa [(h hlive).depth]))
      tick := fun s _ => (SameStacks.steady scope).tick s
      sleep := fun s n _ => (SameStacks.steady scope).sleep s n
      emit := fun s v _ => (SameStacks.steady scope).emit s v
      fresh := fun s _ => (SameStacks.steady scope).fresh s
      declare := fun s id b _ => (SameStacks.steady scope).declare s id b
      rebind := fun hold hvariable h _ => (SameStacks.steady scope).rebind hold hvariable h }
  block := by
    intro inv s t u inner p ho h hlive
    exact ho.sameStacks_close (Nat.zero_lt_of_lt hlive) (h ho.scope_lt)

/-! ### After a run -/

/-- **Every exit restores the stacks.** A run of a block in a live scope leaves
as many frames, each with the parent that it had, and the active calls that
there were, however the run ends. So an interpreter that has only its root frame
and no active call has only these again after every program. -/
theorem runBlock_restores_stacks :
    (∀ (fuel : Nat) (b : Block) (s t : State) (r : Except Stop Outcome),
      s.env.isLive b.scope = true → runBlock standardTable fuel b 0 s = (r, t) →
        t.env.depth = s.env.depth ∧ (∀ scope, t.env.parent? scope = s.env.parent? scope) ∧
          t.calls = s.calls) ∧
    (∀ (fuel : Nat) (m m' : Interpreter) (p : Program) (r : Except Stop Unit),
      m.table = standardTable → m.state.env.depth = 1 → m.state.calls.calls = [] →
        m.run fuel p = (r, m') → m'.state.env.depth = 1 ∧ m'.state.calls.calls = []) := by
  have hrun : ∀ (fuel : Nat) (b : Block) (s : State), b.scope < s.env.depth →
      SameStacks s (runBlock standardTable fuel b 0 s).2 :=
    fun fuel b s hlive => runBlock_related sameStacks_runRelation fuel b 0 s hlive
  constructor
  · intro fuel b s t r hlive h
    have hs := hrun fuel b s (by simpa [Environment.isLive] using hlive)
    rw [h] at hs
    exact ⟨hs.depth, hs.parent?, hs.calls⟩
  · intro fuel m m' p r htable hdepth hcalls h
    rw [m.run_eq, htable] at h
    have hs := hrun fuel (.root p.instructions Environment.root) m.state
      (hdepth ▸ Nat.zero_lt_one)
    generalize runBlock standardTable fuel _ 0 m.state = result at h hs
    obtain rfl := (Prod.mk.inj h).2
    exact ⟨hs.depth.trans hdepth, (congrArg CallStack.calls hs.calls).trans hcalls⟩

/-- A call that fails inside a conditional of its function. -/
def failingCall : List Instruction :=
  [⟨"FUNC f", 1⟩, ⟨"IF true", 2⟩, ⟨"RET missing", 3⟩, ⟨"END", 4⟩, ⟨"END", 5⟩, ⟨"CALL f", 6⟩]

/-- The error of `failingCall`, with its line and the call that it is in. -/
def failingCallError : Error :=
  ⟨.undefinedVariable "missing", some 3, some [⟨"f", some 6⟩]⟩

/-- The error of `failingCall` leaves one frame and no call, though two frames
and a call were made before it. -/
theorem failingCall_restores_stacks :
    ∃ (t : State) (m : Interpreter),
      (Interpreter.initialState 10 .silent).env.isLive Environment.root = true ∧
      runBlock standardTable 20 (.root failingCall Environment.root) 0
        (Interpreter.initialState 10 .silent) = (.error (.failed failingCallError), t) ∧
      (Interpreter.new 10 .silent []).run 20 ⟨failingCall⟩ =
        (.error (.failed failingCallError), m) ∧
      (t.env.depth = 1 ∧ t.calls = .empty 10) ∧
      m.state.env.depth = 1 ∧ m.state.calls.calls = [] := by
  -- the two runs are evaluated; what they leave is an instance of the theorem
  obtain ⟨hblock, hrun⟩ := runBlock_restores_stacks
  have hlive : (Interpreter.initialState 10 .silent).env.isLive Environment.root = true := rfl
  have herror : (runBlock standardTable 20 (.root failingCall Environment.root) 0
      (Interpreter.initialState 10 .silent)).1 = .error (.failed failingCallError) := rfl
  obtain ⟨t, hfails⟩ : ∃ t, runBlock standardTable 20 (.root failingCall Environment.root) 0
      (Interpreter.initialState 10 .silent) = (.error (.failed failingCallError), t) :=
    ⟨_, Prod.ext herror rfl⟩
  have hfails' := Interpreter.run_of_block (m := .new 10 .silent []) (p := ⟨failingCall⟩) hfails
  obtain ⟨hdepth, -, hcalls⟩ := hblock 20 _ _ t _ hlive hfails
  exact ⟨t, _, hlive, hfails, hfails', ⟨hdepth, hcalls⟩,
    hrun 20 _ _ ⟨failingCall⟩ _ rfl rfl rfl hfails'⟩
end LineScript
