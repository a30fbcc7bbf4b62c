import LineScript.Proofs.Machine.Writes

/-!
# What a line may change

Up to the block that it executes, a line of a scope changes the state in few
ways: it binds names in its scope, gives variables new values where they are bound,
prints, waits, and takes identities. A relation between states that holds across
each of these holds across the whole first part of a line; if it also holds
across a block with its scope and call, it holds across every run.

- `Steady`: a relation that holds across all that a line of a scope does itself.
- `Steady.does`, `Opens.resume`: a line stays within a steady relation, before its block
  and after it.
- `RunRelation`, `runBlock_related`: a relation that holds across every run.
-/

namespace LineScript

/-- A relation between the states before and after that holds across everything
that a line of `scope` does apart from its block. -/
structure Steady (scope : ScopeId) (R : State → State → Prop) : Prop where
  refl : ∀ s, R s s
  trans : ∀ {s t u}, R s t → R t u → R s u
  tick : ∀ s, R s { s with clock := s.clock.tick }
  sleep : ∀ s n, R s { s with clock := s.clock.sleep n, sink := s.sink.pause n }
  emit : ∀ s v, R s { s with sink := s.sink.emit v }
  fresh : ∀ s, R s { s with nextId := s.nextId + 1 }
  declare : ∀ s id b, R s { s with env := s.env.declare scope id b }
  rebind : ∀ {s id f env b}, s.env.find? scope id = some b → b.constant = false →
    s.env.rebind? scope id f = some env → R s { s with env }

namespace Steady

variable {scope : ScopeId} {R : State → State → Prop} {s t : State}

/-- A relation between environments is steady when it holds across writes. -/
theorem ofEnv {Q : Environment → Environment → Prop} (hrefl : ∀ env, Q env env)
    (htrans : ∀ {env env' env''}, Q env env' → Q env' env'' → Q env env'')
    (hdeclare : ∀ env id b, Q env (env.declare scope id b))
    (hrebind : ∀ {env env' id f b}, env.find? scope id = some b → b.constant = false →
      env.rebind? scope id f = some env' → Q env env') :
    Steady scope fun s t => Q s.env t.env where
  refl s := hrefl s.env
  trans := htrans
  tick s := hrefl s.env
  sleep s _ := hrefl s.env
  emit s _ := hrefl s.env
  fresh s := hrefl s.env
  declare s := hdeclare s.env
  rebind := hrebind

theorem idles (hR : Steady scope R) (h : Idles s t) : R s t := by
  induction h with
  | refl s => exact hR.refl s
  | trans _ _ ih ih' => exact hR.trans ih ih'
  | tick s => exact hR.tick s
  | sleep s n => exact hR.sleep s n
  | emit s v => exact hR.emit s v
  | fresh s => exact hR.fresh s

theorem wrote (hR : Steady scope R) {i : Instruction} {env : Environment}
    (h : Wrote i scope s env) : R s { s with env } := by
  cases h with
  | nothing => exact hR.refl s
  | declared => exact hR.declare s _ _
  | defined => exact hR.declare s _ _
  | assigned _ hold hvariable _ henv => exact hR.rebind hold hvariable henv

/-- A steady relation holds across all that a line does itself. -/
theorem does (hR : Steady scope R) {i : Instruction} (h : Does i scope s t) : R s t := by
  obtain ⟨before, wrote, after⟩ := h
  exact hR.trans (hR.idles before) (hR.trans (hR.wrote wrote) (hR.idles after))

theorem bound (hR : Steady scope R) {awaited : Option Target} (h : Bound scope awaited s t) :
    R s t := by
  cases h with
  | nothing => exact hR.refl s
  | bound => exact hR.declare s _ _

end Steady

/-- When the block of a line has ended and its scope is released, the line still
stays within the relation. -/
theorem Opens.resume {R : State → State → Prop} {inv : Invocation} (hR : Steady inv.scope R)
    {s t u v : State} {inner : Block} {p : Pending} (ho : Opens inv t inner p u)
    (hs : R s (p.close v)) (r : Except Stop Outcome) : R s (p.resume r v).2 :=
  hR.trans hs (hR.bound (ho.resume_bound r v))

/-- After the scope of a block is released, what is left to do holds within any
relation that is steady in every scope. -/
theorem Pending.resume_related {R : State → State → Prop} (hR : ∀ scope, Steady scope R)
    (p : Pending) (r : Except Stop Outcome) (s : State) : R (p.close s) (p.resume r s).2 := by
  cases p with
  | branch depth endTarget => exact (hR 0).refl _
  | call f depth scope target after => exact (hR scope).bound (resume_call ..)

/-! ### Relations across runs -/

/-- A relation between the states before and after, for every scope, that holds
across what a line of the scope does itself and across blocks: when it holds
across a block, it holds across entering the block, the block, and closing it. -/
structure RunRelation (R : ScopeId → State → State → Prop) : Prop where
  steady : ∀ scope, Steady scope (R scope)
  block : ∀ {inv : Invocation} {s t u : State} {inner : Block} {p : Pending},
    Opens inv s inner p t → R inner.scope t u → R inv.scope s (p.close u)

/-- A run relation that holds across the blocks within a line holds across the line. -/
theorem dispatch_related {R : ScopeId → State → State → Prop} (hR : RunRelation R)
    (runner : Runner) (hrunner : ∀ inner s, R inner.scope s (runner inner s).2) (b : Block)
    (index : Nat) (i : Instruction) (s : State) :
    R b.scope s (dispatch standardTable runner b index i s).2 := by
  have hinv : Steady (Invocation.scope ⟨b, index, i.operand, i.line⟩) (R b.scope) :=
    hR.steady b.scope
  rw [dispatch_eq, Exec.bind_apply]
  have hbegun := beginLine_does b index i s
  generalize beginLine standardTable b index i s = begun at hbegun ⊢
  cases hbegun with
  | failed h | finished h => exact hinv.does h
  | opens h ho => exact hinv.trans (hinv.does h) (ho.resume hinv (hR.block ho (hrunner _ _)) _)

/-- A run relation holds across every run of a block. -/
theorem runBlock_related {R : ScopeId → State → State → Prop} (hR : RunRelation R) (fuel : Nat)
    (b : Block) (index : Nat) (s : State) :
    R b.scope s (runBlock standardTable fuel b index s).2 := by
  induction fuel generalizing b index s with
  | zero => exact (hR.steady b.scope).refl s
  | succ fuel ih =>
    have hsteady := hR.steady b.scope
    rw [runBlock_succ]
    cases b.code[index]? with
    | none => exact hsteady.refl s
    | some i =>
      -- the line itself with its block, and then the rest of the block
      have hline := dispatch_related hR (nestedRunner standardTable fuel)
        (fun inner s => ih inner 0 s) b index i s
      dsimp only
      generalize dispatch standardTable _ b index i s = result at hline ⊢
      obtain ⟨r, t⟩ := result
      cases r with
      | error e => exact hline
      | ok control =>
        dsimp only
        cases b.next index control with
        | inl next => exact hsteady.trans hline (ih b next t)
        | inr outcome => exact hline

end LineScript
