import LineScript.Proofs.Machine.Stacks

/-!
# Runs step by step

A run can be watched line by line: which line is at hand, in which blocks it
stands, and which lines wait for those blocks. The run of a block is exactly
this machine's run to its end.

- `Suspended`: a line that waits for the block that it executes.
- `Config`, `Config.step`: a moment of a run, and the next one.
- `Config.StepsTo`: all that a step can do.
- `Reaches`, `Leads`: later moments; those before another line begins.
- `runBlock_mono`: more fuel changes no result.
- `reaches_ended_iff`, `Interpreter.run_iff_reaches`: the machine ends as the run of the
  block, or of the program, does.
-/

namespace LineScript

/-- A line that waits for the block that it executes. -/
structure Suspended where
  block : Block
  index : Nat
  line : Nat
  pending : Pending

/-- A moment of a run. In each, `outer` are the lines that wait, the innermost
first. -/
inductive Config where
  /-- The line at a position of a block is at hand. -/
  | running (b : Block) (index : Nat) (outer : List Suspended) (s : State)
  /-- The line at a position of a block is over. -/
  | answered (b : Block) (index line : Nat) (outer : List Suspended) (r : Except Stop Control)
      (s : State)
  /-- A block has ended. -/
  | ended (outer : List Suspended) (r : Except Stop Outcome) (s : State)

namespace Config

/-- The next moment of a run. When no line waits, the run is over. -/
def step : Config → Config
  | running b index outer s =>
    match b.code[index]? with
    | none => ended outer (.ok .completed) s
    | some i =>
      match beginLine standardTable b index i s with
      | (.error e, s) => answered b index i.line outer (.error e) s
      | (.ok (.finished control), s) => answered b index i.line outer (.ok control) s
      | (.ok (.opens inner pending), s) => running inner 0 (⟨b, index, i.line, pending⟩ :: outer) s
  | answered b index line outer r s =>
    match r with
    | .error e => ended outer (.error (e.mapError (·.atLine line))) s
    | .ok control =>
      match b.next index control with
      | .inl index => running b index outer s
      | .inr outcome => ended outer (.ok outcome) s
  | ended outer r s =>
    match outer with
    | [] => ended [] r s
    | w :: outer =>
      match w.pending.resume r s with
      | (r, s) => answered w.block w.index w.line outer r s

/-- The step from a line is to where it begins. -/
theorem step_running {b : Block} {index : Nat} {i : Instruction} (hi : b.code[index]? = some i)
    (outer : List Suspended) (s : State) :
    (running b index outer s).step =
      match beginLine standardTable b index i s with
      | (.error e, s) => answered b index i.line outer (.error e) s
      | (.ok (.finished control), s) => answered b index i.line outer (.ok control) s
      | (.ok (.opens inner pending), s) =>
        running inner 0 (⟨b, index, i.line, pending⟩ :: outer) s := by
  rw [step, hi]

/-- What a step can do: from which moment it comes to which. -/
inductive StepsTo : Config → Config → Prop where
  | atEnd {b : Block} {index : Nat} {outer : List Suspended} {s : State}
      (hend : b.code[index]? = none) :
      StepsTo (running b index outer s) (ended outer (.ok .completed) s)
  | failed {b : Block} {index : Nat} {i : Instruction} {outer : List Suspended} {s t : State}
      {cause : Cause} (hi : b.code[index]? = some i) (hdoes : Does i b.scope s t) :
      StepsTo (running b index outer s)
        (answered b index i.line outer (.error (.failed (.ofCause cause))) t)
  | finished {b : Block} {index : Nat} {i : Instruction} {outer : List Suspended} {s t : State}
      {control : Control} (hi : b.code[index]? = some i) (hdoes : Does i b.scope s t) :
      StepsTo (running b index outer s) (answered b index i.line outer (.ok control) t)
  | opens {b inner : Block} {index : Nat} {i : Instruction} {outer : List Suspended}
      {p : Pending} {s t u : State} (hi : b.code[index]? = some i) (hdoes : Does i b.scope s t)
      (ho : Opens ⟨b, index, i.operand, i.line⟩ t inner p u) (htarget : p.target? = i.declared?) :
      StepsTo (running b index outer s) (running inner 0 (⟨b, index, i.line, p⟩ :: outer) u)
  | error {b : Block} {index line : Nat} {outer : List Suspended} {e : Stop} {s : State} :
      StepsTo (answered b index line outer (.error e) s)
        (ended outer (.error (e.mapError (·.atLine line))) s)
  | goesOn {b : Block} {index line next : Nat} {outer : List Suspended} {control : Control}
      {s : State} (hnext : b.next index control = .inl next) :
      StepsTo (answered b index line outer (.ok control) s) (running b next outer s)
  | leaves {b : Block} {index line : Nat} {outer : List Suspended} {control : Control}
      {outcome : Outcome} {s : State} (hnext : b.next index control = .inr outcome) :
      StepsTo (answered b index line outer (.ok control) s) (ended outer (.ok outcome) s)
  | halted {r : Except Stop Outcome} {s : State} : StepsTo (ended [] r s) (ended [] r s)
  | resumes {w : Suspended} {outer : List Suspended} {r : Except Stop Outcome} {s : State} :
      StepsTo (ended (w :: outer) r s)
        (answered w.block w.index w.line outer (w.pending.resume r s).1 (w.pending.resume r s).2)

/-- The next moment is one that a step can come to. -/
theorem stepsTo (c : Config) : c.StepsTo c.step := by
  cases c with
  | running b index outer s =>
    simp only [step]
    cases hi : b.code[index]? with
    | none => exact .atEnd hi
    | some i =>
      have hbegun := beginLine_does b index i s
      dsimp only
      generalize beginLine standardTable b index i s = begun at hbegun ⊢
      cases hbegun with
      | failed hdoes => exact .failed hi hdoes
      | finished hdoes => exact .finished hi hdoes
      | opens hdoes ho htarget => exact .opens hi hdoes ho htarget
  | answered b index line outer r s =>
    simp only [step]
    cases r with
    | error e => exact .error
    | ok control =>
      dsimp only
      cases hnext : b.next index control with
      | inl next => exact .goesOn hnext
      | inr outcome => exact .leaves hnext
  | ended outer r s =>
    cases outer with
    | nil => exact .halted
    | cons w outer => exact .resumes

/-- The moment after a number of steps. -/
def after : Nat → Config → Config
  | 0, c => c
  | n + 1, c => after n c.step

theorem after_add (m n : Nat) (c : Config) : after (m + n) c = after n (after m c) := by
  induction m generalizing c with
  | zero => rw [Nat.zero_add]; rfl
  | succ m ih => rw [Nat.succ_add]; exact ih c.step

end Config

/-- The run comes from one moment to the other. -/
def Reaches (c d : Config) : Prop :=
  ∃ n, c.after n = d

namespace Reaches

variable {c d e : Config}

theorem refl (c : Config) : Reaches c c :=
  ⟨0, rfl⟩

theorem trans (h : Reaches c d) (h' : Reaches d e) : Reaches c e := by
  obtain ⟨m, rfl⟩ := h
  obtain ⟨n, rfl⟩ := h'
  exact ⟨m + n, Config.after_add m n c⟩

/-- A step and what follows it. -/
theorem of_step (h : Reaches c.step d) : Reaches c d := by
  obtain ⟨n, hn⟩ := h
  exact ⟨n + 1, hn⟩

/-- What each step preserves holds at every moment that a run comes to. -/
theorem invariant {P : Config → Prop} (hstep : ∀ c, P c → P c.step) (h : Reaches c d) (hc : P c) :
    P d := by
  obtain ⟨n, rfl⟩ := h
  induction n generalizing c with
  | zero => exact hc
  | succ n ih => exact ih (hstep c hc)

end Reaches

/-- The run comes from one moment to the other before another line begins. -/
inductive Leads : Config → Config → Prop where
  | refl (c : Config) : Leads c c
  | atEnd {b : Block} {index : Nat} {outer : List Suspended} {s : State} {d : Config}
      (hend : b.code[index]? = none) (h : Leads (.ended outer (.ok .completed) s) d) :
      Leads (.running b index outer s) d
  | answered {b : Block} {index line : Nat} {outer : List Suspended} {r : Except Stop Control}
      {s : State} {d : Config} (h : Leads (Config.answered b index line outer r s).step d) :
      Leads (.answered b index line outer r s) d
  | ended {outer : List Suspended} {r : Except Stop Outcome} {s : State} {d : Config}
      (h : Leads (Config.ended outer r s).step d) : Leads (.ended outer r s) d

theorem Leads.trans {c d e : Config} (h : Leads c d) (h' : Leads d e) : Leads c e := by
  induction h with
  | refl => exact h'
  | atEnd hend _ ih => exact .atEnd hend (ih h')
  | answered _ ih => exact .answered (ih h')
  | ended _ ih => exact .ended (ih h')

/-! ### Fuel -/

/-- How a block goes on when the line at `index` has answered. -/
def goOn (table : Table Handler) (fuel : Nat) (b : Block) (index line : Nat) :
    Except Stop Control × State → Except Stop Outcome × State
  | (.error e, s) => (.error (e.mapError (·.atLine line)), s)
  | (.ok control, s) =>
    match b.next index control with
    | .inl index => runBlock table fuel b index s
    | .inr outcome => (.ok outcome, s)

theorem runBlock_of_line {table : Table Handler} {fuel : Nat} {b : Block} {index : Nat}
    {i : Instruction} (hi : b.code[index]? = some i) (s : State) :
    runBlock table (fuel + 1) b index s =
      goOn table fuel b index i.line (dispatch table (nestedRunner table fuel) b index i s) := by
  rw [runBlock_succ, hi]
  rfl

/-- A block that runs out of fuel makes the line run out of fuel that it is in. -/
theorem Pending.resume_outOfFuel (p : Pending) (s : State) :
    p.resume (.error .outOfFuel) s = (.error .outOfFuel, p.close s) := by
  cases p <;> rfl

/-- A line runs out of fuel only through its block. -/
theorem Pending.resume_ne_outOfFuel (p : Pending) {r : Except Stop Outcome}
    (hr : r ≠ .error .outOfFuel) (s : State) : (p.resume r s).1 ≠ .error .outOfFuel := by
  cases r with
  | error e =>
    cases e with
    | failed e => cases p <;> simp [resume, Except.map, Stop.mapError]
    | outOfFuel => exact absurd rfl hr
  | ok outcome =>
    cases p with
    | branch => simp [resume, Except.map]
    | call f depth scope target after =>
      cases target with
      | none => simp [resume, bindResult]
      | some target =>
        simp only [resume, bindResult_some]
        split <;> simp [Exec.fail, Exec.bind_apply, Exec.declare, Exec.modify]

section

variable {b : Block} {index : Nat} {i : Instruction} {s : State}

/-- How a line is executed, given how it begins. -/
theorem dispatch_of_begun (table : Table Handler) (runner : Runner) :
    dispatch table runner b index i s =
      match beginLine table b index i s with
      | (.error e, t) => (.error e, t)
      | (.ok (.finished control), t) => (.ok control, t)
      | (.ok (.opens inner pending), t) =>
        match runner inner t with
        | (r, u) => pending.resume r u := by
  rw [dispatch_eq, Exec.bind_apply]
  cases beginLine table b index i s with
  | mk r t =>
    cases r with
    | error e => rfl
    | ok entry => cases entry <;> rfl

/-- A line with more fuel for its block does the same, unless it ran out. -/
theorem dispatch_mono {table : Table Handler} {m n : Nat}
    (hrun : ∀ inner t, (runBlock table m inner 0 t).1 ≠ .error .outOfFuel →
      runBlock table n inner 0 t = runBlock table m inner 0 t)
    (h : (dispatch table (nestedRunner table m) b index i s).1 ≠ .error .outOfFuel) :
    dispatch table (nestedRunner table n) b index i s =
      dispatch table (nestedRunner table m) b index i s := by
  simp only [dispatch_of_begun] at h ⊢
  cases hb : beginLine table b index i s with
  | mk r t =>
    rw [hb] at h
    cases r with
    | error e => rfl
    | ok entry =>
      cases entry with
      | finished control => rfl
      | opens inner pending =>
        -- a block without enough fuel would show in the line
        have hinner : (runBlock table m inner 0 t).1 ≠ .error .outOfFuel := by
          intro hout
          refine h ?_
          show (pending.resume (runBlock table m inner 0 t).1 _).1 = _
          rw [hout, Pending.resume_outOfFuel]
        show pending.resume (runBlock table n inner 0 t).1 (runBlock table n inner 0 t).2 =
          pending.resume (runBlock table m inner 0 t).1 (runBlock table m inner 0 t).2
        rw [hrun inner t hinner]

end

/-- A block goes on in the same way with more fuel, unless it ran out. -/
theorem goOn_mono {table : Table Handler} {m n : Nat} {b : Block} {index line : Nat}
    (hrun : ∀ next t, (runBlock table m b next t).1 ≠ .error .outOfFuel →
      runBlock table n b next t = runBlock table m b next t)
    {result : Except Stop Control × State}
    (h : (goOn table m b index line result).1 ≠ .error .outOfFuel) :
    goOn table n b index line result = goOn table m b index line result := by
  obtain ⟨r, t⟩ := result
  cases r with
  | error e => rfl
  | ok control =>
    simp only [goOn] at h ⊢
    cases hn : b.next index control with
    | inl next => rw [hn] at h; exact hrun next t h
    | inr outcome => rfl

/-- More fuel changes no result. -/
theorem runBlock_mono {table : Table Handler} {m n : Nat} (hmn : m ≤ n) {b : Block} {index : Nat}
    {s : State} (h : (runBlock table m b index s).1 ≠ .error .outOfFuel) :
    runBlock table n b index s = runBlock table m b index s := by
  -- both runs take the same lines, and each line leaves both one less fuel
  induction m generalizing n b index s with
  | zero => exact absurd rfl h
  | succ m ih =>
    cases n with
    | zero => exact absurd hmn (Nat.not_succ_le_zero m)
    | succ n =>
      have hmn' : m ≤ n := Nat.le_of_succ_le_succ hmn
      cases hi : b.code[index]? with
      | none => rw [runBlock_succ, runBlock_succ, hi]
      | some i =>
        rw [runBlock_of_line hi] at h ⊢
        rw [runBlock_of_line hi]
        have hline : (dispatch table (nestedRunner table m) b index i s).1 ≠
            .error .outOfFuel := by
          intro hout
          refine h ?_
          rw [← Prod.eta (dispatch table _ b index i s), hout]
          rfl
        rw [dispatch_mono (fun inner t => ih hmn') hline]
        exact goOn_mono (fun next t => ih hmn') h

/-! ### The machine and the run of a block -/

section

variable {b : Block} {index line : Nat} {outer : List Suspended} {s : State}

/-- After a line has answered, the machine comes to the end of the block as the
run does. -/
theorem reaches_of_goOn {fuel : Nat} {result : Except Stop Control × State}
    (hrun : ∀ next t, (runBlock standardTable fuel b next t).1 ≠ .error .outOfFuel →
      Reaches (.running b next outer t) (.ended outer (runBlock standardTable fuel b next t).1
        (runBlock standardTable fuel b next t).2))
    (h : (goOn standardTable fuel b index line result).1 ≠ .error .outOfFuel) :
    Reaches (.answered b index line outer result.1 result.2)
      (.ended outer (goOn standardTable fuel b index line result).1
        (goOn standardTable fuel b index line result).2) := by
  obtain ⟨r, t⟩ := result
  cases r with
  | error e => exact ⟨1, rfl⟩
  | ok control =>
    refine .of_step ?_
    simp only [Config.step]
    simp only [goOn] at h ⊢
    cases hn : b.next index control with
    | inl next =>
      rw [hn] at h
      exact hrun next t h
    | inr outcome => exact .refl _

/-- The machine comes to the end of a block as the run does. -/
theorem reaches_of_runBlock {fuel : Nat}
    (h : (runBlock standardTable fuel b index s).1 ≠ .error .outOfFuel) :
    Reaches (.running b index outer s) (.ended outer (runBlock standardTable fuel b index s).1
      (runBlock standardTable fuel b index s).2) := by
  induction fuel generalizing b index outer s with
  | zero => exact absurd rfl h
  | succ fuel ih =>
    refine .of_step ?_
    cases hi : b.code[index]? with
    | none =>
      rw [runBlock_succ, hi]
      simp only [Config.step, hi]
      exact .refl _
    | some i =>
      rw [runBlock_of_line hi] at h ⊢
      simp only [Config.step, hi]
      have hgo := @reaches_of_goOn b index i.line outer fuel _ (fun next t ht => ih ht) h
      rw [dispatch_of_begun] at h hgo ⊢
      cases hb : beginLine standardTable b index i s with
      | mk r t =>
        rw [hb] at h hgo
        cases r with
        | error e => exact hgo
        | ok entry =>
          cases entry with
          | finished control => exact hgo
          | opens inner pending =>
            -- the machine comes to the end of the block, and then goes on with the line
            have hinner : (runBlock standardTable fuel inner 0 t).1 ≠ .error .outOfFuel := by
              intro hout
              refine h ?_
              simp only [nestedRunner, hout, Pending.resume_outOfFuel]
              rfl
            refine (ih hinner).trans (.of_step ?_)
            exact hgo

/-- When the machine comes to the end of everything from a line that has
answered, the run of the block goes on to an end from there. -/
theorem goOn_of_halts {n : Nat} {result : Except Stop Control × State} {r : Except Stop Outcome}
    {u : State} (hresult : result.1 ≠ .error .outOfFuel)
    (hrun : ∀ m < n, ∀ next t, (Config.running b next outer t).after m = .ended [] r u →
      ∃ fuel, ∃ k ≤ m, (runBlock standardTable fuel b next t).1 ≠ .error .outOfFuel ∧
        (Config.ended outer (runBlock standardTable fuel b next t).1
          (runBlock standardTable fuel b next t).2).after k = .ended [] r u)
    (h : (Config.answered b index line outer result.1 result.2).after n = .ended [] r u) :
    ∃ fuel, ∃ k ≤ n, (goOn standardTable fuel b index line result).1 ≠ .error .outOfFuel ∧
      (Config.ended outer (goOn standardTable fuel b index line result).1
        (goOn standardTable fuel b index line result).2).after k = .ended [] r u := by
  obtain ⟨x, t⟩ := result
  cases n with
  | zero => cases h
  | succ n =>
    cases x with
    | error e =>
      refine ⟨0, n, Nat.le_succ n, ?_, h⟩
      cases e with
      | failed e => simp [goOn, Stop.mapError]
      | outOfFuel => exact absurd rfl hresult
    | ok control =>
      rw [Config.after] at h
      simp only [Config.step] at h
      simp only [goOn]
      cases hn : b.next index control with
      | inl next =>
        rw [hn] at h
        obtain ⟨fuel, k, hk, hout, hk'⟩ := hrun n (Nat.lt_succ_self n) next t h
        exact ⟨fuel, k, Nat.le_succ_of_le hk, hout, hk'⟩
      | inr outcome =>
        rw [hn] at h
        exact ⟨0, n, Nat.le_succ n, by simp, h⟩

/-- When the machine comes to the end of everything from a line of a block, then
the run of the block ends, and the machine comes on to the end from there. -/
theorem runBlock_of_halts {n : Nat} {r : Except Stop Outcome} {u : State}
    (h : (Config.running b index outer s).after n = .ended [] r u) :
    ∃ fuel, ∃ k ≤ n, (runBlock standardTable fuel b index s).1 ≠ .error .outOfFuel ∧
      (Config.ended outer (runBlock standardTable fuel b index s).1
        (runBlock standardTable fuel b index s).2).after k = .ended [] r u := by
  -- by the number of steps: a block within the run ends after fewer of them
  induction n using Nat.strongRecOn generalizing b index outer s with
  | _ n ih =>
    cases n with
    | zero => cases h
    | succ n =>
      cases hi : b.code[index]? with
      | none =>
        rw [Config.after] at h
        simp only [Config.step, hi] at h
        exact ⟨1, n, Nat.le_succ n, by rw [runBlock_succ, hi]; simp, by rwa [runBlock_succ, hi]⟩
      | some i =>
        rw [Config.after] at h
        simp only [Config.step, hi] at h
        -- the rest of the block from a line that has answered
        have hrest := fun m (hm : m ≤ n) result hresult => @goOn_of_halts b index i.line outer m
          result r u hresult fun k hk next t => ih k (Nat.lt_succ_of_lt (Nat.lt_of_lt_of_le hk hm))
        have hdispatch := fun fuel =>
          @dispatch_of_begun b index i s standardTable (nestedRunner standardTable fuel)
        have hbegun := beginLine_does b index i s
        generalize beginLine standardTable b index i s = begun at h hdispatch hbegun
        cases hbegun with
        | @failed cause t _ =>
          obtain ⟨fuel, k, hk, hout, hk'⟩ :=
            hrest n (Nat.le_refl n) (.error (.failed (.ofCause cause)), t) (by simp) h
          refine ⟨fuel + 1, k, Nat.le_succ_of_le hk, ?_⟩
          rw [runBlock_of_line hi, hdispatch]
          exact ⟨hout, hk'⟩
        | @finished control t _ =>
          obtain ⟨fuel, k, hk, hout, hk'⟩ :=
            hrest n (Nat.le_refl n) (.ok control, t) (by simp) h
          refine ⟨fuel + 1, k, Nat.le_succ_of_le hk, ?_⟩
          rw [runBlock_of_line hi, hdispatch]
          exact ⟨hout, hk'⟩
        | @opens inner pending _ t _ _ =>
          -- the block of the line, then the rest, with fuel for both
          obtain ⟨fuel₁, m, hm, hinner, hm'⟩ := ih n (Nat.lt_succ_self n) h
          cases m with
          | zero => cases hm'
          | succ m =>
            obtain ⟨fuel₂, k, hk, hout, hk'⟩ := hrest m (Nat.le_of_succ_le hm)
              (pending.resume (runBlock standardTable fuel₁ inner 0 t).1
                (runBlock standardTable fuel₁ inner 0 t).2)
              (pending.resume_ne_outOfFuel hinner _) hm'
            refine ⟨max fuel₁ fuel₂ + 1, k,
              Nat.le_succ_of_le (Nat.le_trans hk (Nat.le_of_succ_le hm)), ?_⟩
            rw [runBlock_of_line hi, hdispatch]
            simp only [nestedRunner]
            rw [runBlock_mono (Nat.le_max_left fuel₁ fuel₂) hinner, goOn_mono
              (fun next t => runBlock_mono (Nat.le_max_right fuel₁ fuel₂)) hout]
            exact ⟨hout, hk'⟩

/-- When everything has ended, nothing changes any more. -/
theorem Config.after_ended (n : Nat) (r : Except Stop Outcome) (s : State) :
    (Config.ended [] r s).after n = .ended [] r s := by
  induction n with
  | zero => rfl
  | succ n ih => exact ih

/-- A run that comes to its end comes there from every moment. -/
theorem Reaches.to_ended {c d : Config} {r : Except Stop Outcome} {u : State} (h : Reaches c d)
    (hend : Reaches c (.ended [] r u)) : Reaches d (.ended [] r u) := by
  obtain ⟨m, rfl⟩ := h
  obtain ⟨n, hn⟩ := hend
  rcases Nat.le_total m n with hle | hle
  · obtain ⟨k, rfl⟩ := Nat.exists_eq_add_of_le hle
    exact ⟨k, (Config.after_add m k c).symm.trans hn⟩
  · -- the moment is after the end
    obtain ⟨k, rfl⟩ := Nat.exists_eq_add_of_le hle
    rw [Config.after_add, hn, Config.after_ended]
    exact .refl _

/-- The machine comes to an end exactly as the run of the block does. -/
theorem reaches_ended_iff {r : Except Stop Outcome} {u : State} :
    Reaches (.running b index [] s) (.ended [] r u) ↔
      ∃ fuel, runBlock standardTable fuel b index s = (r, u) ∧ r ≠ .error .outOfFuel := by
  constructor
  · rintro ⟨n, hn⟩
    obtain ⟨fuel, k, -, hout, hk⟩ := runBlock_of_halts hn
    rw [Config.after_ended] at hk
    injection hk with _ hr hu
    exact ⟨fuel, Prod.ext hr hu, hr ▸ hout⟩
  · rintro ⟨fuel, h, hr⟩
    have hreach := @reaches_of_runBlock b index [] s fuel (by rw [h]; exact hr)
    rwa [h] at hreach

end

/-! ### Programs -/

/-- The moment at which the run of a program begins. -/
def Interpreter.start (m : Interpreter) (p : Program) : Config :=
  .running (.root p.instructions Environment.root) 0 [] m.state

/-- A run changes nothing of an interpreter but its state. -/
theorem Interpreter.eq_of_run {m m' : Interpreter} {fuel : Nat} {p : Program}
    {r : Except Stop Unit} (h : m.run fuel p = (r, m')) : m' = { m with state := m'.state } := by
  rw [m.run_eq] at h
  obtain rfl := (Prod.mk.inj h).2
  rfl

/-- More fuel changes no result of a program. -/
theorem Interpreter.run_mono {m : Interpreter} {fuel fuel' : Nat} {p : Program}
    (hle : fuel ≤ fuel') (h : (m.run fuel p).1 ≠ .error .outOfFuel) :
    m.run fuel' p = m.run fuel p := by
  rw [m.run_eq, m.run_eq, runBlock_mono hle]
  intro hout
  refine h ?_
  rw [m.run_eq]
  show (runBlock m.table fuel _ 0 m.state).1.map _ = _
  rw [hout]
  rfl

/-- Two runs of a program that end do so in the same way. -/
theorem Interpreter.run_unique {m : Interpreter} {fuel fuel' : Nat} {p : Program}
    (h : (m.run fuel p).1 ≠ .error .outOfFuel) (h' : (m.run fuel' p).1 ≠ .error .outOfFuel) :
    m.run fuel p = m.run fuel' p := by
  rcases Nat.le_total fuel fuel' with hle | hle
  · exact (Interpreter.run_mono hle h).symm
  · exact Interpreter.run_mono hle h'

/-- The machine comes to an end exactly as the run of the program does. -/
theorem Interpreter.run_iff_reaches {m : Interpreter} (htable : m.table = standardTable)
    {p : Program} {r : Except Stop Unit} {u : State} :
    (∃ fuel, m.run fuel p = (r, { m with state := u }) ∧ r ≠ .error .outOfFuel) ↔
      ∃ result, Reaches (m.start p) (.ended [] result u) ∧ r = result.map fun _ => () := by
  constructor
  · rintro ⟨fuel, h, hr⟩
    rw [m.run_eq, htable] at h
    generalize hrun : runBlock standardTable fuel _ 0 m.state = run at h
    obtain ⟨result, t⟩ := run
    obtain ⟨rfl, hm⟩ := Prod.mk.inj h
    obtain rfl : t = u := congrArg Interpreter.state hm
    refine ⟨result, reaches_ended_iff.2 ⟨fuel, hrun, ?_⟩, rfl⟩
    rintro rfl
    exact hr rfl
  · rintro ⟨result, hreach, rfl⟩
    obtain ⟨fuel, hrun, hne⟩ := reaches_ended_iff.1 hreach
    refine ⟨fuel, Interpreter.run_of_block (htable ▸ hrun), ?_⟩
    cases result with
    | ok outcome => exact nofun
    | error e =>
      intro h
      exact hne (congrArg _ (Except.error.inj h))

end LineScript
