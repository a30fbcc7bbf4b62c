import LineScript.Proofs.Machine.Backtraces
import LineScript.Proofs.Machine.Variation

/-!
# A program and its variation in lockstep

The run of a varied program goes through the same moments as that of the program, each
changed in the same way, as long as this one does not stray.

- `Variation.shift`: how the block is moved for which some lines wait.
- `Variation.config`: what a variation makes of a moment.
- `Variation.StraysAt`: a moment from which the varied program may do something else.
- `Variation.config_step`: the step of a changed moment is the changed step.
- `Variation.config_after`: so it is after any number of steps.
- `within_of_reaches`: at every moment the calls are within the limit.
- `Variation.run_varied`: a run that ends well ends in the varied program as it does.
- `Variation.run_of_renumbered`: with other line numbers every run is one of the program.
-/

namespace LineScript

/-- The moment to which the first part of a line leads. -/
def Config.begun (b : Block) (index line : Nat) (outer : List Suspended) :
    Except Stop Entry × State → Config
  | (.error e, s) => answered b index line outer (.error e) s
  | (.ok (.finished control), s) => answered b index line outer (.ok control) s
  | (.ok (.opens inner pending), s) => running inner 0 (⟨b, index, line, pending⟩ :: outer) s

theorem Config.step_eq_begun {b : Block} {index : Nat} {i : Instruction}
    (hi : b.code[index]? = some i) (outer : List Suspended) (s : State) :
    (running b index outer s).step =
      begun b index i.line outer (beginLine standardTable b index i s) := by
  rw [step_running hi]
  rcases beginLine standardTable b index i s with ⟨e | _ | _, t⟩ <;> rfl

theorem Config.step_answered (b : Block) (index line : Nat) (outer : List Suspended)
    (control : Control) (s : State) :
    (answered b index line outer (.ok control) s).step =
      Sum.elim (fun next => running b next outer s) (fun o => ended outer (.ok o) s)
        (b.next index control) := by
  rw [step]
  cases b.next index control <;> rfl

namespace Variation

variable (v : Variation) (sh : Shift)

/-! ### Changed moments -/

/-- How the block is moved for which these lines wait. -/
def shift : List Suspended → Shift
  | [] => ⟨v.leading, 0⟩
  | w :: outer => (shift outer).inner w.pending

def suspended (w : Suspended) : Suspended :=
  ⟨v.block sh w.block, w.index + sh.before.length, v.line w.line, v.pending sh w.pending⟩

/-- The lines that wait in the varied program. -/
def outer : List Suspended → List Suspended
  | [] => []
  | w :: ws => v.suspended (v.shift ws) w :: outer ws

/-- The same moment of the varied program. -/
def config : Config → Config
  | .running b index ws s =>
    .running (v.block (v.shift ws) b) (index + (v.shift ws).before.length) (v.outer ws) (v.state s)
  | .answered b index line ws r s =>
    .answered (v.block (v.shift ws) b) (index + (v.shift ws).before.length) (v.line line)
      (v.outer ws) (v.result (v.control (v.shift ws)) r) (v.state s)
  | .ended ws r s => .ended (v.outer ws) (v.result (v.outcome (v.shift ws)) r) (v.state s)

/-- The run has failed where the varied one does not, or is in a call beyond the limit of
the varied program. -/
def StraysAt (c : Config) : Prop :=
  (∃ e, c.failed? = some e ∧ v.Bad e.cause) ∨ v.limit c.state.calls.limit < c.state.calls.depth

/-- If lines stand in front of those of a program, all of them are in the lower half of the
positions. -/
def HasRoom (code : List Instruction) : Prop :=
  v.leading = [] ∨ 2 * (code.length + v.leading.length : Int) ≤ lastPosition

/-- The varied program has as many active calls. -/
theorem depth_config (c : Config) : (v.config c).state.calls.depth = c.state.calls.depth := by
  cases c <;> exact depth_calls _

/-! ### The shifts of a moment -/

section

variable {v}

/-- Only the blocks of the program itself are moved, not the bodies of functions. -/
theorem total_shift (ws : List Suspended) :
    (v.shift ws).total = if callers ws = [] then v.leading.length else 0 := by
  induction ws with
  | nil => rfl
  | cons w ws ih =>
    rw [shift, callers]
    cases w.pending with
    | branch => rw [Shift.inner, Shift.total, List.length_nil, Nat.zero_add, ih]
    | call => rw [if_neg (List.cons_ne_nil _ _)]; rfl

theorem total_of_leading (hleading : v.leading = []) (ws : List Suspended) :
    (v.shift ws).total = 0 := by
  rw [total_shift, hleading]
  split <;> rfl

/-- The blocks of a program fit, unless it is too long with the lines in front. -/
theorem fits_of_nested {start b : Block} {base depth : Nat} {ws : List Suspended}
    (hstart : start.origin = 0) (hroom : v.HasRoom start.code)
    (h : Nested start base b ws depth) : (v.shift ws).Fits b where
  bound := by
    have hroot := h.rootOf_rootBlock
    have hpart := (h.slice hstart).1
    rcases hroom with hleading | hroom
    · exact .inl (total_of_leading hleading ws)
    · by_cases hcallers : callers ws = []
      · right
        rw [hcallers] at hroot
        obtain hroot : rootBlock b ws = start := hroot
        rw [hroot] at hpart
        rw [total_shift, if_pos hcallers]
        omega
      · left
        rw [total_shift, if_neg hcallers]
  front := by
    cases h with
    | root => exact .inr hstart
    | branch | call => exact .inl rfl

end

/-! ### The parts of a step -/

section

variable {v} {sh : Shift}

theorem getElem?_block (b : Block) (index : Nat) :
    (v.block sh b).code[index + sh.before.length]? =
      b.code[index]?.map (Instruction.renumber v.line) := by
  rw [block, List.getElem?_append_right (Nat.le_add_left _ _), Nat.add_sub_cancel,
    List.getElem?_map]

/-- The moved block holds a moved target exactly if the block holds the target. -/
theorem holds_block {b : Block} (hb : sh.Fits b) (t : Nat) :
    (v.block sh b).Holds (sh.target t) ↔ b.Holds t := by
  have hfront : sh.before.length = 0 ∨ b.origin = 0 := hb.front.imp_left (congrArg List.length)
  have hlength : (v.block sh b).code.length = sh.before.length + b.code.length := by
    simp [block]
  have horigin : (v.block sh b).origin = b.origin + sh.up := rfl
  rw [Block.Holds, Block.Holds, hlength, horigin, Shift.target, Shift.total]
  omega

/-- The moved block goes on where the block does, and is left where the block is. -/
theorem next_block {b : Block} (hb : sh.Fits b) (index : Nat) (c : Control) :
    (v.block sh b).next (index + sh.before.length) (v.control sh c) =
      (b.next index c).map (· + sh.before.length) (v.outcome sh) := by
  cases c with
  | next => exact congrArg Sum.inl (Nat.add_right_comm _ _ _)
  | leave w => rfl
  | goto t =>
    rw [control]
    by_cases ht : b.Holds t
    · rw [Block.next_of_holds ht, Block.next_of_holds ((holds_block hb t).2 ht)]
      refine congrArg Sum.inl ?_
      have hstart := ht.1
      simp only [block, Shift.target, Shift.total]
      omega
    · rw [Block.next_of_not_holds ht, Block.next_of_not_holds (mt (holds_block hb t).1 ht)]
      show (if b.nested then _ else _) = _
      split <;> rfl

/-- A line that waits goes on in the varied program as it does in the program. -/
theorem resume_varied (p : Pending) (r : Except Stop Outcome) (s : State) :
    v.Strays (p.resume r s) ∨
      (v.pending sh p).resume (v.result (v.outcome (sh.inner p)) r) (v.state s) =
        (v.result (v.control sh) (p.resume r s).1, v.state (p.resume r s).2) := by
  have hclose : (v.pending sh p).close (v.state s) = v.state (p.close s) := by
    cases p with
    | branch depth endTarget =>
      simp only [pending, Pending.close, state, Environment.release_renumber]
    | call f depth scope target after =>
      simp only [pending, Pending.close, state, Environment.release_renumber, calls,
        CallStack.pop, List.map_drop]
  cases p with
  | branch depth endTarget =>
    refine .inr (Prod.ext ?_ hclose)
    rcases r with e | (_ | t | w)
    · rfl
    · rfl
    · -- a branch is moved as far as its conditional
      show Except.ok (Control.goto (Shift.target _ t)) = Except.ok (Control.goto (sh.target t))
      rw [Shift.target, Shift.target, Shift.inner, Shift.total, List.length_nil, Nat.zero_add]
    · rfl
  | call f depth scope target after =>
    rcases r with (e | _) | o
    · refine .inr (Prod.ext ?_ hclose)
      exact congrArg (fun e => Except.error (Stop.failed e))
        (Error.withBacktrace_renumber v.line e s.calls.calls)
    · exact .inr (Prod.ext rfl hclose)
    · have hbound := @maps_bindResult v sh scope target o.callValue after
        ((Pending.call f depth scope target after).close s)
      rw [← hclose] at hbound
      have hvalue : (v.outcome (sh.inner (.call f depth scope target after)) o).callValue =
          o.callValue.renumber v.line := by
        cases o <;> rfl
      refine hbound.imp .inl fun hbound => ?_
      show bindResult scope target (Outcome.callValue _, _) _ = _
      rw [hvalue]
      exact hbound

/-! ### Steps -/

/-- A line that strays makes the moment stray. -/
theorem straysAt_begun {b : Block} {index line : Nat} {ws : List Suspended}
    {r : Except Stop Entry × State} (h : v.Strays r) :
    v.StraysAt (Config.begun b index line ws r) := by
  rcases h with ⟨c, hc, hr⟩ | hdepth
  · obtain ⟨r, t⟩ := r
    obtain rfl : r = _ := hr
    exact .inl ⟨.ofCause c, rfl, hc⟩
  · obtain ⟨e | _ | _, t⟩ := r <;> exact .inr hdepth

theorem straysAt_answered {b : Block} {index line : Nat} {ws : List Suspended}
    {r : Except Stop Control × State} (h : v.Strays r) :
    v.StraysAt (.answered b index line ws r.1 r.2) := by
  rcases h with ⟨c, hc, hr⟩ | hdepth
  · refine .inl ⟨.ofCause c, ?_, hc⟩
    rw [hr]
    rfl
  · exact .inr hdepth

theorem config_begun (b : Block) (index line : Nat) (ws : List Suspended)
    (r : Except Stop Entry × State) :
    v.config (Config.begun b index line ws r) =
      Config.begun (v.block (v.shift ws) b) (index + (v.shift ws).before.length) (v.line line)
        (v.outer ws) (v.result (v.entry (v.shift ws)) r.1, v.state r.2) := by
  obtain ⟨e | control | ⟨inner, p⟩, t⟩ := r
  · rfl
  · rfl
  · cases p <;> rfl

variable {start : Block} {base : Nat}

/-- **One step.** The step of the changed moment is the changed step of the moment, unless
that strays. -/
theorem config_step (hstart : start.origin = 0) (hroom : v.HasRoom start.code) {c : Config}
    (hnested : c.WellNested start base) (hlines : c.RunsIn fun code => ∀ i ∈ code, v.Admits i)
    (hstrays : ¬ v.StraysAt c.step) : (v.config c).step = v.config c.step := by
  cases c with
  | running b index ws s =>
    have hfits := fits_of_nested hstart hroom hnested
    cases hi : b.code[index]? with
    | none =>
      have hi' := @getElem?_block v (v.shift ws) b index
      rw [hi] at hi'
      simp only [config, Config.step, hi, hi']
      rfl
    | some i =>
      have hi' := @getElem?_block v (v.shift ws) b index
      rw [hi] at hi'
      rw [Config.step_eq_begun hi] at hstrays ⊢
      rw [config_begun, config, Config.step_eq_begun hi']
      -- the line does the same, as it does not stray
      have hline := begins_beginLine hfits (fun h => total_of_leading h ws)
        (List.getElem?_eq_some_iff.1 hi).1 (hlines.1 i (List.mem_of_getElem? hi)) s
      rw [hline.resolve_left fun h => hstrays (straysAt_begun h)]
      rfl
  | answered b index line ws r s =>
    rcases r with (e | _) | control
    · simp only [Config.step, config]
      exact congrArg (fun e => Config.ended (v.outer ws) (.error (.failed e)) (v.state s))
        (Error.atLine_renumber v.line e line)
    · rfl
    · have hnext := next_block (v := v) (fits_of_nested hstart hroom hnested) index control
      show (Config.answered _ _ _ _ (.ok (v.control (v.shift ws) control)) _).step =
        v.config (Config.answered b index line ws (.ok control) s).step
      rw [Config.step_answered, Config.step_answered, hnext]
      cases b.next index control with
      | inl next => rfl
      | inr outcome => rfl
  | ended ws r s =>
    cases ws with
    | nil => rfl
    | cons w ws =>
      -- what waits goes on in the same way
      have hresume := @resume_varied v (v.shift ws) w.pending r s
      have hresume := hresume.resolve_left fun h => hstrays (straysAt_answered h)
      show Config.answered _ _ _ _ ((v.pending (v.shift ws) w.pending).resume
          (v.result (v.outcome ((v.shift ws).inner w.pending)) r) (v.state s)).1
        ((v.pending (v.shift ws) w.pending).resume
          (v.result (v.outcome ((v.shift ws).inner w.pending)) r) (v.state s)).2 = _
      rw [hresume]
      rfl

/-- **Lockstep.** After any number of steps the changed moment is at the changed moment, as
long as none of them strays. -/
theorem config_after (hstart : start.origin = 0) (hbase : 0 < base)
    (hroom : v.HasRoom start.code) {c : Config} (hnested : c.WellNested start base)
    (hlines : c.RunsIn fun code => ∀ i ∈ code, v.Admits i) {n : Nat}
    (hstrays : ∀ k < n, ¬ v.StraysAt (c.after (k + 1))) :
    (v.config c).after n = v.config (c.after n) := by
  induction n generalizing c with
  | zero => rfl
  | succ n ih =>
    rw [Config.after, Config.after,
      config_step hstart hroom hnested hlines (hstrays 0 (Nat.succ_pos n))]
    exact ih (hnested.step hbase) (hlines.step (.forall_mem _))
      fun k hk => hstrays (k + 1) (Nat.succ_lt_succ hk)

end

/-! ### Programs -/

/-- The varied program. -/
def program (p : Program) : Program :=
  ⟨v.leading ++ p.instructions.map (Instruction.renumber v.line)⟩

/-- The lines in front do nothing. If there are any, the program has to do the same behind
them, and there has to be room for all. -/
structure Suits (p : Program) : Prop where
  ignored : ∀ i ∈ v.leading, i.keyword = "IGNORE"
  room : v.HasRoom p.instructions
  lines : ∀ i ∈ p.instructions, v.Admits i

/-- Without lines in front every program may be varied. -/
theorem suits_of_leading {v : Variation} (h : v.leading = []) (p : Program) : v.Suits p where
  ignored := by
    rw [h]
    exact nofun
  room := .inl h
  lines _ _ := .inl h

end Variation

/-! ### Lines that do nothing -/

/-- A line that does nothing. -/
theorem beginLine_ignore (b : Block) (index : Nat) {i : Instruction} (hi : i.keyword = "IGNORE")
    (s : State) :
    beginLine standardTable b index i s =
      (.ok (.finished .next), { s with clock := s.clock.tick }) := by
  have hfind : standardTable.find? i.keyword = some (.builtin .ignore) :=
    find?_standardTable.2 ⟨.ignore, Builtin.mem_words hi, rfl⟩
  rw [beginLine, hfind]
  rfl

/-- Lines that do nothing take time only. -/
theorem reaches_ignored {ignored rest : List Instruction} (h : ∀ i ∈ ignored, i.keyword = "IGNORE")
    (scope : ScopeId) (s : State) :
    Reaches (.running (.root (ignored ++ rest) scope) 0 [] s)
      (.running (.root (ignored ++ rest) scope) ignored.length []
        { s with clock := { s.clock with steps := s.clock.steps + ignored.length } }) := by
  -- the lines in front of the position are over
  suffices hup : ∀ k ≤ ignored.length,
      Reaches (.running (.root (ignored ++ rest) scope) 0 [] s)
        (.running (.root (ignored ++ rest) scope) k []
          { s with clock := { s.clock with steps := s.clock.steps + k } }) from
    hup _ (Nat.le_refl _)
  intro k hk
  induction k with
  | zero => exact .refl _
  | succ k ih =>
    have hi : (Block.root (ignored ++ rest) scope).code[k]? = some ignored[k] := by
      simp only [Block.root]
      rw [List.getElem?_append_left hk, List.getElem?_eq_getElem hk]
    refine (ih (Nat.le_of_succ_le hk)).trans (.of_step ?_)
    rw [Config.step_eq_begun hi, beginLine_ignore _ _ (h _ (List.getElem_mem hk))]
    exact .of_step (.refl _)

/-! ### The limit of calls -/

/-- The number of calls is limited, and no more are active. -/
structure CallStack.Within (limit : Nat) (cs : CallStack) : Prop where
  limit_eq : cs.limit = limit
  depth_le : cs.depth ≤ limit

/-- A line that waits leaves its call when its block has ended. -/
theorem Pending.within_close {limit : Nat} {s : State} (p : Pending)
    (h : s.calls.Within limit) : (p.close s).calls.Within limit := by
  cases p with
  | branch => exact h
  | call =>
    refine ⟨h.limit_eq, Nat.le_trans ?_ h.depth_le⟩
    show (s.calls.calls.drop 1).length ≤ s.calls.calls.length
    rw [List.length_drop]
    exact Nat.sub_le _ _

/-- A line that enters a call does so only if there is one left. -/
theorem Opens.within {inv : Invocation} {s t : State} {inner : Block} {p : Pending} {limit : Nat}
    (ho : Opens inv s inner p t) (h : s.calls.Within limit) : t.calls.Within limit := by
  cases ho with
  | branch => exact h
  | call hpush =>
    obtain ⟨hlt, rfl⟩ := CallStack.push_eq_ok_iff.1 hpush
    exact ⟨h.limit_eq, h.limit_eq ▸ hlt⟩

/-- At every moment the calls are within the limit, which stays the same. -/
theorem within_of_reaches {limit : Nat} {sink : Sink} {p : Program} {c : Config}
    (h : Reaches ((Interpreter.new limit sink []).start p) c) : c.state.calls.Within limit := by
  refine h.invariant (P := fun c => c.state.calls.Within limit) ?_ ⟨rfl, Nat.zero_le _⟩
  intro c hc
  have hstep := c.stepsTo
  generalize c.step = d at hstep ⊢
  cases hstep with
  | atEnd | error | goesOn | leaves | halted => exact hc
  | @failed _ _ _ _ s t _ _ hdoes | @finished _ _ _ _ s t _ _ hdoes =>
    show t.calls.Within limit
    rw [hdoes.calls_eq]
    exact hc
  | @opens _ _ _ _ _ _ s t _ _ hdoes ho =>
    refine ho.within ?_
    rw [hdoes.calls_eq]
    exact hc
  | @resumes w outer r s =>
    show (w.pending.resume r s).2.calls.Within limit
    rw [(w.pending.sameStacks_resume r s).calls]
    exact w.pending.within_close hc

/-! ### Runs -/

namespace Variation

variable {v : Variation} {limit : Nat} {sink : Sink} {p : Program}

/-- A moment of a run does not stray if it has no error that could be another one, and is
within the new limit. -/
theorem not_straysAt {c : Config} (h : Reaches ((Interpreter.new limit sink []).start p) c)
    (hgood : ∀ e, c.failed? = some e → ¬ v.Bad e.cause)
    (hdepth : c.state.calls.depth ≤ v.limit limit) : ¬ v.StraysAt c := by
  rintro (⟨e, he, hbad⟩ | hbeyond)
  · exact hgood e he hbad
  · rw [(within_of_reaches h).limit_eq] at hbeyond
    exact absurd hdepth (Nat.not_le_of_lt hbeyond)

/-- No moment of a run has such an error if the run does not end with one. -/
theorem not_bad_of_ends {c : Config} {r : Except Stop Outcome} {u : State}
    (h : Reaches c (.ended [] r u)) (hgood : ∀ e, r = .error (.failed e) → ¬ v.Bad e.cause) :
    ∀ e, c.failed? = some e → ¬ v.Bad e.cause := by
  intro e he hbad
  -- the run would end with the cause
  obtain ⟨e', hcause, he'⟩ := failed?_of_reaches he h
  rcases r with (e'' | _) | o
  · obtain rfl := Option.some.inj he'
    exact hgood _ rfl (hcause ▸ hbad)
  · cases he'
  · cases he'

/-- The moments of a run that does not stray are those of the varied program. -/
theorem config_start_after (hp : v.Suits p) {n : Nat}
    (h : ∀ k < n, ¬ v.StraysAt (((Interpreter.new limit sink []).start p).after (k + 1))) :
    (v.config ((Interpreter.new limit sink []).start p)).after n =
      v.config (((Interpreter.new limit sink []).start p).after n) := by
  have hnested : ((Interpreter.new limit sink []).start p).WellNested
      (.root p.instructions Environment.root) 1 := Nested.root
  exact config_after rfl Nat.one_pos hp.room hnested
    (Interpreter.runsIn_start limit sink hp.lines) h

/-- Before a run there is no function whose lines could have other numbers. -/
theorem state_initialState :
    v.state (Interpreter.initialState limit sink) =
      { Interpreter.initialState (v.limit limit) (sink.renumber v.line) with
        clock := { Clock.start with steps := Clock.start.steps + v.leading.length } } := by
  have henv : (Interpreter.initialState limit sink).env.renumber v.line =
      (Interpreter.initialState limit sink).env := by
    have hdeclare := Environment.declare_renumber v.line .new Environment.root stdBinding
      ⟨.std 0, true⟩
    rw [Environment.renumber_new] at hdeclare
    exact hdeclare.symm
  rw [state, henv]
  rfl

/-- Without lines in front the varied program begins where the program does. -/
theorem config_start (hleading : v.leading = []) :
    v.config ((Interpreter.new limit sink []).start p) =
      (Interpreter.new (v.limit limit) (sink.renumber v.line) []).start (v.program p) := by
  have hstate := @state_initialState v limit sink
  rw [hleading] at hstate
  have hprogram : (v.program p).instructions = v.leading ++ p.instructions.map
    (Instruction.renumber v.line) := rfl
  show Config.running _ (0 + v.leading.length) _ (v.state (Interpreter.initialState limit sink)) = _
  rw [hstate, Interpreter.start, hprogram, hleading]
  simp only [block, shift, hleading]
  rfl

/-- The run of the varied program comes to where that of the program begins. -/
theorem reaches_start (hp : v.Suits p) :
    Reaches ((Interpreter.new (v.limit limit) (sink.renumber v.line) []).start (v.program p))
      (v.config ((Interpreter.new limit sink []).start p)) := by
  have hstart : v.config ((Interpreter.new limit sink []).start p) =
      .running (.root (v.leading ++ p.instructions.map (Instruction.renumber v.line))
        Environment.root) v.leading.length []
        (v.state (Interpreter.initialState limit sink)) := by
    show Config.running _ (0 + v.leading.length) _ _ = _
    rw [Nat.zero_add]
    rfl
  rw [hstart, state_initialState]
  exact reaches_ignored hp.ignored Environment.root
    (Interpreter.initialState (v.limit limit) (sink.renumber v.line))

/-- What the result of a varied run says to the host. -/
theorem map_result {α β : Type} (ψ : α → β) (r : Except Stop α) :
    (v.result ψ r).map (fun _ => ()) = (r.map fun _ => ()).mapError v.stop := by
  cases r <;> rfl

/-- **The run of a varied program.** A run that ends well, and is always within the new
limit, ends in the varied program in the same way and in the same state. -/
theorem run_varied (hp : v.Suits p) {fuel : Nat} {r : Except Stop Unit} {m : Interpreter}
    (hrun : (Interpreter.new limit sink []).run fuel p = (r, m)) (hr : r ≠ .error .outOfFuel)
    (hgood : ∀ e, r = .error (.failed e) → ¬ v.Bad e.cause)
    (hdepth : ∀ c, Reaches ((Interpreter.new limit sink []).start p) c →
      c.state.calls.depth ≤ v.limit limit) :
    ∃ fuel', (Interpreter.new (v.limit limit) (sink.renumber v.line) []).run fuel' (v.program p) =
      (r.mapError v.stop, { m with state := v.state m.state }) := by
  have hm := Interpreter.eq_of_run hrun
  rw [hm] at hrun
  obtain ⟨result, hend, rfl⟩ := (Interpreter.run_iff_reaches rfl).1 ⟨fuel, hrun, hr⟩
  obtain ⟨n, hn⟩ := hend
  have hgood' : ∀ e, result = .error (.failed e) → ¬ v.Bad e.cause := by
    rintro e rfl
    exact hgood e rfl
  have hafter := @config_start_after v limit sink p hp n fun k hk =>
    not_straysAt ⟨k + 1, rfl⟩ (not_bad_of_ends (Reaches.to_ended ⟨k + 1, rfl⟩ ⟨n, hn⟩) hgood')
      (hdepth _ ⟨k + 1, rfl⟩)
  rw [hn] at hafter
  obtain ⟨fuel', hrun', -⟩ := (Interpreter.run_iff_reaches rfl).2
    ⟨_, (reaches_start hp).trans ⟨n, hafter⟩, (map_result _ result).symm⟩
  exact ⟨fuel', by rw [hrun', hm]; rfl⟩

/-! ### Other numbers for the lines -/

/-- The lines get other numbers, and nothing else is varied. -/
def renumbering (g : Nat → Nat) : Variation :=
  ⟨g, id, []⟩

section

variable {g : Nat → Nat}

/-- A program does nothing else because of the numbers of its lines. -/
theorem not_straysAt_renumbering {c : Config}
    (h : Reaches ((Interpreter.new limit sink []).start p) c) :
    ¬ (renumbering g).StraysAt c :=
  not_straysAt h (fun _ _ => not_bad (fun _ => rfl) (.inl rfl)) (within_of_reaches h).depth_le

/-- A run of the program with other line numbers that ends is one of the program itself. -/
theorem run_of_renumbered {fuel : Nat} {r : Except Stop Unit} {m : Interpreter}
    (hrun : (Interpreter.new limit (sink.renumber g) []).run fuel ((renumbering g).program p) =
      (r, m)) (hr : r ≠ .error .outOfFuel) :
    ∃ fuel' r' m', (Interpreter.new limit sink []).run fuel' p = (r', m') ∧
      r' ≠ .error .outOfFuel ∧ r = r'.mapError (renumbering g).stop ∧
      m.state = (renumbering g).state m'.state := by
  rw [Interpreter.eq_of_run hrun] at hrun
  obtain ⟨result, hend, hresult⟩ := (Interpreter.run_iff_reaches rfl).1 ⟨fuel, hrun, hr⟩
  have hsuits : (renumbering g).Suits p := suits_of_leading rfl p
  have hstart := @reaches_start (renumbering g) limit sink p hsuits
  obtain ⟨n, hn⟩ := hstart.to_ended hend
  rw [config_start_after hsuits fun k _ => not_straysAt_renumbering ⟨k + 1, rfl⟩] at hn
  -- only a moment at the end is changed into one
  generalize hlast : ((Interpreter.new limit sink []).start p).after n = last at hn
  cases last with
  | running | answered => cases hn
  | ended ws result' u =>
    cases ws with
    | cons w ws => cases hn
    | nil =>
      injection hn with _ hr' hu
      obtain ⟨fuel', hrun', hne⟩ := (Interpreter.run_iff_reaches rfl).2 ⟨result', ⟨n, hlast⟩, rfl⟩
      refine ⟨fuel', _, _, hrun', hne, ?_, hu.symm⟩
      rw [hresult, ← hr', map_result]

end

end Variation

end LineScript
