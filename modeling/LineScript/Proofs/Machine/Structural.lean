import LineScript.Proofs.Machine.Tasks

/-!
# Structured programs run structurally

The instructions of a structured program do exactly what the rules say that
follow its tree.

- `Structured.Runs.flat`: what the rules say, the instructions do.
- `Structured.followsRules`: what the instructions do, the rules say. Every
  function that is bound has the body of a structured program, so that the rules
  apply to it.
- `run_flatten_iff`: running a program is running its tree.
-/

namespace LineScript

namespace Structured

/-! ### From the rules to the instructions -/

/-- Going on as a task that gives a result among instructions gives it. -/
theorem Continues.eventually {b : Block} {index : Nat} {s t u : State} {task : Task}
    {r : Except Stop Outcome} (h : Continues b index s task t)
    (htask : ∀ {inv : Invocation} {after : Control}, inv.scope = b.scope →
      task.At inv.block inv.index after →
      Eventually (fun fuel => task.flat fuel inv after t) (r, u)) :
    Eventually (fun fuel => runBlock standardTable fuel b index s) (r, u) := by
  obtain ⟨operand, line, after, hat, hstep⟩ := h
  have hflat : Eventually (fun fuel => task.flat fuel ⟨b, index, operand, line⟩ after t) (r, u) :=
    htask rfl hat
  exact hflat.succ hstep

/-- What the rules say a task does, it does among instructions. -/
theorem Runs.flat {task : Task} {scope : ScopeId} {s u : State} {r : Except Stop Outcome}
    (h : Runs task scope s r u) {inv : Invocation} {after : Control} (hscope : inv.scope = scope)
    (hat : task.At inv.block inv.index after) :
    Eventually (fun fuel => task.flat fuel inv after s) (r, u) := by
  -- a rule for a line is the line and its task; a rule for a task is a step of the task
  induction h generalizing inv after with
  | @nil scope s =>
    have hnil : Eventually (fun _ => ((.ok .completed, s) : Except Stop Outcome × State))
        (.ok .completed, s) := .of_eq fun _ => rfl
    exact hnil.succ fun fuel => runBlock_of_drop_nil hat fuel s
  | plain hline _ ih =>
    subst hscope
    exact (continues_plain hat hline).eventually ih
  | define hline _ ih =>
    subst hscope
    exact (continues_define hat hline).eventually ih
  | branch hline _ ih =>
    subst hscope
    exact (continues_conditional hat (.of_branch hat rfl) hline).eventually ih
  | choice hline _ ih =>
    subst hscope
    exact (continues_conditional hat (.of_choice hat) hline).eventually ih
  | call hline _ ih =>
    subst hscope
    exact (continues_call hat hline).eventually ih
  | inline hline _ ih =>
    subst hscope
    exact (continues_inline hat hline).eventually ih
  | branches_failed _ ih => exact ih hscope (Task.at_after _ hat)
  | branches_none hpick _ ih =>
    obtain ⟨enough, h⟩ := ih hscope (Task.at_after _ hat)
    exact ⟨enough, fun fuel hfuel => (flat_no_branch hat hpick fuel).trans (h fuel hfuel)⟩
  | branches_some hpick _ _ ihbranch ih =>
    subst hscope
    obtain ⟨inner, hscope, hcode, hstep⟩ := flat_branch hat hpick
    have hinner := @ihbranch ⟨inner, 0, "", 0⟩ .next hscope hcode
    exact hinner.after (ih rfl (Task.at_after _ hat)) fun fuel hrun => hstep fuel _ _ hrun
  | invoke_failed _ ih => exact ih hscope hat
  | invoke_refused hpush _ ih =>
    obtain ⟨enough, h⟩ := ih hscope hat
    exact ⟨enough, fun fuel hfuel => (flat_refused hpush fuel).trans (h fuel hfuel)⟩
  | @invoke_called x q rest calls line scope s t u v r r' answer hbody hpush _ hreturn _ ihcall ih =>
    subst hscope
    have hinner := @ihcall ⟨.root x.function.body s.env.depth, 0, "", 0⟩ .next rfl hbody
    exact hinner.after (ih rfl hat) fun fuel hrun => flat_called hpush hrun hreturn
  | next _ ih =>
    obtain ⟨next, hnext, hrest⟩ := hat
    obtain ⟨enough, h⟩ := @ih { inv with index := next } .next hscope hrest
    refine ⟨enough, fun fuel hfuel => ?_⟩
    rw [← h fuel hfuel]
    simp only [Task.flat, goOn, Except.map, Control.goingOn, hnext]
  | leave => exact .of_eq fun fuel => rfl
  | failed => exact .of_eq fun fuel => rfl

/-! ### From the instructions to the rules -/

/-- A function value has the body of a structured program. -/
def IsStructured (v : Value) : Prop :=
  ∀ f, v = .function f → ∃ q : Structured, f.body = q.flatten

theorem isStructured_of_type {v : Value} (h : v.type ≠ .function) : IsStructured v := by
  rintro f rfl
  exact absurd rfl h

/-- A state in which every bound function has the body of a structured program. -/
def Sound (s : State) : Prop :=
  s.env.AllValues IsStructured

/-- A result that gives no other function than one with the body of a structured
program, and no jump. -/
def SoundResult (r : Except Stop Outcome) : Prop :=
  ∀ outcome, r = .ok outcome → outcome.control.Plain IsStructured

/-- What runs of structured programs with so much fuel give, the rules give. -/
def FollowsRules (fuel : Nat) : Prop :=
  ∀ {b : Block} {index : Nat} {p : Structured} {s u : State} {r : Except Stop Outcome},
    b.code.drop index = p.flatten → Sound s → runBlock standardTable fuel b index s = (r, u) →
      r ≠ .error .outOfFuel → Runs (.body p) b.scope s r u ∧ Sound u ∧ SoundResult r

section

variable {fuel : Nat} (hfuel : FollowsRules fuel) {inv : Invocation} {after : Control}
  {s u : State} {r' : Except Stop Outcome} {line : Nat} {rest : Structured}

include hfuel

theorem follows_after {r : Except Stop Control}
    (hat : (Task.after r line rest).At inv.block inv.index after) (hs : Sound s)
    (hr : ∀ c, r = .ok c → c.Plain IsStructured)
    (h : (Task.after r line rest).flat fuel inv after s = (r', u))
    (hne : r' ≠ .error .outOfFuel) :
    Runs (.after r line rest) inv.scope s r' u ∧ Sound u ∧ SoundResult r' := by
  obtain ⟨next, hnext, hrest⟩ := hat
  cases r with
  | error e =>
    obtain ⟨rfl, rfl⟩ := Prod.mk.inj h
    cases e with
    | failed e => exact ⟨.failed, hs, nofun⟩
    | outOfFuel => exact absurd rfl hne
  | ok c =>
    cases c with
    | next =>
      simp only [Task.flat, Except.map, Control.goingOn, goOn, hnext] at h
      obtain ⟨hruns, hu, hr'⟩ := hfuel hrest hs h hne
      exact ⟨.next hruns, hu, hr'⟩
    | goto target => exact (hr _ rfl).elim
    | leave v =>
      obtain ⟨rfl, rfl⟩ := Prod.mk.inj h
      refine ⟨.leave, hs, fun outcome ho => ?_⟩
      obtain rfl := Except.ok.inj ho
      exact hr _ rfl

theorem follows_branches {r : Except Stop Bool} {body : Structured} {other : Option Structured}
    (hat : (Task.branches r body other line rest).At inv.block inv.index after) (hs : Sound s)
    (h : (Task.branches r body other line rest).flat fuel inv after s = (r', u))
    (hne : r' ≠ .error .outOfFuel) :
    Runs (.branches r body other line rest) inv.scope s r' u ∧ Sound u ∧ SoundResult r' := by
  cases r with
  | error e =>
    obtain ⟨hruns, hu⟩ := follows_after hfuel (Task.at_after (.error e) hat) hs nofun h hne
    exact ⟨.branches_failed hruns, hu⟩
  | ok c =>
    cases hpick : pick body other c with
    | none =>
      rw [flat_no_branch hat hpick] at h
      have hnext : ∀ c : Control, (.ok .next : Except Stop Control) = .ok c →
          c.Plain IsStructured := by
        rintro c hc
        obtain rfl := Except.ok.inj hc
        trivial
      obtain ⟨hruns, hu⟩ := follows_after hfuel (Task.at_after _ hat) hs hnext h hne
      exact ⟨.branches_none hpick hruns, hu⟩
    | some p =>
      obtain ⟨inner, hscope, hcode, hstep⟩ := flat_branch (s := s) hat hpick
      cases hrun : runBlock standardTable fuel inner 0
          { s with env := (s.env.child inv.scope).2 } with
      | mk r t =>
        rw [hstep fuel r t hrun] at h
        -- a branch that runs out of fuel would end the line so
        have hinner : r ≠ .error .outOfFuel := by
          rintro rfl
          obtain ⟨rfl, -⟩ := Prod.mk.inj h
          exact hne rfl
        have hchild : Sound { s with env := (s.env.child inv.scope).2 } := hs.child inv.scope
        obtain ⟨hbranch, ht, hr⟩ := hfuel hcode hchild hrun hinner
        have hrelease : Sound { t with env := t.env.release s.env.depth } := ht.release _
        have hcontrol : ∀ c, r.map Outcome.control = .ok c → c.Plain IsStructured := by
          rintro c hc
          obtain ⟨outcome, ho, rfl⟩ := map_eq_ok.1 hc
          exact hr outcome ho
        obtain ⟨hruns, hu⟩ :=
          follows_after hfuel (Task.at_after _ hat) hrelease hcontrol h hne
        rw [hscope] at hbranch
        exact ⟨.branches_some hpick hbranch hruns, hu⟩

theorem follows_invoke {r : Except Stop Ready}
    (hat : (Task.invoke r line rest).At inv.block inv.index after) (hs : Sound s)
    (hr : ∀ c, r = .ok c → c.Of IsStructured)
    (h : (Task.invoke r line rest).flat fuel inv after s = (r', u))
    (hne : r' ≠ .error .outOfFuel) :
    Runs (.invoke r line rest) inv.scope s r' u ∧ Sound u ∧ SoundResult r' := by
  cases r with
  | error e =>
    obtain ⟨hruns, hu⟩ := follows_after hfuel (r := .error e) hat hs nofun h hne
    exact ⟨.invoke_failed hruns, hu⟩
  | ok x =>
    cases hpush : s.calls.push ⟨x.function.label, some line⟩ with
    | error cause =>
      rw [flat_refused hpush] at h
      obtain ⟨hruns, hu⟩ := follows_after hfuel
        (r := .error (.failed (.ofCause cause))) hat hs nofun h hne
      exact ⟨.invoke_refused hpush hruns, hu⟩
    | ok calls =>
      -- the function was bound, so its body is structured as well
      obtain ⟨hfunction, hvalues⟩ := hr x rfl
      obtain ⟨q, hbody⟩ := hfunction x.function rfl
      have hcode : (Block.root x.function.body s.env.depth).code.drop 0 = q.flatten := hbody
      have hbound : Sound { s with
          calls
          env := (s.env.child inv.scope).2.bindAll s.env.depth
            (x.function.params.zip x.values) } :=
        (hs.child inv.scope).bindAll _ fun p hp => hvalues _ (List.of_mem_zip hp).2
      cases hrun : runBlock standardTable fuel (.root x.function.body s.env.depth) 0
          { s with
            calls
            env := (s.env.child inv.scope).2.bindAll s.env.depth
              (x.function.params.zip x.values) } with
      | mk r t =>
        cases hreturn : (Pending.call x.function s.env.depth inv.scope x.target .next).resume
            r t with
        | mk answer v =>
          rw [flat_called hpush hrun hreturn] at h
          have hinner : r ≠ .error .outOfFuel := by
            rintro rfl
            rw [Pending.resume_outOfFuel] at hreturn
            obtain ⟨rfl, -⟩ := Prod.mk.inj hreturn
            obtain ⟨rfl, -⟩ := Prod.mk.inj h
            exact hne rfl
          obtain ⟨hcall, ht, hresult⟩ := hfuel hcode hbound hrun hinner
          obtain ⟨hv, hanswer⟩ := Pending.keeps_resume (fun v => isStructured_of_type)
            x.function s.env.depth inv.scope x.target ht hresult hreturn
          obtain ⟨hruns, hu⟩ := follows_after hfuel hat hv hanswer h hne
          exact ⟨.invoke_called hbody hpush hcall hreturn hruns, hu⟩

end

/-- What a computation leaves behind, when the values in the state are sound. -/
theorem sound_of_keeps {α : Type} {Q : α → Prop} {x : Exec α} {s t : State} {r : Except Stop α}
    (hx : Exec.Keeps IsStructured Q x) (hs : Sound s) (h : x s = (r, t)) :
    Sound t ∧ ∀ a, r = .ok a → Q a := by
  have hkeeps := hx s hs
  rw [h] at hkeeps
  exact hkeeps

/-- What a structured program does among instructions, the rules say. -/
theorem followsRules (fuel : Nat) : FollowsRules fuel := by
  have hP : ∀ v : Value, v.type ≠ .function → IsStructured v := fun v => isStructured_of_type
  have hbody : ∀ (q : Structured) (f : Function), f.body = q.flatten →
      IsStructured (.function f) := by
    rintro q f hf g hg
    obtain rfl := Value.function.inj hg
    exact ⟨q, hf⟩
  -- the first line decides the rule; its task has the rest with less fuel
  induction fuel with
  | zero =>
    rintro b index p s u r - - h hne
    obtain ⟨rfl, -⟩ := Prod.mk.inj h
    exact absurd rfl hne
  | succ fuel ih =>
    rintro b index p s u r hat hs h hne
    cases p with
    | nil =>
      rw [runBlock_of_drop_nil hat] at h
      obtain ⟨rfl, rfl⟩ := Prod.mk.inj h
      refine ⟨.nil, hs, fun outcome ho => ?_⟩
      obtain rfl := Except.ok.inj ho
      trivial
    | plain l rest =>
      cases hline : l.run b.scope s with
      | mk x t =>
        obtain ⟨ht, hx⟩ := sound_of_keeps (l.keeps_run hP b.scope) hs hline
        obtain ⟨operand, line, after, hat, hstep⟩ := continues_plain hat hline
        rw [hstep] at h
        obtain ⟨hruns, hu⟩ := follows_after ih hat ht hx h hne
        exact ⟨.plain hline hruns, hu⟩
    | define head body last rest =>
      cases hline : runDefinition head.line body.flatten b.scope s with
      | mk x t =>
        obtain ⟨ht, hx⟩ := sound_of_keeps
          (keeps_runDefinition (hbody body) head.line b.scope) hs hline
        obtain ⟨operand, line, after, hat, hstep⟩ := continues_define hat hline
        rw [hstep] at h
        obtain ⟨hruns, hu⟩ := follows_after ih hat ht hx h hne
        exact ⟨.define hline hruns, hu⟩
    | branch head body last rest =>
      cases hline : condition head.line b.scope s with
      | mk x t =>
        obtain ⟨ht, -⟩ := sound_of_keeps (keeps_condition hP head.line b.scope) hs hline
        obtain ⟨operand, line, after, hat, hstep⟩ :=
          continues_conditional hat (.of_branch hat rfl) hline
        rw [hstep] at h
        obtain ⟨hruns, hu⟩ := follows_branches ih hat ht h hne
        exact ⟨.branch hline hruns, hu⟩
    | choice head body mid other last rest =>
      cases hline : condition head.line b.scope s with
      | mk x t =>
        obtain ⟨ht, -⟩ := sound_of_keeps (keeps_condition hP head.line b.scope) hs hline
        obtain ⟨operand, line, after, hat, hstep⟩ :=
          continues_conditional hat (.of_choice hat) hline
        rw [hstep] at h
        obtain ⟨hruns, hu⟩ := follows_branches ih hat ht h hne
        exact ⟨.choice hline hruns, hu⟩
    | call l rest =>
      cases hline : l.prepare b.scope s with
      | mk x t =>
        obtain ⟨ht, hx⟩ := sound_of_keeps (l.keeps_prepare hP b.scope) hs hline
        obtain ⟨operand, line, after, hat, hstep⟩ := continues_call hat hline
        rw [hstep] at h
        obtain ⟨hruns, hu⟩ := follows_invoke ih hat ht hx h hne
        exact ⟨.call hline hruns, hu⟩
    | inline head body last rest =>
      cases hline : head.prepare body.flatten b.scope s with
      | mk x t =>
        obtain ⟨ht, hx⟩ := sound_of_keeps
          (head.keeps_prepare hP (hbody body) b.scope) hs hline
        obtain ⟨operand, line, after, hat, hstep⟩ := continues_inline hat hline
        rw [hstep] at h
        obtain ⟨hruns, hu⟩ := follows_invoke ih hat ht hx h hne
        exact ⟨.inline hline hruns, hu⟩

/-- Before anything has run there are no functions. -/
theorem sound_initialState (limit : Nat) (sink : Sink) :
    Sound (Interpreter.initialState limit sink) :=
  Environment.allValues_initialState (fun _ => isStructured_of_type) limit sink

end Structured

/-- **Structured programs run structurally.** On an interpreter that has not run
anything, the instructions of a structured program come to an end exactly when
the rules give the program an end, and then with the same result, success or
error, and in the same state. -/
theorem run_flatten_iff (limit : Nat) (sink : Sink) (p : Structured) (r : Except Stop Unit)
    (t : State) :
    (∃ fuel, (Interpreter.new limit sink []).run fuel ⟨p.flatten⟩ = (r, ⟨standardTable, t⟩) ∧
        r ≠ .error .outOfFuel) ↔
      ∃ r', Structured.Runs (.body p) Environment.root (Interpreter.initialState limit sink) r' t ∧
        r = r'.map fun _ => () := by
  have hcode : (Block.root p.flatten Environment.root).code.drop 0 = p.flatten := rfl
  constructor
  · rintro ⟨fuel, h, hne⟩
    cases hblock : runBlock standardTable fuel (.root p.flatten Environment.root) 0
        (Interpreter.initialState limit sink) with
    | mk r' u =>
      rw [Interpreter.run_of_block (m := .new limit sink []) (p := ⟨p.flatten⟩) hblock] at h
      obtain ⟨rfl, hstate⟩ := Prod.mk.inj h
      obtain rfl : u = t := congrArg Interpreter.state hstate
      have hne' : r' ≠ .error .outOfFuel := by
        rintro rfl
        exact hne rfl
      obtain ⟨hruns, -⟩ := Structured.followsRules fuel hcode
        (Structured.sound_initialState limit sink) hblock hne'
      exact ⟨r', hruns, rfl⟩
  · rintro ⟨r', h, rfl⟩
    have hne := h.ne_outOfFuel
    obtain ⟨enough, hflat⟩ :=
      @Structured.Runs.flat _ _ _ _ _ h ⟨.root p.flatten Environment.root, 0, "", 0⟩ .next rfl hcode
    refine ⟨enough, Interpreter.run_of_block (m := .new limit sink []) (p := ⟨p.flatten⟩)
      (hflat enough (Nat.le_refl enough)), ?_⟩
    cases r' with
    | error e =>
      intro he
      exact hne (congrArg Except.error (Except.error.inj he))
    | ok outcome => nofun

end LineScript
