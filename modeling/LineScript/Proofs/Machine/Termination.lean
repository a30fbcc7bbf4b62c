import LineScript.Proofs.Machine.Bodies

/-!
# Programs without jumps always stop

Without jumps a block is only ever left forwards: a line goes on at the next line
or after the `END` of its block. A branch of a conditional has fewer lines than are
left of its block, and a call leaves room for fewer calls. So every block comes to
an end, whatever functions call each other.

- `NoJumps`: lines without a jump.
- `State.room`: how many more calls may be nested.
- `Opens.smaller`: entering a block leaves room for fewer calls, or has fewer lines.
- `finishes`: every block comes to an end.
- `run_terminates_of_noJumps`: so does every program.
-/

namespace LineScript

/-- None of the lines is a jump. -/
def NoJumps (code : List Instruction) : Prop :=
  ∀ i ∈ code, i.keyword ≠ "JUMP"

/-- The number of calls that may still be nested. -/
def State.room (s : State) : Nat :=
  s.calls.limit - s.calls.depth

/-- A position of the root list that lies behind a line of the block, and that
belongs to the block. -/
def Block.Ahead (b : Block) (index target : Nat) : Prop :=
  b.origin + index < target ∧ target ≤ b.origin + b.code.length

section

variable {b inner : Block} {index : Nat} {i : Instruction} {s t : State} {p : Pending}

/-- The line after the `END` of a block is ahead. -/
theorem Block.ahead_of_layout {layout : Layout} (h : layout? b.code (index + 1) = some layout) :
    b.Ahead index (b.origin + layout.endAt + 1) := by
  obtain ⟨hle, hlt, -⟩ := layout?_bounds h
  exact ⟨by omega, by omega⟩

/-- A line that only goes ahead stays in its block, at a later line, or ends the
block without a jump out of it. -/
theorem Block.next_of_ahead {P : Value → Prop} {c : Control} (hc : c.Within P (b.Ahead index)) :
    (∃ next, b.next index c = .inl next ∧ index < next) ∨
      ∃ o, b.next index c = .inr o ∧ o.Within P fun _ => False := by
  cases c with
  | next => exact .inl ⟨index + 1, rfl, Nat.lt_succ_self index⟩
  | goto target =>
    obtain ⟨hlt, hle⟩ : b.Ahead index target := hc
    refine .inl ⟨target - b.origin, ?_, by omega⟩
    rw [Block.next, if_pos ⟨by omega, hle⟩]
  | leave v => exact .inr ⟨.returned v, rfl, hc⟩

/-- A line that enters a block leaves room for fewer calls, or the block has fewer
lines than follow the line. -/
theorem Opens.smaller (ho : Opens ⟨b, index, i.operand, i.line⟩ s inner p t) :
    t.room < s.room ∨ t.room = s.room ∧ inner.code.length < b.code.length - index := by
  cases ho with
  | @branch layout condition first stop hlayout hchosen =>
    obtain ⟨hfirst, hle, hstop, hend⟩ := chosenBranch_bounds hlayout hchosen
    refine .inr ⟨rfl, ?_⟩
    simp only [Block.branch, List.length_drop, List.length_take]
    dsimp only at hfirst hend
    omega
  | call hpush =>
    obtain ⟨hroom, rfl⟩ := CallStack.push_eq_ok_iff.1 hpush
    rw [CallStack.depth] at hroom
    refine .inl ?_
    simp only [State.room, CallStack.depth, List.length_cons]
    omega

/-! ### Every block comes to an end -/

/-- The run comes from a position of a block to the end of the block, without a
jump out of it. The calls that were active are active again, and all functions
are without jumps. -/
def Finishes (b : Block) (index : Nat) (s : State) : Prop :=
  ∃ r t, (∀ outer, Reaches (.running b index outer s) (.ended outer r t)) ∧ t.calls = s.calls ∧
    t.env.AllValues (Value.BodyIn NoJumps) ∧
    ∀ o, r = .ok o → o.Within (Value.BodyIn NoJumps) fun _ => False

/-- A line comes to an end and goes ahead, if every smaller block comes to an
end. -/
theorem line_answers (hcode : NoJumps b.code) (hi : b.code[index]? = some i)
    (hs : s.env.AllValues (Value.BodyIn NoJumps))
    (hsmaller : ∀ inner t, NoJumps inner.code → t.env.AllValues (Value.BodyIn NoJumps) →
      t.room < s.room ∨ t.room = s.room ∧ inner.code.length < b.code.length - index →
        Finishes inner 0 t) :
    ∃ r t, (∀ outer, Reaches (.running b index outer s) (.answered b index i.line outer r t)) ∧
      t.calls = s.calls ∧ t.env.AllValues (Value.BodyIn NoJumps) ∧
      ∀ c, r = .ok c → c.Within (Value.BodyIn NoJumps) (b.Ahead index) := by
  have hkeeps : Exec.Keeps (Value.BodyIn NoJumps) (Entry.Within NoJumps (b.Ahead index) i)
      (beginLine standardTable b index i) :=
    keeps_beginLine (.forall_mem _) hcode (fun _ => Block.ahead_of_layout)
      fun hjump => absurd hjump (hcode i (List.mem_of_getElem? hi))
  obtain ⟨hvalues, hentry⟩ := hkeeps s hs
  have hbegun := beginLine_does b index i s
  have hstep := fun outer => Config.step_running hi outer s
  generalize beginLine standardTable b index i s = begun at hbegun hvalues hentry hstep
  cases hbegun with
  | @failed cause t h =>
    refine ⟨.error (.failed (.ofCause cause)), t, fun outer => .of_step ?_, h.calls_eq, hvalues, ?_⟩
    · rw [hstep outer]
      exact .refl _
    · rintro c ⟨⟩
  | @finished control t h =>
    refine ⟨.ok control, t, fun outer => .of_step ?_, h.calls_eq, hvalues, ?_⟩
    · rw [hstep outer]
      exact .refl _
    · exact fun c hc => Except.ok.inj hc ▸ hentry _ rfl
  | @opens inner pending t u h ho =>
    obtain ⟨hinner, hpending, -⟩ := hentry _ rfl
    have hroom : t.room = s.room := by rw [State.room, State.room, h.calls_eq]
    obtain ⟨r, v, hreach, hcalls, hv, hr⟩ := hsmaller inner u hinner hvalues (hroom ▸ ho.smaller)
    obtain ⟨hvalues', hanswer⟩ := Pending.resume_within hpending hv hr fun _ h => h.elim
    have hclosed := pending.sameStacks_resume r v
    refine ⟨(pending.resume r v).1, (pending.resume r v).2, fun outer => ?_, ?_, hvalues', hanswer⟩
    · refine .of_step ?_
      rw [hstep outer]
      exact (hreach _).trans ⟨1, rfl⟩
    · rw [hclosed.calls, ho.calls_close hcalls, h.calls_eq]

end

/-- Every block without jumps comes to an end, if all functions are without
jumps. -/
theorem finishes {b : Block} {index : Nat} {s : State} (hcode : NoJumps b.code)
    (hs : s.env.AllValues (Value.BodyIn NoJumps)) : Finishes b index s := by
  cases hi : b.code[index]? with
  | none =>
    refine ⟨.ok .completed, s, fun outer => .of_step ?_, rfl, hs, fun o ho => ?_⟩
    · rw [Config.step, hi]
      exact .refl _
    · obtain rfl := Except.ok.inj ho
      trivial
  | some i =>
    obtain ⟨r, t, hline, hcalls, ht, hr⟩ := line_answers hcode hi hs
      fun inner u hinner hu hsmaller => finishes hinner hu
    have hindex : index < b.code.length := (List.getElem?_eq_some_iff.1 hi).1
    cases r with
    | error e =>
      refine ⟨.error (e.mapError (·.atLine i.line)), t, fun outer => ?_, hcalls, ht, ?_⟩
      · exact (hline outer).trans ⟨1, rfl⟩
      · rintro o ⟨⟩
    | ok c =>
      obtain ⟨next, hnext, hlt⟩ | ⟨o, ho, hwithin⟩ := Block.next_of_ahead (hr c rfl)
      · -- the rest of the block has fewer lines and as much room
        have hroom : t.room = s.room := by rw [State.room, State.room, hcalls]
        obtain ⟨r', u, hrest, hcalls', hu, hr'⟩ := @finishes b next t hcode ht
        refine ⟨r', u, fun outer => ?_, hcalls'.trans hcalls, hu, hr'⟩
        refine (hline outer).trans (.of_step ?_)
        rw [Config.step, hnext]
        exact hrest outer
      · refine ⟨.ok o, t, fun outer => (hline outer).trans (.of_step ?_), hcalls, ht, ?_⟩
        · rw [Config.step, ho]
          exact .refl _
        · exact fun o' ho' => Except.ok.inj ho' ▸ hwithin
termination_by (s.room, b.code.length - index)
decreasing_by
  · obtain hless | ⟨heq, hless⟩ := hsmaller
    · exact Prod.Lex.left _ _ hless
    · rw [heq]
      exact Prod.Lex.right _ hless
  · rw [hroom]
    exact Prod.Lex.right _ (by omega)

/-! ### Programs -/

/-- **Programs without jumps always stop.** With enough fuel the run of a program
without jumps succeeds or fails, and more fuel does not change how, whatever the
limit of nested calls is. -/
theorem run_terminates_of_noJumps (limit : Nat) (sink : Sink) {p : Program}
    (hp : ∀ i ∈ p.instructions, i.keyword ≠ "JUMP") :
    ∃ enough r m, (r = .ok () ∨ ∃ e, r = .error (.failed e)) ∧
      ∀ fuel, enough ≤ fuel → (Interpreter.new limit sink []).run fuel p = (r, m) := by
  have hroot : Finishes (.root p.instructions Environment.root) 0
      (Interpreter.initialState limit sink) :=
    finishes hp (Environment.allValues_initialState (fun _ => Value.bodyIn_of_type) limit sink)
  obtain ⟨result, t, hreach, -⟩ := hroot
  have htable : (Interpreter.new limit sink []).table = standardTable := rfl
  obtain ⟨enough, hrun, hne⟩ := (Interpreter.run_iff_reaches htable).2 ⟨result, hreach [], rfl⟩
  generalize result.map (fun _ => ()) = r at hrun hne
  refine ⟨enough, r, { Interpreter.new limit sink [] with state := t }, ?_, fun fuel hle => ?_⟩
  · cases r with
    | ok => exact .inl rfl
    | error e =>
      cases e with
      | failed e => exact .inr ⟨e, rfl⟩
      | outOfFuel => exact absurd rfl hne
  · rw [Interpreter.run_mono hle (by rw [hrun]; exact hne), hrun]

/-- Two functions that call each other without end. -/
def endlessCalls : List Instruction :=
  [⟨"FUNC f", 1⟩, ⟨"IF true", 2⟩, ⟨"CALL g", 3⟩, ⟨"END", 4⟩, ⟨"END", 5⟩, ⟨"FUNC g", 6⟩,
    ⟨"CALL f", 7⟩, ⟨"END", 8⟩, ⟨"CALL f", 9⟩]

/-- The error of `endlessCalls` with three calls at most. -/
def endlessCallsError : Error :=
  ⟨.callDepthExceeded 3, some 3, some [⟨"f", some 7⟩, ⟨"g", some 3⟩, ⟨"f", some 9⟩]⟩

/-- The calls of `endlessCalls` come to an end at the limit. -/
theorem endlessCalls_terminates :
    (∀ i ∈ endlessCalls, i.keyword ≠ "JUMP") ∧
    ∃ enough m, ∀ fuel, enough ≤ fuel →
      (Interpreter.new 3 .silent []).run fuel ⟨endlessCalls⟩ =
        (.error (.failed endlessCallsError), m) := by
  have hp : ∀ i ∈ endlessCalls, i.keyword ≠ "JUMP" := by decide +kernel
  obtain ⟨enough, r, m, -, hrun⟩ := run_terminates_of_noJumps 3 .silent (p := ⟨endlessCalls⟩) hp
  have herror : ((Interpreter.new 3 .silent []).run 40 ⟨endlessCalls⟩).1 =
      .error (.failed endlessCallsError) := by decide +kernel
  -- the error is the one with any amount of fuel that is enough
  have hmore := hrun (max 40 enough) (Nat.le_max_right 40 enough)
  rw [Interpreter.run_mono (Nat.le_max_left 40 enough) (herror ▸ nofun)] at hmore
  rw [hmore] at herror
  obtain rfl : r = .error (.failed endlessCallsError) := herror
  exact ⟨hp, enough, m, hrun⟩

end LineScript
