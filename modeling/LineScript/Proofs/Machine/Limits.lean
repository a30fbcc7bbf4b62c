import LineScript.Proofs.Machine.Lockstep

/-!
# Runs under another limit of calls

The limit of calls shows in a run only where it cuts the run short: at a call too many.
Under a larger limit a run goes through the same moments up to there.

- `Interpreter.withLimit`: the same interpreter under another limit.
- `EndsWithin`: a run that ends, and not at the limit.
- `Variation.limiting`: a program under another limit.
- `Interpreter.run_within`: a run within both limits is the same under both.
- `exists_exceeding`: a run under the smaller limit fails where the other goes beyond it.
- `limit_only_cuts_short`: when a run depends on the limit.
-/

namespace LineScript

/-- The interpreter under another limit of calls. -/
def Interpreter.withLimit (m : Interpreter) (limit : Nat) : Interpreter :=
  { m with state := { m.state with calls := { m.state.calls with limit := limit } } }

/-- A run has come to its end, and it has not failed at the limit of calls. -/
structure EndsWithin (r : Except Stop Unit) : Prop where
  ends : r ≠ .error .outOfFuel
  within : ∀ e limit, r = .error (.failed e) → e.cause ≠ .callDepthExceeded limit

namespace Variation

/-- A program under another limit of calls. -/
def limiting (limit limit' : Nat) : Variation :=
  ⟨sameLine, fun k => if k = limit then limit' else k, []⟩

section

variable {limit limit' : Nat}

theorem limit_limiting : (limiting limit limit').limit limit = limit' :=
  if_pos rfl

/-- Under another limit only that limit is no reason to fail. -/
theorem bad_limiting {c : Cause} (h : (limiting limit limit').Bad c) :
    c = .callDepthExceeded limit := by
  cases c with
  | callDepthExceeded k =>
    exact congrArg Cause.callDepthExceeded (Decidable.byContradiction fun hk => h (if_neg hk))
  | invalidJump reason => exact absurd rfl h
  | _ => exact h.elim

theorem program_limiting (p : Program) : (limiting limit limit').program p = p := by
  have hmap : p.instructions.map (Instruction.renumber sameLine) = p.instructions := List.map_id _
  show Program.mk ([] ++ p.instructions.map (Instruction.renumber sameLine)) = p
  rw [hmap]
  rfl

theorem stop_limiting (e : Stop) : (limiting limit limit').stop e = e := by
  cases e with
  | failed e => exact congrArg Stop.failed e.renumber_sameLine
  | outOfFuel => rfl

/-- Only the limit of a state is another one. -/
theorem state_limiting {s : State} (hs : s.calls.limit = limit) :
    (limiting limit limit').state s = { s with calls := { s.calls with limit := limit' } } := by
  have hcalls : s.calls.calls.map (Call.renumber sameLine) = s.calls.calls := by
    rw [show Call.renumber sameLine = id from funext Call.renumber_sameLine, List.map_id]
  have hlimit : (limiting limit limit').limit s.calls.limit = limit' := if_pos hs
  show State.mk (s.env.renumber sameLine)
    ⟨s.calls.calls.map (Call.renumber sameLine), (limiting limit limit').limit s.calls.limit⟩
    (s.sink.renumber sameLine) _ _ = _
  rw [hcalls, hlimit, Environment.renumber_sameLine, Sink.renumber_sameLine]
  rfl

end

end Variation

section

variable {limit limit' : Nat} {sink : Sink} {p : Program}

/-- A run that ends within its limit is the same under every limit that its calls are
within. -/
theorem Interpreter.run_within {fuel : Nat} {r : Except Stop Unit} {m : Interpreter}
    (hrun : (Interpreter.new limit sink []).run fuel p = (r, m)) (hr : EndsWithin r)
    (hdepth : ∀ c, Reaches ((Interpreter.new limit sink []).start p) c →
      c.state.calls.depth ≤ limit') :
    ∃ fuel', (Interpreter.new limit' sink []).run fuel' p = (r, m.withLimit limit') := by
  have hgood : ∀ e, r = .error (.failed e) → ¬ (Variation.limiting limit limit').Bad e.cause :=
    fun e he hbad => hr.within e limit he (Variation.bad_limiting hbad)
  obtain ⟨fuel', hrun'⟩ := Variation.run_varied (v := .limiting limit limit')
    (Variation.suits_of_leading rfl p) hrun hr.ends hgood (by rwa [Variation.limit_limiting])
  have hlimit : m.state.calls.limit = limit := by
    have hm := Interpreter.eq_of_run hrun
    rw [hm] at hrun
    obtain ⟨result, hend, -⟩ := (Interpreter.run_iff_reaches rfl).1 ⟨fuel, hrun, hr.ends⟩
    exact (within_of_reaches hend).limit_eq
  have hstop : r.mapError (Variation.limiting limit limit').stop = r := by
    cases r with
    | ok u => rfl
    | error e => exact congrArg Except.error (Variation.stop_limiting e)
  rw [Variation.program_limiting, Variation.limit_limiting, hstop,
    Variation.state_limiting hlimit] at hrun'
  refine ⟨fuel', ?_⟩
  rw [← sink.renumber_sameLine]
  exact hrun'

/-- Under another limit a program begins in the same way. -/
theorem config_start_limiting :
    (Variation.limiting limit limit').config ((Interpreter.new limit sink []).start p) =
      (Interpreter.new limit' sink []).start p := by
  have hsink : sink.renumber (Variation.limiting limit limit').line = sink :=
    sink.renumber_sameLine
  rw [Variation.config_start rfl, Variation.program_limiting, Variation.limit_limiting, hsink]

/-- A run that goes beyond a smaller limit fails at that limit. -/
theorem exists_failed_of_exceeding (h : limit ≤ limit') {n : Nat}
    (hn : limit < (((Interpreter.new limit' sink []).start p).after n).state.calls.depth) :
    ∃ k e, (((Interpreter.new limit sink []).start p).after k).failed? = some e ∧
      e.cause = .callDepthExceeded limit := by
  have hdepth : ∀ k, (((Interpreter.new limit sink []).start p).after k).state.calls.depth ≤
      limit := fun k => (within_of_reaches ⟨k, rfl⟩).depth_le
  refine Classical.byContradiction fun hnone => ?_
  have hstrays : ∀ k, ¬ (Variation.limiting limit limit').StraysAt
      (((Interpreter.new limit sink []).start p).after k) := by
    intro k
    refine Variation.not_straysAt ⟨k, rfl⟩ ?_ ?_
    · exact fun e he hbad => hnone ⟨k, e, he, Variation.bad_limiting hbad⟩
    · rw [Variation.limit_limiting]
      exact Nat.le_trans (hdepth k) h
  -- without a failure at the limit the two runs go through the same moments
  have hafter := Variation.config_start_after (n := n) (Variation.suits_of_leading rfl p)
    fun k _ => hstrays (k + 1)
  rw [config_start_limiting] at hafter
  rw [hafter, Variation.depth_config] at hn
  exact absurd (hdepth n) (Nat.not_le_of_lt hn)

/-- Where a run under a larger limit goes beyond the smaller one, the run under this one
ends, and it fails. -/
theorem exists_exceeding (h : limit ≤ limit') {c : Config}
    (hreach : Reaches ((Interpreter.new limit' sink []).start p) c)
    (hc : limit < c.state.calls.depth) :
    ∃ fuel e m, (Interpreter.new limit sink []).run fuel p = (.error (.failed e), m) ∧
      e.cause = .callDepthExceeded limit := by
  obtain ⟨n, rfl⟩ := hreach
  obtain ⟨k, e, he, hcause⟩ := exists_failed_of_exceeding h hc
  obtain ⟨e', u, hcause', hend⟩ := halts_of_failed he
  obtain ⟨fuel, hrun, -⟩ := (Interpreter.run_iff_reaches rfl).2
    ⟨_, Reaches.trans ⟨k, rfl⟩ hend, rfl⟩
  exact ⟨fuel, e', _, hrun, hcause'.trans hcause⟩

/-- **The limit of calls only cuts runs short.** A run that ends within a limit ends in the
same way and in the same state under every larger limit. And where the run under the larger
limit ends within it, the run under the smaller one fails at that limit exactly if the other
has more active calls at some moment. -/
theorem limit_only_cuts_short (h : limit ≤ limit') (sink : Sink) (p : Program) :
    (∀ fuel r m, (Interpreter.new limit sink []).run fuel p = (r, m) → EndsWithin r →
      ∃ fuel', (Interpreter.new limit' sink []).run fuel' p = (r, m.withLimit limit')) ∧
    ∀ fuel r m, (Interpreter.new limit' sink []).run fuel p = (r, m) → EndsWithin r →
      ((∃ fuel' e m', (Interpreter.new limit sink []).run fuel' p = (.error (.failed e), m') ∧
          e.cause = .callDepthExceeded limit) ↔
        ∃ c, Reaches ((Interpreter.new limit' sink []).start p) c ∧
          limit < c.state.calls.depth) := by
  refine ⟨fun fuel r m hrun hr => ?_, fun fuel r m hrun hr => ⟨?_, ?_⟩⟩
  · exact Interpreter.run_within hrun hr fun c hc =>
      Nat.le_trans (within_of_reaches hc).depth_le h
  · rintro ⟨fuel', e, m', hfails, hcause⟩
    refine Classical.byContradiction fun hnone => ?_
    -- a run within the smaller limit would be the same under it
    obtain ⟨fuel'', hsame⟩ : ∃ fuel'', (Interpreter.new limit sink []).run fuel'' p =
        (r, m.withLimit limit) :=
      Interpreter.run_within hrun hr fun c hc =>
        Nat.le_of_not_lt fun hbeyond => hnone ⟨c, hc, hbeyond⟩
    have hends : ((Interpreter.new limit sink []).run fuel' p).1 ≠ .error .outOfFuel := by
      rw [hfails]
      exact nofun
    have hends' : ((Interpreter.new limit sink []).run fuel'' p).1 ≠ .error .outOfFuel := by
      rw [hsame]
      exact hr.ends
    have hunique := Interpreter.run_unique hends hends'
    rw [hfails, hsame] at hunique
    exact hr.within e limit (Prod.mk.inj hunique).1.symm hcause
  · rintro ⟨c, hreach, hc⟩
    exact exists_exceeding h hreach hc

/-- A function that calls another one, which prints a line. -/
def callInCall : List Instruction :=
  [⟨"FUNC f", 1⟩, ⟨"CALL g", 2⟩, ⟨"END", 3⟩, ⟨"FUNC g", 4⟩, ⟨"STD::OUT", 5⟩, ⟨"END", 6⟩,
    ⟨"CALL f", 7⟩]

/-- Under a limit of two calls `callInCall` prints its line, as it does under a limit of five.
With only one call it fails, as two are needed. -/
theorem callInCall_limits :
    1 ≤ 2 ∧ 2 ≤ 5 ∧ EndsWithin (.ok ()) ∧
    ∃ m, (Interpreter.new 2 (.buffer #[]) []).run 20 ⟨callInCall⟩ = (.ok (), m) ∧
      m.state.sink.lines = [""] ∧
      (∃ fuel, (Interpreter.new 5 (.buffer #[]) []).run fuel ⟨callInCall⟩ =
        (.ok (), m.withLimit 5)) ∧
      ∃ fuel e m', (Interpreter.new 1 (.buffer #[]) []).run fuel ⟨callInCall⟩ =
        (.error (.failed e), m') ∧ e.cause = .callDepthExceeded 1 := by
  have hends : EndsWithin (.ok ()) := ⟨nofun, nofun⟩
  obtain ⟨t, hblock, hlines⟩ : ∃ t, runBlock standardTable 20
      (.root callInCall Environment.root) 0 (Interpreter.initialState 2 (.buffer #[])) =
        (.ok .completed, t) ∧ t.sink.lines = [""] := ⟨_, Prod.ext rfl rfl, rfl⟩
  have hrun := Interpreter.run_of_block (m := .new 2 (.buffer #[]) []) (p := ⟨callInCall⟩) hblock
  have hdeep : Reaches ((Interpreter.new 2 (.buffer #[]) []).start ⟨callInCall⟩) _ := ⟨6, rfl⟩
  have h₁ : 1 ≤ 2 := by decide
  have h₂ : 2 ≤ 5 := by decide
  have hlarger := (limit_only_cuts_short h₂ (.buffer #[]) ⟨callInCall⟩).1 _ _ _ hrun hends
  have hsmaller := ((limit_only_cuts_short h₁ (.buffer #[]) ⟨callInCall⟩).2 _ _ _ hrun hends).2
    ⟨_, hdeep, by decide +kernel⟩
  exact ⟨h₁, h₂, hends, _, hrun, hlines, hlarger, hsmaller⟩

end

end LineScript
