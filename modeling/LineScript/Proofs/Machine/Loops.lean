import LineScript.Proofs.Machine.Forward
import LineScript.Proofs.Machine.Tasks
import LineScript.Proofs.Number.Literal
import LineScript.Proofs.Program.Balance

/-!
# Loops

There is no keyword for a loop. A conditional whose branch ends with a jump back to
it is one: as long as its condition holds, the lines before the jump run in a scope
of their own.

- `Loop`: the lines of a loop.
- `Loop.Runs`: the rules of a while loop.
- `Loop.runBlock_exits`, `runBlock_fails`, `runBlock_again`, `runBlock_leaves`: one round.
- `Loop.ends_iff`: the lines do what the rules say.
-/

namespace LineScript

/-! ### The lines of a loop -/

/-- The lines of a loop. The last line of the branch jumps back to the position before
its conditional. -/
structure Loop where
  head : KeywordLine ifKeyword
  body : List Instruction
  back : KeywordLine "JUMP"
  last : KeywordLine endKeyword
  balanced : Balanced body
  noJumps : NoJumps body
  noElse : ∀ n i, body[n]? = some i → i.isElse = true → openBlocks (body.take n) ≠ 0
  offset : back.line.operandChars = '-' :: Number.digits (body.length + 2)

namespace Loop

/-- The instructions of a loop. -/
def flatten (l : Loop) : List Instruction :=
  l.head.line :: (l.body ++ [l.back.line, l.last.line])

/-- The body of a loop, whose first line has position `origin` in its root list. -/
def bodyBlock (l : Loop) (scope : ScopeId) (origin : Nat) : Block :=
  ⟨l.body, scope, origin, true⟩

end Loop

/-- From a position on, a block ends in a state. -/
def Block.Ends (b : Block) (index : Nat) (s : State) (r : Except Stop Outcome) (t : State) : Prop :=
  ∃ fuel, runBlock standardTable fuel b index s = (r, t) ∧ r ≠ .error .outOfFuel

/-! ### Rules -/

/-- How a loop ends. -/
inductive LoopEnd where
  /-- Its condition does not hold. -/
  | exited
  /-- Its body returns. -/
  | returned (v : Value)
  /-- Its condition or its body fails. -/
  | failed (e : Error)

namespace Loop

/-- The state in which a round begins: there is a new frame for its body. -/
def entered (scope : ScopeId) (s : State) : State :=
  { s with env := (s.env.child scope).2 }

/-- The state after a round that began with `depth` frames. -/
def left (depth : Nat) (s : State) : State :=
  { s with env := s.env.release depth }

/-- **The rules of a while loop.** In a scope and from a state a loop ends in a state.
In each round the condition is evaluated in that scope; the body runs in a fresh child
of the scope, which is released at the end of the round. The jump back counts as an
instruction. A loop that goes on forever has no end. -/
inductive Runs (l : Loop) (scope : ScopeId) (origin : Nat) : State → LoopEnd → State → Prop where
  | exits {s t : State} (hcond : condition l.head.line scope s = (.ok false, t)) :
      Runs l scope origin s .exited t
  | fails {s t : State} {e : Error}
      (hcond : condition l.head.line scope s = (.error (.failed e), t)) :
      Runs l scope origin s (.failed (e.atLine l.head.line.line)) t
  | again {s t u w : State} {x : LoopEnd}
      (hcond : condition l.head.line scope s = (.ok true, t))
      (hbody : (l.bodyBlock t.env.depth origin).Ends 0 (entered scope t) (.ok .completed) u)
      (hrest : Runs l scope origin (left t.env.depth u.ticked) x w) : Runs l scope origin s x w
  | returns {s t u : State} {v : Value} (hcond : condition l.head.line scope s = (.ok true, t))
      (hbody : (l.bodyBlock t.env.depth origin).Ends 0 (entered scope t) (.ok (.returned v)) u) :
      Runs l scope origin s (.returned v) (left t.env.depth u)
  | bodyFails {s t u : State} {e : Error} (hcond : condition l.head.line scope s = (.ok true, t))
      (hbody : (l.bodyBlock t.env.depth origin).Ends 0 (entered scope t) (.error (.failed e)) u) :
      Runs l scope origin s (.failed e) (left t.env.depth u)

end Loop

/-- How a block ends when a loop in it has ended, if `next` is the position behind the
loop. -/
def LoopEnd.GoesOn (b : Block) (next : Nat) (t : State) (r : Except Stop Outcome) (u : State) :
    LoopEnd → Prop
  | exited => b.Ends next t r u
  | returned v => r = .ok (.returned v) ∧ u = t
  | failed e => r = .error (.failed e) ∧ u = t

/-! ### The lines of a loop in a block -/

namespace Loop

section

variable {l : Loop} {b : Block} {index : Nat} {rest : List Instruction}
  (hcode : b.code.drop index = l.flatten ++ rest)

theorem length_flatten (l : Loop) : l.flatten.length = l.body.length + 3 := by
  simp [flatten]

theorem isNeutral_back (l : Loop) : l.back.line.IsNeutral := by
  have hcall : l.back.line.callOperand? = none := by
    refine Instruction.callOperand?_eq_none ?_ ?_ <;> rw [l.back.keyword_eq] <;> decide
  refine Instruction.isNeutral ?_ ?_ ?_ ?_ (Instruction.definesInline_of_noCall hcall) <;>
    rw [l.back.keyword_eq] <;> decide

include hcode

theorem drop_body : b.code.drop (index + 1) = (l.body ++ [l.back.line]) ++ l.last.line :: rest := by
  have h := (Structured.getElem?_of_drop hcode).2
  rw [h]
  simp

theorem layout_eq :
    layout? b.code (index + 1) = some ⟨none, index + 1 + (l.body.length + 1)⟩ := by
  have hpassed := (l.balanced.passedFrom l.noElse).append (.neutral l.isNeutral_back)
  rw [layout?, drop_body hcode, hpassed 0 (Nat.le_refl 0), scanLayout_end, List.length_append]
  rfl

/-- The branch of a loop is its body, followed by the jump back. -/
theorem branch_eq (scope : ScopeId) :
    b.branch (index + 1) (index + 1 + (l.body.length + 1)) scope =
      (l.bodyBlock scope (b.origin + index + 1)).followedBy l.back.line := by
  have hlines := Structured.drop_take_of_drop (drop_body hcode)
  rw [List.length_append, List.length_singleton] at hlines
  rw [Block.branch, hlines]
  rfl

theorem length_le : index + l.body.length + 3 ≤ b.code.length := by
  have hlength := congrArg List.length hcode
  rw [List.length_drop, List.length_append, length_flatten] at hlength
  omega

end

/-- The jump back leads to the conditional, out of its branch. -/
theorem runBlock_back (l : Loop) {origin : Nat} (scope : ScopeId) (fuel : Nat) (s : State)
    (hsize : (origin + l.body.length + 3 : Int) ≤ lastPosition) :
    runBlock standardTable (fuel + 1)
        ((l.bodyBlock scope (origin + 1)).followedBy l.back.line) l.body.length s =
      (.ok (.escaped origin), s.ticked) := by
  have hword : (l.back.line.keyword, Builtin.jump) ∈ Builtin.words :=
    Builtin.mem_words l.back.keyword_eq
  have hi : ((l.bodyBlock scope (origin + 1)).followedBy l.back.line).code[l.body.length]? =
      some l.back.line := List.getElem?_concat_length
  have hoffset : relativeOffset? l.back.line.operand.toList = some (-(l.body.length + 2 : Int)) := by
    have hdigits : (Number.digits (l.body.length + 2)).all Char.isDigit = true :=
      List.all_eq_true.2 fun c hc => Number.isDigit_of_mem_digits hc
    have hfits : l.body.length + 2 < Nat.pow 2 63 := by
      have hpow : Nat.pow 2 63 = 9223372036854775808 := rfl
      rw [lastPosition] at hsize
      omega
    rw [Instruction.toList_operand, l.offset, relativeOffset?]
    simp [hdigits, Number.digits_ne_nil, Number.digitsValue_digits, hfits]
  have hempty : l.back.line.operand.isEmpty = false := by
    simp [Instruction.operand, l.offset]
  -- the position before the conditional, also when that is the one before the first line
  have htarget : min (((origin + 1 + l.body.length : Nat) : Int) + -(l.body.length + 2 : Int))
      lastPosition = (origin : Int) - 1 := by
    rw [lastPosition] at hsize ⊢
    omega
  have hresume : Builtin.resumeAfter ((origin : Int) - 1) = pure (.goto origin) := by
    have hposition : ((origin : Int) - 1 + 1).toNat = origin := by omega
    rw [lastPosition] at hsize
    rw [Builtin.resumeAfter, if_neg (by omega), if_neg (by rw [lastPosition]; omega), hposition]
  have hline : dispatch standardTable (nestedRunner standardTable fuel)
      ((l.bodyBlock scope (origin + 1)).followedBy l.back.line) l.body.length l.back.line s =
      (.ok (.goto origin), s.ticked) := by
    have habsolute : (((l.bodyBlock scope (origin + 1)).followedBy l.back.line).origin +
        l.body.length : Nat) = origin + 1 + l.body.length := rfl
    have hhere : ¬ lastPosition < ((origin + 1 + l.body.length : Nat) : Int) := by
      push_cast
      omega
    rw [dispatch_builtin hword]
    simp only [Builtin.run, Builtin.runJump, hempty, hoffset, Invocation.absolute, habsolute,
      if_neg hhere, htarget, hresume]
    rfl
  have hnext : ((l.bodyBlock scope (origin + 1)).followedBy l.back.line).next l.body.length
      (.goto origin) = .inr (.escaped origin) := by
    rw [Block.next, if_neg fun h => Nat.not_succ_le_self origin h.1]
    rfl
  rw [runBlock_of_line hi, hline]
  simp only [goOn, hnext]

/-! ### One round -/

section

variable {l : Loop} {b : Block} {index fuel : Nat} {rest : List Instruction} {s t u : State}
  (hcode : b.code.drop index = l.flatten ++ rest)

include hcode

/-- A run at a loop evaluates the condition and goes on with its value. -/
theorem runBlock_head {r : Except Stop Bool} (hcond : condition l.head.line b.scope s = (r, t)) :
    runBlock standardTable (fuel + 1) b index s =
      goOn standardTable fuel b index l.head.line.line
        (Exec.proceed r (fun c => enterChosen ⟨b, index, l.head.line.operand, l.head.line.line⟩ c >>=
          Entry.complete (nestedRunner standardTable fuel)) t) := by
  have hi : b.code[index]? = some l.head.line := (Structured.getElem?_of_drop hcode).1
  rw [runBlock_of_line hi, dispatch_conditional, Exec.bind_of_eq hcond]

/-- When the condition does not hold, the run goes on behind the loop. -/
theorem runBlock_exits (hcond : condition l.head.line b.scope s = (.ok false, t)) :
    runBlock standardTable (fuel + 1) b index s =
      runBlock standardTable fuel b (index + l.flatten.length) t := by
  have hlayout := layout_eq hcode
  have hnext := Structured.next_after_end _ hlayout
  have hend : index + 1 + (l.body.length + 1) + 1 = index + l.flatten.length := by
    rw [length_flatten]
    omega
  rw [runBlock_head hcode hcond]
  simp only [Exec.proceed, enterChosen, hlayout, Exec.ofOption_some, pure_bind,
    Builtin.chosenBranch, Entry.complete, Exec.pure_apply, goOn, hnext, hend]

/-- When the condition has no value, the run fails at the line of the condition. -/
theorem runBlock_fails {e : Stop} (hcond : condition l.head.line b.scope s = (.error e, t)) :
    runBlock standardTable (fuel + 1) b index s =
      (.error (e.mapError (·.atLine l.head.line.line)), t) := by
  rw [runBlock_head hcode hcond]
  rfl

/-- When the condition holds, the branch runs in a fresh child of the scope. -/
theorem runBlock_enters (hcond : condition l.head.line b.scope s = (.ok true, t))
    {r : Except Stop Outcome}
    (hbranch : runBlock standardTable fuel
      ((l.bodyBlock t.env.depth (b.origin + index + 1)).followedBy l.back.line) 0
      (entered b.scope t) = (r, u)) :
    runBlock standardTable (fuel + 1) b index s =
      goOn standardTable fuel b index l.head.line.line
        ((r.map Outcome.control).map (Control.goingOn
          (.goto (b.origin + (index + 1 + (l.body.length + 1)) + 1))), left t.env.depth u) := by
  have hlayout := layout_eq hcode
  rw [← branch_eq hcode] at hbranch
  have hentered := @enterBranch_apply (nestedRunner standardTable fuel)
    ⟨b, index, l.head.line.operand, l.head.line.line⟩ t u r (index + 1)
    (index + 1 + (l.body.length + 1)) (b.origin + (index + 1 + (l.body.length + 1)) + 1) hbranch
  rw [runBlock_head hcode hcond]
  simp only [Exec.proceed, enterChosen, hlayout, Exec.ofOption_some, pure_bind,
    Builtin.chosenBranch, hentered]
  rfl

/-- When the body is completed, the next round begins. -/
theorem runBlock_again (hsize : (b.origin + b.code.length : Int) ≤ lastPosition)
    (hcond : condition l.head.line b.scope s = (.ok true, t))
    (hbody : runBlock standardTable fuel (l.bodyBlock t.env.depth (b.origin + index + 1)) 0
      (entered b.scope t) = (.ok .completed, u)) :
    runBlock standardTable (fuel + 1) b index s =
      runBlock standardTable fuel b index (left t.env.depth u.ticked) := by
  obtain ⟨-, rest, hrest⟩ | ⟨hne, -⟩ :=
    runBlock_followedBy l.isNeutral_back l.noJumps (Nat.zero_le _) hbody
  · have hle := length_le hcode
    have hback : runBlock standardTable fuel
        ((l.bodyBlock t.env.depth (b.origin + index + 1)).followedBy l.back.line) 0
        (entered b.scope t) = (.ok (.escaped (b.origin + index)), u.ticked) :=
      hrest.trans (l.runBlock_back t.env.depth rest u (by push_cast; omega))
    have hnext : b.next index (.goto (b.origin + index)) = .inl index := by
      rw [Block.next, if_pos ⟨by omega, by omega⟩, Nat.add_sub_cancel_left]
    rw [runBlock_enters hcode hcond hback]
    simp only [Except.map, Outcome.control, Control.goingOn, goOn, hnext]
  · exact absurd rfl hne

/-- When the body returns or fails, so does the run. -/
theorem runBlock_leaves (hcond : condition l.head.line b.scope s = (.ok true, t))
    {r : Except Stop Outcome} (hr : r ≠ .ok .completed)
    (hbody : runBlock standardTable fuel (l.bodyBlock t.env.depth (b.origin + index + 1)) 0
      (entered b.scope t) = (r, u)) :
    runBlock standardTable (fuel + 1) b index s = (r, left t.env.depth u) := by
  obtain ⟨hcompleted, -⟩ | ⟨-, hbranch⟩ :=
    runBlock_followedBy l.isNeutral_back l.noJumps (Nat.zero_le _) hbody
  · exact absurd hcompleted hr
  · rw [runBlock_enters hcode hcond hbranch]
    cases r with
    | error e =>
      simp only [Except.map, goOn, runBlock_error_atLine hbody]
    | ok o =>
      cases o with
      | completed => exact absurd rfl hr
      | escaped target => exact absurd rfl (runBlock_ne_escaped l.noJumps hbody target)
      | returned v => rfl

/-- What the lines of a loop do, the rules say. -/
theorem runs_of_runBlock (hsize : (b.origin + b.code.length : Int) ≤ lastPosition)
    {r : Except Stop Outcome} (h : runBlock standardTable fuel b index s = (r, u))
    (hr : r ≠ .error .outOfFuel) :
    ∃ x t, l.Runs b.scope (b.origin + index + 1) s x t ∧
      x.GoesOn b (index + l.flatten.length) t r u := by
  -- each round takes a unit of fuel
  induction fuel generalizing s with
  | zero =>
    cases h
    exact absurd rfl hr
  | succ fuel ih =>
    cases hcond : condition l.head.line b.scope s with
    | mk c t =>
      cases c with
      | error e =>
        rw [runBlock_fails hcode hcond] at h
        cases h
        cases e with
        | failed e => exact ⟨_, _, .fails hcond, rfl, rfl⟩
        | outOfFuel => exact absurd rfl hr
      | ok holds =>
        cases holds with
        | false =>
          rw [runBlock_exits hcode hcond] at h
          exact ⟨_, _, .exits hcond, fuel, h, hr⟩
        | true =>
          cases hbody : runBlock standardTable fuel
            (l.bodyBlock t.env.depth (b.origin + index + 1)) 0 (entered b.scope t) with
          | mk r' v =>
            by_cases hcompleted : r' = .ok .completed
            · subst hcompleted
              rw [runBlock_again hcode hsize hcond hbody] at h
              obtain ⟨x, w, hruns, hgoes⟩ := ih h
              exact ⟨x, w, .again hcond ⟨fuel, hbody, nofun⟩ hruns, hgoes⟩
            · rw [runBlock_leaves hcode hcond hcompleted hbody] at h
              cases h
              cases r with
              | error e =>
                cases e with
                | failed e => exact ⟨_, _, .bodyFails hcond ⟨fuel, hbody, nofun⟩, rfl, rfl⟩
                | outOfFuel => exact absurd rfl hr
              | ok o =>
                cases o with
                | completed => exact absurd rfl hcompleted
                | escaped target => exact absurd rfl (runBlock_ne_escaped l.noJumps hbody target)
                | returned value =>
                  exact ⟨_, _, .returns hcond ⟨fuel, hbody, nofun⟩, rfl, rfl⟩

/-- What the rules say, the lines of a loop do. -/
theorem Runs.ends (hsize : (b.origin + b.code.length : Int) ≤ lastPosition) {x : LoopEnd}
    (h : l.Runs b.scope (b.origin + index + 1) s x t) {r : Except Stop Outcome}
    (hgoes : x.GoesOn b (index + l.flatten.length) t r u) : b.Ends index s r u := by
  induction h with
  | exits hcond =>
    obtain ⟨fuel, hrun, hr⟩ := hgoes
    exact ⟨fuel + 1, (runBlock_exits hcode hcond).trans hrun, hr⟩
  | fails hcond =>
    obtain ⟨rfl, rfl⟩ := hgoes
    exact ⟨1, runBlock_fails hcode hcond, nofun⟩
  | again hcond hbody _ ih =>
    obtain ⟨fuel, hbody, hne⟩ := hbody
    obtain ⟨fuel', hrun, hr⟩ := ih hgoes
    -- the larger amount is enough for the round and for those that follow
    have hbody' := (runBlock_mono (Nat.le_max_left fuel fuel') (by rw [hbody]; exact hne)).trans
      hbody
    have hrun' := (runBlock_mono (Nat.le_max_right fuel fuel') (by rw [hrun]; exact hr)).trans hrun
    exact ⟨max fuel fuel' + 1, (runBlock_again hcode hsize hcond hbody').trans hrun', hr⟩
  | returns hcond hbody =>
    obtain ⟨rfl, rfl⟩ := hgoes
    obtain ⟨fuel, hbody, hne⟩ := hbody
    exact ⟨fuel + 1, runBlock_leaves hcode hcond nofun hbody, nofun⟩
  | bodyFails hcond hbody =>
    obtain ⟨rfl, rfl⟩ := hgoes
    obtain ⟨fuel, hbody, hne⟩ := hbody
    exact ⟨fuel + 1, runBlock_leaves hcode hcond nofun hbody, nofun⟩

end

/-- **A conditional with a jump back is a while loop.** Wherever the lines of a loop
stand in a block, a run from the first of them ends exactly as the rules say: the loop
ends by them, and the block goes on behind it, returns or fails accordingly. The
positions of a list have 63 bits. -/
theorem ends_iff (l : Loop) {b : Block} {index : Nat} {rest : List Instruction}
    (hcode : b.code.drop index = l.flatten ++ rest)
    (hsize : (b.origin + b.code.length : Int) ≤ lastPosition) (s u : State)
    (r : Except Stop Outcome) :
    b.Ends index s r u ↔
      ∃ x t, l.Runs b.scope (b.origin + index + 1) s x t ∧
        x.GoesOn b (index + l.flatten.length) t r u := by
  constructor
  · rintro ⟨fuel, h, hr⟩
    exact runs_of_runBlock hcode hsize h hr
  · rintro ⟨x, t, hruns, hgoes⟩
    exact hruns.ends hcode hsize hgoes

/-- A loop whose first round is the last one. -/
def switchOff : Loop where
  head := ⟨⟨"IF go", 1⟩, by decide⟩
  body := [⟨"ASSIGN go false", 2⟩]
  back := ⟨⟨"JUMP -3", 3⟩, by decide⟩
  last := ⟨⟨"END", 4⟩, by decide⟩
  balanced := by decide
  noJumps := List.forall_mem_singleton.2 (by decide)
  noElse n i hi helse := by
    have hword : ∀ j ∈ [(⟨"ASSIGN go false", 2⟩ : Instruction)], j.isElse = false := by decide
    rw [hword i (List.mem_of_getElem? hi)] at helse
    cases helse
  offset := by decide

/-- A state in which the loop goes on. -/
def switchedOn : State :=
  let s := Interpreter.initialState 1 .silent
  { s with env := s.env.declare Environment.root "go" ⟨.boolean true, false⟩ }

/-- The loop as a whole program. -/
def switchOffBlock : Block :=
  .root switchOff.flatten Environment.root

/-- The jump back is one to the position before the first line. -/
theorem switchOff_exits :
    switchOffBlock.code.drop 0 = switchOff.flatten ++ [] ∧
    (switchOffBlock.origin + switchOffBlock.code.length : Int) ≤ lastPosition ∧
    ∃ t, switchOff.Runs Environment.root 1 switchedOn .exited t ∧
      t.env.find? Environment.root "go" = some ⟨.boolean false, false⟩ := by
  have hcode : switchOffBlock.code.drop 0 = switchOff.flatten ++ [] := rfl
  have hsize : (switchOffBlock.origin + switchOffBlock.code.length : Int) ≤ lastPosition := by decide
  have hend : (runBlock standardTable 20 switchOffBlock 0 switchedOn).1 = .ok .completed := by
    decide +kernel
  have hgo : (runBlock standardTable 20 switchOffBlock 0 switchedOn).2.env.find? Environment.root
      "go" = some ⟨.boolean false, false⟩ := by decide +kernel
  generalize hresult : runBlock standardTable 20 switchOffBlock 0 switchedOn = result at hend hgo
  obtain ⟨r, u⟩ := result
  obtain rfl : r = .ok .completed := hend
  obtain ⟨x, t, hruns, hgoes⟩ :=
    (ends_iff switchOff hcode hsize switchedOn u _).1 ⟨20, hresult, nofun⟩
  refine ⟨hcode, hsize, t, ?_⟩
  cases x with
  | exited =>
    -- nothing stands behind the loop
    obtain ⟨fuel, hrun, -⟩ := hgoes
    cases fuel with
    | zero => cases hrun
    | succ fuel =>
      rw [runBlock_of_end standardTable fuel (by decide)] at hrun
      exact ⟨hruns, (Prod.mk.inj hrun).2 ▸ hgo⟩
  | returned v => cases hgoes.1
  | failed e => cases hgoes.1

end Loop

end LineScript
