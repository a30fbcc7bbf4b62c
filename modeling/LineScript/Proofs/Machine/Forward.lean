import LineScript.Proofs.Machine.Returns
import LineScript.Proofs.Machine.Termination

/-!
# Blocks that only go forwards

A block without jumps is left after its last line, by a return or by an error; the
functions that it calls may jump as they like. So one more line at its end changes
nothing of its run up to there, if that line plays no part in the block structure.

- `dispatch_ahead`: a line of such a block goes on behind itself in the block.
- `runBlock_ne_escaped`: such a block is not left by a jump.
- `beginLine_followedBy`: the lines of a block do not see a line behind them.
- `runBlock_followedBy`: the run of a block that is followed by one more line.
- `runBlock_error_atLine`: the error of a block has its line.
-/

namespace LineScript

/-! ### The end of a block without jumps -/

section

variable {fuel : Nat} {b : Block} {index : Nat} {i : Instruction} {s t : State}

/-- A line that is no jump goes on behind itself, if the blocks without jumps that it
enters are not left by a jump. -/
theorem dispatch_ahead (hcode : NoJumps b.code) (hi : b.code[index]? = some i)
    (hnested : ∀ {inner : Block} {s t : State} {o : Outcome}, NoJumps inner.code →
      runBlock standardTable fuel inner 0 s = (.ok o, t) → ∀ target, o ≠ .escaped target)
    {c : Control}
    (h : dispatch standardTable (nestedRunner standardTable fuel) b index i s = (.ok c, t)) :
    c.Within (Value.BodyIn fun _ => True) (b.Ahead index) := by
  have hany : ∀ env : Environment, env.AllValues (Value.BodyIn fun _ => True) :=
    fun _ _ _ _ _ _ _ => trivial
  have hkeeps : Exec.Keeps (Value.BodyIn fun _ => True)
      (Entry.Within (fun _ => True) (b.Ahead index) i) (beginLine standardTable b index i) :=
    keeps_beginLine ⟨fun _ _ => trivial, fun _ _ _ => trivial⟩ trivial
      (fun _ => Block.ahead_of_layout)
      fun hjump => absurd hjump (hcode i (List.mem_of_getElem? hi))
  obtain ⟨-, hentry⟩ := hkeeps s (hany s.env)
  have hbegun := beginLine_does b index i s
  rw [dispatch_of_begun] at h
  generalize beginLine standardTable b index i s = begun at h hbegun hentry
  cases hbegun with
  | failed => cases h
  | finished =>
    cases h
    exact hentry _ rfl
  | @opens inner pending _ u _ ho =>
    obtain ⟨-, hpending, -⟩ := hentry _ rfl
    simp only [nestedRunner] at h
    generalize hrun : runBlock standardTable fuel inner 0 u = result at h
    obtain ⟨r, v⟩ := result
    have hr : ∀ o, r = .ok o → o.Within (Value.BodyIn fun _ => True) fun _ => False := by
      rintro o rfl
      have hne : ∀ target, o ≠ .escaped target := by
        cases ho with
        | branch =>
          exact hnested (fun j hj => hcode j (List.mem_of_mem_take (List.mem_of_mem_drop hj))) hrun
        | call =>
          rintro target rfl
          exact absurd (runBlock_escaped hrun).1 Bool.false_ne_true
      cases o with
      | completed => trivial
      | escaped target => exact hne target rfl
      | returned v => exact fun _ _ => trivial
    have hanswer := (Pending.resume_within hpending (hany v.env) hr fun _ h => h.elim).2
    rw [h] at hanswer
    exact hanswer c rfl

/-- A block without jumps is not left by a jump. -/
theorem runBlock_ne_escaped {o : Outcome} (hcode : NoJumps b.code)
    (h : runBlock standardTable fuel b index s = (.ok o, t)) (target : Nat) :
    o ≠ .escaped target := by
  induction fuel generalizing b index s t o target with
  | zero => cases h
  | succ fuel ih =>
    cases hi : b.code[index]? with
    | none =>
      rw [runBlock_succ, hi] at h
      cases h
      exact nofun
    | some i =>
      rw [runBlock_of_line hi] at h
      have hahead := @dispatch_ahead fuel b index i s
      generalize dispatch standardTable (nestedRunner standardTable fuel) b index i s = result
        at h hahead
      obtain ⟨r, u⟩ := result
      cases r with
      | error e => cases h
      | ok c =>
        rcases Block.next_of_ahead (hahead hcode hi ih rfl) with
          ⟨next, hnext, -⟩ | ⟨o', ho', hwithin⟩
        · simp only [goOn, hnext] at h
          exact ih hcode h target
        · simp only [goOn, ho'] at h
          cases h
          rintro rfl
          exact hwithin

end

/-! ### One more line -/

/-- The block with one more line at its end. -/
def Block.followedBy (b : Block) (last : Instruction) : Block :=
  { b with code := b.code ++ [last] }

section

variable {b : Block} {last : Instruction} (hlast : last.IsNeutral)

include hlast

/-- A scan finds the same with a line at the end that it passes over. -/
theorem scanLayout_followedBy (depth : Nat) (elseAt : Option Nat) (index : Nat)
    (lines : List Instruction) :
    scanLayout depth elseAt index (lines ++ [last]) = scanLayout depth elseAt index lines := by
  induction lines generalizing depth elseAt index with
  | nil => exact scanLayout_neutral depth elseAt index [] hlast
  | cons i lines ih =>
    rw [List.cons_append, scanLayout.eq_def, scanLayout.eq_def depth elseAt index (i :: lines)]
    simp only [ih]

theorem layout?_followedBy {start : Nat} (hstart : start ≤ b.code.length) :
    layout? (b.followedBy last).code start = layout? b.code start := by
  rw [layout?, layout?, Block.followedBy, List.drop_append_of_le_length hstart]
  exact scanLayout_followedBy hlast 0 none start _

end

/-- The line at hand in the block with one more line at its end. -/
def Invocation.followedBy (inv : Invocation) (last : Instruction) : Invocation :=
  { inv with block := inv.block.followedBy last }

section

variable (inv : Invocation) (last : Instruction)

@[simp] theorem Invocation.scope_followedBy : (inv.followedBy last).scope = inv.scope := rfl

@[simp] theorem Invocation.index_followedBy : (inv.followedBy last).index = inv.index := rfl

@[simp] theorem Invocation.operand_followedBy : (inv.followedBy last).operand = inv.operand := rfl

@[simp] theorem Invocation.origin_followedBy :
    (inv.followedBy last).block.origin = inv.block.origin := rfl

end

section

variable {inv : Invocation} {last : Instruction} (hlast : last.IsNeutral)
  (hindex : inv.index < inv.block.code.length)

include hlast hindex

theorem bodyFrom_followedBy :
    bodyFrom (inv.followedBy last).block (inv.index + 1) = bodyFrom inv.block (inv.index + 1) := by
  have hlayout := layout?_followedBy hlast (Nat.succ_le_of_lt hindex)
  rw [bodyFrom, bodyFrom, Invocation.followedBy, hlayout]
  cases hlayout : layout? inv.block.code (inv.index + 1) with
  | none => rfl
  | some layout =>
    have hend : layout.endAt ≤ inv.block.code.length := Nat.le_of_lt (layout?_bounds hlayout).2.1
    simp only [Exec.ofOption_some, pure_bind, Block.followedBy,
      List.take_append_of_le_length hend]

theorem defineFunction_followedBy (header : List Char) :
    defineFunction (inv.followedBy last) header = defineFunction inv header := by
  simp only [defineFunction, Invocation.index_followedBy, Invocation.scope_followedBy,
    bodyFrom_followedBy hlast hindex]

theorem beginCall_followedBy (operand : List Char) (target : Option Target) :
    beginCall (inv.followedBy last) operand target = beginCall inv operand target := by
  have henter : enterCall (inv.followedBy last) = enterCall inv := rfl
  simp only [beginCall, resolveCallee, defineFunction_followedBy hlast hindex, henter,
    Invocation.scope_followedBy, Invocation.origin_followedBy]

theorem beginDeclare_followedBy : beginDeclare (inv.followedBy last) = beginDeclare inv := by
  simp only [beginDeclare, beginCall_followedBy hlast hindex, Invocation.operand_followedBy,
    Invocation.scope_followedBy]

theorem beginConditional_followedBy :
    beginConditional (inv.followedBy last) = beginConditional inv := by
  have hlayout : layout? (inv.followedBy last).block.code (inv.index + 1) =
      layout? inv.block.code (inv.index + 1) := layout?_followedBy hlast (Nat.succ_le_of_lt hindex)
  simp only [beginConditional, Invocation.operand_followedBy, Invocation.scope_followedBy,
    Invocation.index_followedBy, Invocation.origin_followedBy, hlayout]
  congr 1
  funext condition
  cases hfound : layout? inv.block.code (inv.index + 1) with
  | none => rfl
  | some layout =>
    simp only [Exec.ofOption_some, pure_bind]
    cases hchosen : Builtin.chosenBranch (inv.index + 1) layout condition.isTruthy with
    | none => rfl
    | some branch =>
      obtain ⟨first, stop⟩ := branch
      obtain ⟨-, -, hstop, hend⟩ := chosenBranch_bounds hfound hchosen
      have hcode : (inv.followedBy last).block.code.take stop = inv.block.code.take stop :=
        List.take_append_of_le_length (Nat.le_of_lt (Nat.lt_of_le_of_lt hstop hend))
      funext s
      simp only [enterBranch, Block.branch, hcode, Invocation.scope_followedBy,
        Invocation.origin_followedBy]

theorem Builtin.begin_followedBy (k : Builtin) : k.begin (inv.followedBy last) = k.begin inv := by
  cases k with
  | declare => exact beginDeclare_followedBy hlast hindex
  | conditional => exact beginConditional_followedBy hlast hindex
  | function =>
    simp only [Builtin.begin, runFunction, defineFunction_followedBy hlast hindex,
      Invocation.operand_followedBy, Invocation.origin_followedBy]
  | call => exact beginCall_followedBy hlast hindex _ none
  | assign =>
    simp only [Builtin.begin, runAssign, Invocation.operand_followedBy, Invocation.scope_followedBy]
    rfl
  | jump =>
    simp only [Builtin.begin, runJump, Invocation.absolute, Invocation.operand_followedBy,
      Invocation.scope_followedBy, Invocation.origin_followedBy, Invocation.index_followedBy]
    rfl
  | wait =>
    simp only [Builtin.begin, runWait, Invocation.operand_followedBy, Invocation.scope_followedBy]
  | ignore => rfl
  | output =>
    simp only [Builtin.begin, runOutput, Invocation.operand_followedBy, Invocation.scope_followedBy]
    rfl
  | leave =>
    simp only [Builtin.begin, runLeave, Invocation.operand_followedBy, Invocation.scope_followedBy]
    rfl

end

/-- The lines of a block do not see a line behind them. -/
theorem beginLine_followedBy {b : Block} {last : Instruction} (hlast : last.IsNeutral) {index : Nat}
    (hindex : index < b.code.length) (i : Instruction) :
    beginLine standardTable (b.followedBy last) index i = beginLine standardTable b index i := by
  rw [beginLine, beginLine]
  cases h : standardTable.find? i.keyword with
  | none => rfl
  | some handler =>
    obtain ⟨k, -, rfl⟩ := find?_standardTable.1 h
    have hbegin := @Builtin.begin_followedBy ⟨b, index, i.operand, i.line⟩ last hlast hindex k
    simp only [Handler.begin]
    rw [← hbegin]
    rfl

section

variable {b : Block} {last : Instruction}

/-- An answer that stays in a block, or returns, goes on in the same way with a line
behind the block. -/
theorem Block.next_followedBy {index : Nat} (hindex : index < b.code.length) {c : Control}
    (hc : c.Within (Value.BodyIn fun _ => True) (b.Ahead index)) :
    (∃ next ≤ b.code.length,
      b.next index c = .inl next ∧ (b.followedBy last).next index c = .inl next) ∨
    ∃ v, b.next index c = .inr (.returned v) ∧
      (b.followedBy last).next index c = .inr (.returned v) := by
  cases c with
  | next => exact .inl ⟨index + 1, hindex, rfl, rfl⟩
  | goto target =>
    obtain ⟨hlt, hle⟩ : b.Ahead index target := hc
    have hlast : target ≤ b.origin + (b.code ++ [last]).length := by
      rw [List.length_append]
      omega
    refine .inl ⟨target - b.origin, by omega, ?_, ?_⟩
    · exact if_pos ⟨by omega, hle⟩
    · exact if_pos ⟨show b.origin ≤ target by omega, hlast⟩
  | leave v => exact .inr ⟨v, rfl, rfl⟩

/-- With one more line behind it, a block without jumps does the same: it comes to that
line where it would be completed, and ends in the same way otherwise. -/
theorem runBlock_followedBy (hlast : last.IsNeutral) (hcode : NoJumps b.code) {fuel index : Nat}
    (hindex : index ≤ b.code.length) {s t : State} {r : Except Stop Outcome}
    (h : runBlock standardTable fuel b index s = (r, t)) :
    (r = .ok .completed ∧ ∃ rest, runBlock standardTable fuel (b.followedBy last) index s =
      runBlock standardTable (rest + 1) (b.followedBy last) b.code.length t) ∨
    r ≠ .ok .completed ∧ runBlock standardTable fuel (b.followedBy last) index s = (r, t) := by
  induction fuel generalizing index s with
  | zero =>
    cases h
    exact .inr ⟨by rintro ⟨⟩, rfl⟩
  | succ fuel ih =>
    cases hi : b.code[index]? with
    | none =>
      rw [runBlock_succ, hi] at h
      cases h
      obtain rfl : index = b.code.length := Nat.le_antisymm hindex (List.getElem?_eq_none_iff.1 hi)
      exact .inl ⟨rfl, fuel, rfl⟩
    | some i =>
      have hlt : index < b.code.length := (List.getElem?_eq_some_iff.1 hi).1
      have hi' : (b.followedBy last).code[index]? = some i :=
        (List.getElem?_append_left hlt).trans hi
      have hsame : dispatch standardTable (nestedRunner standardTable fuel) (b.followedBy last)
          index i s = dispatch standardTable (nestedRunner standardTable fuel) b index i s := by
        rw [dispatch_of_begun, dispatch_of_begun, beginLine_followedBy hlast hlt]
      rw [runBlock_of_line hi] at h
      rw [runBlock_of_line hi', hsame]
      have hahead := @dispatch_ahead fuel b index i s
      generalize dispatch standardTable (nestedRunner standardTable fuel) b index i s = result
        at h hahead
      obtain ⟨x, u⟩ := result
      cases x with
      | error e =>
        cases h
        exact .inr ⟨by rintro ⟨⟩, rfl⟩
      | ok c =>
        have hc := hahead hcode hi runBlock_ne_escaped rfl
        rcases Block.next_followedBy hlt hc with ⟨next, hle, hnext, hnext'⟩ | ⟨v, hv, hv'⟩
        · simp only [goOn, hnext] at h
          rw [goOn, hnext']
          exact ih hle h
        · simp only [goOn, hv] at h
          rw [goOn, hv']
          cases h
          exact .inr ⟨by rintro ⟨⟩, rfl⟩

end

/-- The error of a block has its line already. -/
theorem runBlock_error_atLine {table : Table Handler} {fuel : Nat} {b : Block} {index : Nat}
    {s t : State} {e : Stop} (h : runBlock table fuel b index s = (.error e, t)) (line : Nat) :
    e.mapError (·.atLine line) = e := by
  induction fuel generalizing index s with
  | zero =>
    cases h
    rfl
  | succ fuel ih =>
    cases hi : b.code[index]? with
    | none =>
      rw [runBlock_succ, hi] at h
      cases h
    | some i =>
      rw [runBlock_of_line hi] at h
      generalize dispatch table (nestedRunner table fuel) b index i s = result at h
      obtain ⟨r, u⟩ := result
      cases r with
      | error e' =>
        cases h
        cases e' with
        | failed e' => exact congrArg Stop.failed (Error.atLine_atLine e' _ _)
        | outOfFuel => rfl
      | ok c =>
        rw [goOn] at h
        cases hn : b.next index c with
        | inl next =>
          rw [hn] at h
          exact ih h
        | inr o =>
          rw [hn] at h
          cases h

end LineScript
