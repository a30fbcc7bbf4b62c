import LineScript.Proofs.Machine.Steps
import LineScript.Proofs.Machine.Values
import LineScript.Proofs.Program.Layout

/-!
# The lines that a run executes

A run executes a program, the branches of its conditionals and the bodies of its
functions. A property of lists of lines that passes from a list to these parts of
it is a property of all lines that are ever executed, because a function keeps a
part of lines that were executed before.

- `Inherited`: a property that passes to branches and bodies.
- `Value.BodyIn`: a value that, if it is a function, has a body with the property.
- `Control.Within`, `Pending.Within`, `Entry.Within`: what a line may answer.
- `keeps_beginLine`: the first part of a line keeps the property of all bound
  functions, and so does what is pending (`Pending.resume_within`).
- `Config.RunsIn`: all lines of a moment of a run have the property; so do those of
  the next one (`Config.RunsIn.step`).
-/

namespace LineScript

/-- A property of lists of lines that passes to the parts of a list that are
executed on their own: the body of a block, and the branch that a condition
chooses. -/
structure Inherited (Q : List Instruction → Prop) : Prop where
  body : ∀ {code : List Instruction} {start : Nat} {layout : Layout}, Q code →
    layout? code start = some layout → Q ((code.take layout.endAt).drop start)
  branch : ∀ {code : List Instruction} {start first stop : Nat} {layout : Layout}
    {condition : Bool}, Q code → layout? code start = some layout →
    Builtin.chosenBranch start layout condition = some (first, stop) →
    Q ((code.take stop).drop first)

namespace Inherited

/-- A property of every line passes to all parts. -/
theorem forall_mem (p : Instruction → Prop) : Inherited fun code => ∀ i ∈ code, p i where
  body h _ i hi := h i (List.mem_of_mem_take (List.mem_of_mem_drop hi))
  branch h _ _ i hi := h i (List.mem_of_mem_take (List.mem_of_mem_drop hi))

/-- Two properties that pass to all parts do so together. -/
theorem and {Q Q' : List Instruction → Prop} (h : Inherited Q) (h' : Inherited Q') :
    Inherited fun code => Q code ∧ Q' code where
  body hcode hlayout := ⟨h.body hcode.1 hlayout, h'.body hcode.2 hlayout⟩
  branch hcode hlayout hchosen :=
    ⟨h.branch hcode.1 hlayout hchosen, h'.branch hcode.2 hlayout hchosen⟩

end Inherited

/-- A value whose body has the property, if it is a function. -/
def Value.BodyIn (Q : List Instruction → Prop) (v : Value) : Prop :=
  ∀ f, v = .function f → Q f.body

theorem Value.bodyIn_of_type {Q : List Instruction → Prop} {v : Value} (h : v.type ≠ .function) :
    v.BodyIn Q := by
  rintro f rfl
  exact absurd rfl h

theorem Value.bodyIn_undefined {Q : List Instruction → Prop} : Value.undefined.BodyIn Q := by
  rintro f ⟨⟩

theorem Value.bodyIn_function {Q : List Instruction → Prop} {f : Function} :
    (Value.function f).BodyIn Q ↔ Q f.body := by
  constructor
  · intro h
    exact h f rfl
  · rintro h g hg
    obtain rfl := Value.function.inj hg
    exact h

/-! ### What a line may answer -/

/-- An answer that goes to a position with a property, if it goes to a position,
and gives a value with a property, if it gives a value. -/
def Control.Within (P : Value → Prop) (G : Nat → Prop) : Control → Prop
  | .next => True
  | .goto target => G target
  | .leave v => P v

theorem Control.Plain.within {P : Value → Prop} {G : Nat → Prop} {c : Control} (h : c.Plain P) :
    c.Within P G := by
  cases c with
  | next => trivial
  | goto => exact h.elim
  | leave => exact h

/-- What is left to do after a block goes on at a position with the property. -/
def Pending.Within (P : Value → Prop) (G : Nat → Prop) : Pending → Prop
  | .branch _ endTarget => G endTarget
  | .call _ _ _ _ after => after.Within P G

/-- A line executes a branch only if it is a conditional, and the body of a
function only if it makes a call. -/
def Pending.Suits (i : Instruction) : Pending → Prop
  | .branch .. => i.keyword = ifKeyword
  | .call .. => ∃ operand, i.callOperand? = some operand

/-- The first part of the line `i` ends in one of the answers described, or with a
block that has the property and suits the line. -/
def Entry.Within (Q : List Instruction → Prop) (G : Nat → Prop) (i : Instruction) : Entry → Prop
  | .finished c => c.Within (Value.BodyIn Q) G
  | .opens inner p => Q inner.code ∧ p.Within (Value.BodyIn Q) G ∧ p.Suits i

/-! ### The first part of a line -/

namespace Exec

variable {α β : Type} {P : Value → Prop}

theorem Keeps.imp {Q Q' : α → Prop} {x : Exec α} (h : Keeps P Q x) (himp : ∀ a, Q a → Q' a) :
    Keeps P Q' x :=
  fun s hs => ⟨(h s hs).1, fun a ha => himp a ((h s hs).2 a ha)⟩

theorem Keeps.freshId : Keeps P (fun _ => True) freshId :=
  fun _ hs => ⟨hs, fun _ _ => trivial⟩

theorem Keeps.ofOption {Q : α → Prop} (c : Cause) {o : Option α} (h : ∀ a, o = some a → Q a) :
    Keeps P Q (ofOption c o) := by
  cases o with
  | some a => exact .pure (h a rfl)
  | none => exact .fail Q c

end Exec

section

open Exec

variable {Q : List Instruction → Prop} {G : Nat → Prop} {b : Block} {index : Nat}
  {i : Instruction} {inv : Invocation}

/-- After binding the result of a call a line goes on as the call says. -/
theorem keeps_bindResult_within (scope : ScopeId) (target : Option Target) {v : Value}
    {after : Control} (hv : v.BodyIn Q) (hafter : after.Within (Value.BodyIn Q) G) :
    Keeps (Value.BodyIn Q) (Control.Within (Value.BodyIn Q) G)
      (bindResult scope target (v, after)) := by
  cases target with
  | none => exact .pure hafter
  | some target => exact .bind (keeps_bindTarget scope target hv) fun _ _ => .pure hafter

theorem keeps_runJump (hG : ∀ target, G target) :
    Keeps (Value.BodyIn Q) (Control.Within (Value.BodyIn Q) G) (Builtin.runJump inv) :=
  Builtin.runJump_of (fun target => .pure (hG target)) (fun _ => .fail _ _) (.pure trivial)
    fun _ hf => .bind (keeps_evaluate (fun _ => Value.bodyIn_of_type) _ _) fun v _ => hf v

variable (hQ : Inherited Q) (hcode : Q inv.block.code)
  (hG : ∀ layout, layout? inv.block.code (inv.index + 1) = some layout →
    G (inv.block.origin + layout.endAt + 1))

include hQ hcode hG

/-- A function that a line defines has the lines of a block as its body. -/
theorem keeps_defineFunction (header : List Char) :
    Keeps (Value.BodyIn Q) (fun r => Q r.1.body ∧ G (inv.block.origin + r.2 + 1))
      (defineFunction inv header) := by
  rw [defineFunction]
  cases (Text.words header).map String.ofList with
  | nil => exact .fail _ _
  | cons name params =>
    have hbody : Keeps (Value.BodyIn Q) (fun r => Q r.1 ∧ G (inv.block.origin + r.2 + 1))
        (bodyFrom inv.block (inv.index + 1)) :=
      .bind (.ofOption _ fun _ h => h) fun layout hlayout =>
        .pure ⟨hQ.body hcode hlayout, hG layout hlayout⟩
    refine .bind hbody fun r hr => .bind .freshId fun id _ => ?_
    dsimp only
    split
    · exact .bind (keeps_declare _ _ (Value.bodyIn_function.2 hr.1)) fun _ _ => .pure hr
    · exact .pure hr

theorem keeps_resolveCallee (callee : List Char) :
    Keeps (Value.BodyIn Q) (fun r => Q r.1.body ∧ r.2.Within (Value.BodyIn Q) G)
      (resolveCallee inv callee) := by
  rw [resolveCallee]
  split
  · exact .bind (keeps_defineFunction hQ hcode hG _) fun r hr => .pure hr
  · exact .bind (keeps_lookupFunction _ _) fun f hf =>
      .pure ⟨Value.bodyIn_function.1 hf, trivial⟩

omit hQ hcode hG in
theorem keeps_enterCall (hcall : ∃ operand, i.callOperand? = some operand) {f : Function}
    {values : List Value} (target : Option Target) {after : Control} (hf : Q f.body)
    (hvalues : ∀ v ∈ values, v.BodyIn Q) (hafter : after.Within (Value.BodyIn Q) G) :
    Keeps (Value.BodyIn Q) (Entry.Within Q G i) (enterCall inv f values target after) := by
  intro s hs
  rw [enterCall]
  cases s.calls.push ⟨f.label, some inv.line⟩ with
  | error cause => exact Keeps.fail _ cause s hs
  | ok calls =>
    refine ⟨(hs.child _).bindAll _ fun p hp => hvalues p.2 (List.of_mem_zip hp).2, ?_⟩
    rintro entry hentry
    obtain rfl := Except.ok.inj hentry
    exact ⟨hf, hafter, hcall⟩

theorem keeps_beginCall (hcall : ∃ operand, i.callOperand? = some operand) (operand : List Char)
    (target : Option Target) :
    Keeps (Value.BodyIn Q) (Entry.Within Q G i) (beginCall inv operand target) := by
  refine .bind (.ofExcept (Q := fun _ => True) fun _ _ => trivial) fun callees _ => ?_
  cases callees with
  | nil => exact .fail _ _
  | cons callee args =>
    exact .bind (keeps_resolveCallee hQ hcode hG callee) fun r hr =>
      .bind (keeps_argumentValues Value.bodyIn_undefined _ fun _ _ =>
          keeps_evaluate (fun _ => Value.bodyIn_of_type) _ _) fun values hvalues =>
        keeps_enterCall hcall target hr.1 hvalues hr.2

theorem keeps_beginDeclare
    (hcall : ∀ operand,
      stripKeyword? (splitDeclaration inv.operand.toList).2 callKeyword = some operand →
        i.callOperand? = some operand) :
    Keeps (Value.BodyIn Q) (Entry.Within Q G i) (beginDeclare inv) := by
  simp only [beginDeclare]
  split
  · exact .fail _ _
  · split
    · exact .bind (keeps_bindTarget _ _ Value.bodyIn_undefined) fun _ _ => .pure trivial
    · cases hvalue : stripKeyword? (splitDeclaration inv.operand.toList).2 callKeyword with
      | some operand => exact keeps_beginCall hQ hcode hG ⟨operand, hcall operand hvalue⟩ _ _
      | none =>
        exact .bind (keeps_evaluate (fun _ => Value.bodyIn_of_type) _ _) fun v hv =>
          .bind (keeps_bindTarget _ _ hv) fun _ _ => .pure trivial

theorem keeps_beginConditional (hif : i.keyword = ifKeyword) :
    Keeps (Value.BodyIn Q) (Entry.Within Q G i) (beginConditional inv) := by
  refine .bind (keeps_evaluate (fun _ => Value.bodyIn_of_type) _ _) fun condition _ =>
    .bind (.ofOption _ fun _ h => h) fun layout hlayout => ?_
  dsimp only
  cases hchosen : Builtin.chosenBranch (inv.index + 1) layout condition.isTruthy with
  | none => exact .pure (hG layout hlayout)
  | some branch =>
    intro s hs
    refine ⟨hs.child _, ?_⟩
    rintro entry hentry
    obtain rfl := Except.ok.inj hentry
    exact ⟨hQ.branch hcode hlayout hchosen, hG layout hlayout, hif⟩

end

section

open Exec

variable {Q : List Instruction → Prop} {G : Nat → Prop} {b : Block} {index : Nat}
  {i : Instruction}

/-- A line that executes no block. -/
theorem keeps_finished {x : Exec Control}
    (h : Keeps (Value.BodyIn Q) (Control.Within (Value.BodyIn Q) G) x) :
    Keeps (Value.BodyIn Q) (Entry.Within Q G i) (do return .finished (← x)) :=
  .bind h fun _ hc => .pure hc

theorem Builtin.keeps_begin (hQ : Inherited Q) (hcode : Q b.code)
    (hG : ∀ layout, layout? b.code (index + 1) = some layout → G (b.origin + layout.endAt + 1))
    {k : Builtin} (hk : (i.keyword, k) ∈ Builtin.words)
    (hjump : k = .jump → ∀ target, G target) :
    Keeps (Value.BodyIn Q) (Entry.Within Q G i) (k.begin ⟨b, index, i.operand, i.line⟩) := by
  have hP : ∀ v : Value, v.type ≠ .function → v.BodyIn Q := fun _ => Value.bodyIn_of_type
  have hplain : ∀ c : Control, c.Plain (Value.BodyIn Q) → c.Within (Value.BodyIn Q) G :=
    fun _ => Control.Plain.within
  have hword := Builtin.eq_word hk
  cases k with
  | declare =>
    rw [Builtin.begin]
    refine keeps_beginDeclare hQ hcode hG fun operand hvalue => ?_
    rw [Instruction.callOperand?_declare hword, ← Instruction.toList_operand]
    exact hvalue
  | assign => exact keeps_finished ((keeps_runAssign fun _ _ => keeps_evaluate hP _ _).imp hplain)
  | jump => exact keeps_finished (keeps_runJump (hjump rfl))
  | wait => exact keeps_finished ((keeps_runWait hP _).imp hplain)
  | conditional => exact keeps_beginConditional hQ hcode hG hword
  | ignore => exact .pure trivial
  | output => exact keeps_finished ((keeps_runOutput hP _).imp hplain)
  | function =>
    exact keeps_finished (.bind (keeps_defineFunction hQ hcode hG _) fun _ hr => .pure hr.2)
  | call =>
    refine keeps_beginCall hQ hcode hG ⟨i.operandChars, ?_⟩ _ _
    rw [Instruction.callOperand?, if_pos (show i.keyword = callKeyword from hword)]
  | leave => exact keeps_finished ((keeps_runLeave hP _).imp hplain)

/-- **What a line leaves behind.** When the lines of a block have an inherited
property and all bound functions have bodies with it, then this is so after the
first part of a line, and the block that the line enters has the property. The
line goes to a position only if it is a jump, or the position is the one after
the `END` of its block. -/
theorem keeps_beginLine (hQ : Inherited Q) (hcode : Q b.code)
    (hG : ∀ layout, layout? b.code (index + 1) = some layout → G (b.origin + layout.endAt + 1))
    (hjump : i.keyword = "JUMP" → ∀ target, G target) :
    Keeps (Value.BodyIn Q) (Entry.Within Q G i) (beginLine standardTable b index i) := by
  rw [beginLine]
  cases h : standardTable.find? i.keyword with
  | none => exact .fail _ _
  | some handler =>
    obtain ⟨k, hk, rfl⟩ := find?_standardTable.1 h
    refine .bind keeps_tick fun _ _ => Builtin.keeps_begin hQ hcode hG hk ?_
    rintro rfl
    exact hjump (Builtin.eq_word hk)

/-! ### The end of a line -/

/-- A block that ended with a value in which every body has the property, or goes
to a position with the property. -/
def Outcome.Within (P : Value → Prop) (G : Nat → Prop) (o : Outcome) : Prop :=
  o.control.Within P G

theorem Outcome.callValue_bodyIn {o : Outcome} (h : o.Within (Value.BodyIn Q) G) :
    o.callValue.BodyIn Q := by
  cases o with
  | completed | escaped => exact Value.bodyIn_undefined
  | returned v => exact h

theorem afterBranch_within {o : Outcome} {endTarget : Nat} (hend : G endTarget)
    (h : o.Within (Value.BodyIn Q) G) :
    (Builtin.afterBranch endTarget o).Within (Value.BodyIn Q) G := by
  cases o with
  | completed => exact hend
  | escaped target => exact h
  | returned v => exact h

/-- When the block of a line has ended, what is left to do keeps the property and
goes on as the line says. -/
theorem Pending.resume_within {p : Pending} (hp : p.Within (Value.BodyIn Q) G) {s : State}
    (hs : s.env.AllValues (Value.BodyIn Q)) {r : Except Stop Outcome} {G' : Nat → Prop}
    (hr : ∀ o, r = .ok o → o.Within (Value.BodyIn Q) G')
    (hescape : ∀ target, G' target → G target) :
    (p.resume r s).2.env.AllValues (Value.BodyIn Q) ∧
      ∀ c, (p.resume r s).1 = .ok c → c.Within (Value.BodyIn Q) G := by
  have hwiden : ∀ o : Outcome, o.Within (Value.BodyIn Q) G' → o.Within (Value.BodyIn Q) G := by
    intro o ho
    cases o with
    | completed => trivial
    | escaped target => exact hescape target ho
    | returned v => exact ho
  cases p with
  | branch depth endTarget =>
    refine ⟨hs.release _, fun c hc => ?_⟩
    obtain ⟨o, ho, rfl⟩ := map_eq_ok.1 hc
    exact afterBranch_within hp (hwiden o (hr o ho))
  | call f depth scope target after =>
    cases r with
    | error e => exact ⟨hs.release _, nofun⟩
    | ok o =>
      exact keeps_bindResult_within scope target (Outcome.callValue_bodyIn (hr o rfl)) hp
        ((Pending.call f depth scope target after).close s) (hs.release _)

/-- A block that is left by an answer of a line ends as that answer says. -/
theorem Block.next_within {P : Value → Prop} {c : Control} {o : Outcome} (hc : c.Within P G)
    (h : b.next index c = .inr o) : o.Within P G := by
  cases c with
  | next => cases h
  | goto target =>
    rw [Block.next] at h
    split at h
    · cases h
    · split at h
      · obtain rfl := Sum.inr.inj h
        exact hc
      · obtain rfl := Sum.inr.inj h
        trivial
  | leave v =>
    obtain rfl := Sum.inr.inj h
    exact hc

end

/-! ### Every moment of a run -/

/-- A line that waits is the one at its position, and suits what it waits for. -/
def Suspended.Stands (w : Suspended) : Prop :=
  ∃ i, w.block.code[w.index]? = some i ∧ i.line = w.line ∧ w.pending.Suits i

/-- A line that waits stands in a block with the property. -/
structure Suspended.RunsIn (Q : List Instruction → Prop) (w : Suspended) : Prop where
  code : Q w.block.code
  pending : w.pending.Within (Value.BodyIn Q) fun _ => True
  stands : w.Stands

/-- The blocks of a moment have the property, and so have the bodies of all
functions that are bound, given back or called. -/
def Config.RunsIn (Q : List Instruction → Prop) : Config → Prop
  | running b _ outer s =>
    Q b.code ∧ (∀ w ∈ outer, w.RunsIn Q) ∧ s.env.AllValues (Value.BodyIn Q)
  | answered b _ _ outer r s =>
    Q b.code ∧ (∀ w ∈ outer, w.RunsIn Q) ∧ s.env.AllValues (Value.BodyIn Q) ∧
      ∀ c, r = .ok c → c.Within (Value.BodyIn Q) fun _ => True
  | ended outer r s =>
    (∀ w ∈ outer, w.RunsIn Q) ∧ s.env.AllValues (Value.BodyIn Q) ∧
      ∀ o, r = .ok o → o.Within (Value.BodyIn Q) fun _ => True

section

variable {Q : List Instruction → Prop}

/-- Every step stays with lines that have an inherited property. -/
theorem Config.RunsIn.step (hQ : Inherited Q) (c : Config) (h : c.RunsIn Q) : c.step.RunsIn Q := by
  cases c with
  | running b index outer s =>
    obtain ⟨hcode, houter, hs⟩ := h
    simp only [Config.step]
    cases hi : b.code[index]? with
    | none => exact ⟨houter, hs, fun o ho => Except.ok.inj ho ▸ trivial⟩
    | some i =>
      have hbegin : Exec.Keeps (Value.BodyIn Q) (Entry.Within Q (fun _ => True) i)
          (beginLine standardTable b index i) :=
        keeps_beginLine hQ hcode (fun _ _ => trivial) fun _ _ => trivial
      have hbegin := hbegin s hs
      dsimp only
      generalize beginLine standardTable b index i s = begun at hbegin
      obtain ⟨r, t⟩ := begun
      obtain ⟨ht, hr⟩ := hbegin
      cases r with
      | error e => exact ⟨hcode, houter, ht, by rintro c ⟨⟩⟩
      | ok entry =>
        cases entry with
        | finished control =>
          exact ⟨hcode, houter, ht, fun c hc => Except.ok.inj hc ▸ hr _ rfl⟩
        | opens inner pending =>
          obtain ⟨hinner, hpending, hsuits⟩ := hr _ rfl
          refine ⟨hinner, fun w hw => ?_, ht⟩
          rcases List.mem_cons.1 hw with rfl | hw
          · exact ⟨hcode, hpending, i, hi, rfl, hsuits⟩
          · exact houter w hw
  | answered b index line outer r s =>
    obtain ⟨hcode, houter, hs, hr⟩ := h
    simp only [Config.step]
    cases r with
    | error e => exact ⟨houter, hs, by rintro o ⟨⟩⟩
    | ok control =>
      dsimp only
      cases hnext : b.next index control with
      | inl next => exact ⟨hcode, houter, hs⟩
      | inr outcome =>
        exact ⟨houter, hs, fun o ho => Except.ok.inj ho ▸ Block.next_within (hr _ rfl) hnext⟩
  | ended outer r s =>
    cases outer with
    | nil => exact h
    | cons w outer =>
      obtain ⟨houter, hs, hr⟩ := h
      have hw := houter w List.mem_cons_self
      obtain ⟨ht, hanswer⟩ := Pending.resume_within hw.pending hs hr fun _ h => h
      exact ⟨hw.code, fun w' hw' => houter w' (List.mem_cons_of_mem w hw'), ht, hanswer⟩

/-- An interpreter that has not run anything runs a program with the property. -/
theorem Interpreter.runsIn_start (limit : Nat) (sink : Sink) {p : Program}
    (h : Q p.instructions) : ((Interpreter.new limit sink []).start p).RunsIn Q :=
  ⟨h, nofun, Environment.allValues_initialState (fun _ => Value.bodyIn_of_type) limit sink⟩

end

end LineScript
