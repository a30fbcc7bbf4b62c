import LineScript.Expr.Evaluate
import LineScript.Machine.Builtin

/-!
# Structured programs

A program without jumps is a tree: lines, conditionals with their branches, and
functions with their bodies. Its instructions are the lines of the tree from top
to bottom, and scanning them for `ELSE` and `END` finds the parts of the tree.

- `PlainLine`, `NamedCall`, `InlineCall`, `KeywordLine`: the lines of a program,
  each with the proof that it is of its kind.
- `Structured`, `Structured.flatten`: a structured program and its instructions.
- `Structured.passedFrom_flatten`: a scan passes over a whole program.
- `Structured.layout?_body`, `Structured.layout?_branches`: the layout of a block.
- `Structured.flatten_injective`: the instructions determine the program.
-/

namespace LineScript

/-! ### Lines -/

/-- A line with a given keyword. -/
structure KeywordLine (k : String) where
  line : Instruction
  keyword_eq : line.keyword = k

/-- A line that executes no other line: a declaration whose value is no call, an
assignment, a wait, an output, an ignored line, or a return. -/
structure PlainLine where
  line : Instruction
  keyword : Builtin
  word : (line.keyword, keyword) ∈ Builtin.words
  plain : keyword ∈ [Builtin.declare, .assign, .wait, .output, .ignore, .leave]
  noCall : line.callOperand? = none

/-- A line that calls a function by its name. Neither the scan for blocks nor the
call itself takes the line for one that defines its function. -/
structure NamedCall where
  line : Instruction
  operand : List Char
  call : line.callOperand? = some operand
  opensNoBlock : line.definesInline = false
  named : ∀ callee args, Expr.splitArguments operand = .ok (callee :: args) →
    inlineHeader? callee = none

/-- A line that calls a function that it defines. Both the scan for blocks and
the call itself take the line for one that defines its function. -/
structure InlineCall where
  line : Instruction
  operand : List Char
  callee : List Char
  args : List (List Char)
  header : List Char
  call : line.callOperand? = some operand
  opensBlock : line.definesInline = true
  arguments : Expr.splitArguments operand = .ok (callee :: args)
  inline : inlineHeader? callee = some header

/-- A call of a function with one parameter that the line itself defines. -/
example : ∃ l : InlineCall, l.line = ⟨"DECLARE y = CALL (FUNC _ x) 1", 1⟩ :=
  ⟨⟨_, _, _, _, _, rfl, rfl, rfl, rfl⟩, rfl⟩

/-- A program without jumps. Blocks are given by their first line, their parts
and their last line; what follows a line or a block is `rest`. -/
inductive Structured where
  | nil
  | plain (l : PlainLine) (rest : Structured)
  | call (l : NamedCall) (rest : Structured)
  | branch (head : KeywordLine ifKeyword) (body : Structured) (last : KeywordLine endKeyword)
      (rest : Structured)
  | choice (head : KeywordLine ifKeyword) (body : Structured) (mid : KeywordLine elseKeyword)
      (other : Structured) (last : KeywordLine endKeyword) (rest : Structured)
  | define (head : KeywordLine functionKeyword) (body : Structured)
      (last : KeywordLine endKeyword) (rest : Structured)
  | inline (head : InlineCall) (body : Structured) (last : KeywordLine endKeyword)
      (rest : Structured)

/-- The instructions of a program. -/
def Structured.flatten : Structured → List Instruction
  | nil => []
  | plain l rest => l.line :: rest.flatten
  | call l rest => l.line :: rest.flatten
  | branch head body last rest => head.line :: (body.flatten ++ last.line :: rest.flatten)
  | choice head body mid other last rest =>
    head.line :: (body.flatten ++ mid.line :: (other.flatten ++ last.line :: rest.flatten))
  | define head body last rest => head.line :: (body.flatten ++ last.line :: rest.flatten)
  | inline head body last rest => head.line :: (body.flatten ++ last.line :: rest.flatten)

/-! ### The part of a line in the block structure -/

namespace Instruction

variable {i : Instruction}

theorem toList_operand (i : Instruction) : i.operand.toList = i.operandChars :=
  String.toList_ofList

/-- Only lines that call or declare make calls. -/
theorem keyword_of_callOperand? {operand : List Char} (h : i.callOperand? = some operand) :
    i.keyword = callKeyword ∨ i.keyword = declareKeyword := by
  rw [callOperand?] at h
  split at h
  · next hk => exact .inl hk
  · split at h
    · next hk => exact .inr hk
    · cases h

theorem definesInline_of_noCall (h : i.callOperand? = none) : i.definesInline = false := by
  rw [definesInline, h]
  rfl

/-- A line that neither calls nor declares makes no call. -/
theorem callOperand?_eq_none (hcall : i.keyword ≠ callKeyword)
    (hdeclare : i.keyword ≠ declareKeyword) : i.callOperand? = none := by
  rw [callOperand?, if_neg hcall, if_neg hdeclare]

/-- The call of a declaration is the call that its value is. -/
theorem callOperand?_declare (h : i.keyword = declareKeyword) :
    i.callOperand? = stripKeyword? (splitDeclaration i.operandChars).2 callKeyword := by
  have hk : i.keyword ≠ callKeyword := by
    rw [h]
    decide
  rw [callOperand?, if_neg hk, if_pos h, splitDeclaration]
  cases Text.cutAt (· = '=') i.operandChars <;> rfl

/-- A declaration that makes a call has a value. -/
theorem isEmpty_splitDeclaration {operand : List Char} (hk : i.keyword = declareKeyword)
    (hcall : i.callOperand? = some operand) :
    (splitDeclaration i.operandChars).2.isEmpty = false := by
  rw [callOperand?_declare hk] at hcall
  cases hvalue : (splitDeclaration i.operandChars).2 with
  | nil =>
    rw [hvalue] at hcall
    cases hcall
  | cons => rfl

/-- A line that the scan for blocks passes over. -/
structure IsNeutral (i : Instruction) : Prop where
  opensBlock : i.opensBlock = false
  closesBlock : i.closesBlock = false
  isElse : i.isElse = false

/-- A line is passed over if its keyword is none of the block structure and it
defines no function. -/
theorem isNeutral (hif : i.keyword ≠ ifKeyword) (hfunc : i.keyword ≠ functionKeyword)
    (helse : i.keyword ≠ elseKeyword) (hend : i.keyword ≠ endKeyword)
    (hinline : i.definesInline = false) : i.IsNeutral where
  opensBlock := by simp [opensBlock, hif, hfunc, hinline]
  closesBlock := by simp [closesBlock, hend]
  isElse := by simp [isElse, helse]

end Instruction

theorem PlainLine.isNeutral (l : PlainLine) : l.line.IsNeutral := by
  have hwords : ∀ p ∈ Builtin.words,
      p.2 ∈ [Builtin.declare, .assign, .wait, .output, .ignore, .leave] →
        p.1 ≠ ifKeyword ∧ p.1 ≠ functionKeyword ∧ p.1 ≠ elseKeyword ∧ p.1 ≠ endKeyword := by
    decide
  obtain ⟨hif, hfunc, helse, hend⟩ := hwords _ l.word l.plain
  exact Instruction.isNeutral hif hfunc helse hend (Instruction.definesInline_of_noCall l.noCall)

/-- The value of a plain declaration is no call. -/
theorem PlainLine.value_noCall (l : PlainLine) (h : l.keyword = .declare) :
    stripKeyword? (splitDeclaration l.line.operandChars).2 callKeyword = none := by
  have hwords : ∀ p ∈ Builtin.words, p.2 = .declare → p.1 = declareKeyword := by decide
  rw [← Instruction.callOperand?_declare (hwords _ l.word h), l.noCall]

theorem NamedCall.isNeutral (l : NamedCall) : l.line.IsNeutral := by
  rcases Instruction.keyword_of_callOperand? l.call with hk | hk
  all_goals
    refine Instruction.isNeutral ?_ ?_ ?_ ?_ l.opensNoBlock
    all_goals
      rw [hk]
      decide

theorem InlineCall.opens (l : InlineCall) : l.line.opensBlock = true := by
  simp [Instruction.opensBlock, l.opensBlock]

namespace KeywordLine

variable {k : String} (l : KeywordLine k)

theorem opensBlock (hk : k = ifKeyword ∨ k = functionKeyword) : l.line.opensBlock = true := by
  simp [Instruction.opensBlock, l.keyword_eq, hk]

theorem opensNoBlock (hk : k ∉ [ifKeyword, functionKeyword, callKeyword, declareKeyword]) :
    l.line.opensBlock = false := by
  simp only [List.mem_cons, List.not_mem_nil, or_false, not_or] at hk
  obtain ⟨hif, hfunc, hcall, hdeclare⟩ := hk
  have hnone : l.line.callOperand? = none := by
    refine Instruction.callOperand?_eq_none ?_ ?_
    · rwa [l.keyword_eq]
    · rwa [l.keyword_eq]
  simp [Instruction.opensBlock, Instruction.definesInline_of_noCall hnone, l.keyword_eq, hif,
    hfunc]

end KeywordLine

theorem KeywordLine.closes_end (l : KeywordLine endKeyword) : l.line.closesBlock = true := by
  simp [Instruction.closesBlock, l.keyword_eq]

theorem KeywordLine.closes_else (l : KeywordLine elseKeyword) : l.line.closesBlock = false := by
  rw [Instruction.closesBlock, l.keyword_eq]
  decide

theorem KeywordLine.isElse_else (l : KeywordLine elseKeyword) : l.line.isElse = true := by
  simp [Instruction.isElse, l.keyword_eq]

/-! ### Scanning a program -/

section

variable {i : Instruction} (depth : Nat) (elseAt : Option Nat) (index : Nat)
  (lines : List Instruction)

theorem scanLayout_neutral (h : i.IsNeutral) :
    scanLayout depth elseAt index (i :: lines) = scanLayout depth elseAt (index + 1) lines := by
  rw [scanLayout.eq_def]
  simp [h.opensBlock, h.closesBlock, h.isElse]

theorem scanLayout_opens (h : i.opensBlock = true) :
    scanLayout depth elseAt index (i :: lines) =
      scanLayout (depth + 1) elseAt (index + 1) lines := by
  rw [scanLayout.eq_def]
  simp [h]

/-- An `END` closes the innermost open block. -/
theorem scanLayout_end_inner (l : KeywordLine endKeyword) :
    scanLayout (depth + 1) elseAt index (l.line :: lines) =
      scanLayout depth elseAt (index + 1) lines := by
  rw [scanLayout.eq_def]
  simp [l.opensNoBlock (by decide), l.closes_end]

/-- When no other block is open, an `END` is the one that is sought. -/
theorem scanLayout_end (l : KeywordLine endKeyword) :
    scanLayout 0 elseAt index (l.line :: lines) = some ⟨elseAt, index⟩ := by
  rw [scanLayout.eq_def]
  simp [l.opensNoBlock (by decide), l.closes_end]

/-- An `ELSE` of an inner block is passed over. -/
theorem scanLayout_else_inner (l : KeywordLine elseKeyword) :
    scanLayout (depth + 1) elseAt index (l.line :: lines) =
      scanLayout (depth + 1) elseAt (index + 1) lines := by
  rw [scanLayout.eq_def]
  simp [l.opensNoBlock (by decide), l.closes_else]

theorem scanLayout_else (l : KeywordLine elseKeyword) :
    scanLayout 0 none index (l.line :: lines) = scanLayout 0 (some index) (index + 1) lines := by
  rw [scanLayout.eq_def]
  simp [l.opensNoBlock (by decide), l.closes_else, l.isElse_else]

end

/-- A scan passes over the lines, if at least `d` blocks are open inside the one
whose end is sought. -/
def PassedFrom (d : Nat) (code : List Instruction) : Prop :=
  ∀ depth, d ≤ depth → ∀ elseAt index lines,
    scanLayout depth elseAt index (code ++ lines) =
      scanLayout depth elseAt (index + code.length) lines

namespace PassedFrom

variable {d : Nat} {code code' : List Instruction}

theorem nil : PassedFrom d [] :=
  fun _ _ _ _ _ => rfl

theorem append (h : PassedFrom d code) (h' : PassedFrom d code') : PassedFrom d (code ++ code') := by
  intro depth hd elseAt index lines
  rw [List.append_assoc, h depth hd, h' depth hd, List.length_append, Nat.add_assoc]

theorem weaken {e : Nat} (h : PassedFrom d code) (hde : d ≤ e) : PassedFrom e code :=
  fun depth hd => h depth (Nat.le_trans hde hd)

theorem neutral {i : Instruction} (h : i.IsNeutral) : PassedFrom d [i] :=
  fun depth _ elseAt index lines => scanLayout_neutral depth elseAt index lines h

/-- An `ELSE` is passed over inside a block. -/
theorem inner_else (l : KeywordLine elseKeyword) : PassedFrom 1 [l.line] := by
  intro depth hd elseAt index lines
  obtain ⟨depth, rfl⟩ : ∃ n, depth = n + 1 := ⟨depth - 1, by omega⟩
  exact scanLayout_else_inner depth elseAt index lines l

/-- A block is passed over if its lines are, with one more block open. -/
theorem block {head : Instruction} (last : KeywordLine endKeyword) (hhead : head.opensBlock = true)
    (h : PassedFrom 1 code) : PassedFrom 0 (head :: (code ++ [last.line])) := by
  intro depth _ elseAt index lines
  rw [List.cons_append, scanLayout_opens _ _ _ _ hhead, List.append_assoc,
    h (depth + 1) (Nat.le_add_left 1 depth), List.singleton_append, scanLayout_end_inner]
  congr 1
  simp only [List.length_cons, List.length_append, List.length_nil]
  omega

end PassedFrom

namespace Structured

/-- A scan passes over a whole program: the blocks in it are closed in it, and
each `ELSE` belongs to one of them. -/
theorem passedFrom_flatten (p : Structured) : PassedFrom 0 p.flatten := by
  -- a block and what follows it
  have hblock : ∀ {head : Instruction} {code rest : List Instruction}
      (last : KeywordLine endKeyword), head.opensBlock = true → PassedFrom 1 code →
      PassedFrom 0 rest → PassedFrom 0 (head :: (code ++ last.line :: rest)) := by
    intro head code rest last hhead hcode hrest
    have h := (PassedFrom.block last hhead hcode).append hrest
    rwa [List.cons_append, List.append_assoc, List.singleton_append] at h
  induction p with
  | nil => exact .nil
  | plain l rest ih => exact (PassedFrom.neutral l.isNeutral).append ih
  | call l rest ih => exact (PassedFrom.neutral l.isNeutral).append ih
  | branch head body last rest ihbody ihrest =>
    exact hblock last (head.opensBlock (.inl rfl)) (ihbody.weaken (Nat.zero_le 1)) ihrest
  | choice head body mid other last rest ihbody ihother ihrest =>
    -- inside the block the line between its branches is one of an inner block
    have hcode := ((ihbody.weaken (Nat.zero_le 1)).append (.inner_else mid)).append
      (ihother.weaken (Nat.zero_le 1))
    have h := hblock last (head.opensBlock (.inl rfl)) hcode ihrest
    rw [List.append_assoc, List.append_assoc, List.singleton_append] at h
    exact h
  | define head body last rest ihbody ihrest =>
    exact hblock last (head.opensBlock (.inr rfl)) (ihbody.weaken (Nat.zero_le 1)) ihrest
  | inline head body last rest ihbody ihrest =>
    exact hblock last head.opens (ihbody.weaken (Nat.zero_le 1)) ihrest

/-! ### The layout of a block -/

section

variable {code lines : List Instruction} {start : Nat} {body other : Structured}
  {mid : KeywordLine elseKeyword} {last : KeywordLine endKeyword}

/-- The layout of a block without an `ELSE`. -/
theorem layout?_body (h : code.drop start = body.flatten ++ last.line :: lines) :
    layout? code start = some ⟨none, start + body.flatten.length⟩ := by
  rw [layout?, h, body.passedFrom_flatten 0 (Nat.le_refl 0), scanLayout_end]

/-- The layout of a block with two branches. -/
theorem layout?_branches
    (h : code.drop start =
      body.flatten ++ mid.line :: (other.flatten ++ last.line :: lines)) :
    layout? code start = some ⟨some (start + body.flatten.length),
      start + body.flatten.length + 1 + other.flatten.length⟩ := by
  rw [layout?, h, body.passedFrom_flatten 0 (Nat.le_refl 0), scanLayout_else,
    other.passedFrom_flatten 0 (Nat.le_refl 0), scanLayout_end]

end

/-- The lines up to a position are the first of those that remain. -/
theorem drop_take_of_drop {code part lines : List Instruction} {start : Nat}
    (h : code.drop start = part ++ lines) :
    (code.take (start + part.length)).drop start = part := by
  rw [List.drop_take, h, Nat.add_sub_cancel_left, List.take_left]

/-- The lines that remain after some of those that remain. -/
theorem drop_add_of_drop {code part lines : List Instruction} {start : Nat} {i : Instruction}
    (h : code.drop start = part ++ i :: lines) :
    code.drop (start + part.length + 1) = lines := by
  rw [Nat.add_assoc, ← List.drop_drop, h, ← List.drop_drop, List.drop_left, List.drop_one,
    List.tail_cons]

end Structured

/-! ### The instructions determine the program -/

theorem KeywordLine.ext_line {k : String} {l m : KeywordLine k} (h : l.line = m.line) : l = m := by
  obtain ⟨line, _⟩ := l
  obtain ⟨line', _⟩ := m
  obtain rfl : line = line' := h
  rfl

theorem PlainLine.ext_line {l m : PlainLine} (h : l.line = m.line) : l = m := by
  have hwords : ∀ p ∈ Builtin.words, ∀ q ∈ Builtin.words, p.1 = q.1 → p.2 = q.2 := by decide
  obtain ⟨line, keyword, hword, _, _⟩ := l
  obtain ⟨line', keyword', hword', _, _⟩ := m
  obtain rfl : line = line' := h
  obtain rfl : keyword = keyword' := hwords _ hword _ hword' rfl
  rfl

theorem NamedCall.ext_line {l m : NamedCall} (h : l.line = m.line) : l = m := by
  obtain ⟨line, operand, hcall, _, _⟩ := l
  obtain ⟨line', operand', hcall', _, _⟩ := m
  obtain rfl : line = line' := h
  obtain rfl := Option.some.inj (hcall.symm.trans hcall')
  rfl

theorem InlineCall.ext_line {l m : InlineCall} (h : l.line = m.line) : l = m := by
  obtain ⟨line, operand, callee, args, header, hcall, _, hargs, hinline⟩ := l
  obtain ⟨line', operand', callee', args', header', hcall', _, hargs', hinline'⟩ := m
  obtain rfl : line = line' := h
  obtain rfl := Option.some.inj (hcall.symm.trans hcall')
  obtain ⟨rfl, rfl⟩ := List.cons.inj (Except.ok.inj (hargs.symm.trans hargs'))
  obtain rfl := Option.some.inj (hinline.symm.trans hinline')
  rfl

namespace Structured

/-- The kinds of programs by their first line. -/
inductive Kind where
  | empty
  | plain
  | call
  | conditional
  | define
  | inline
deriving DecidableEq

/-- The kind of a program. -/
def kind : Structured → Kind
  | nil => .empty
  | plain .. => .plain
  | call .. => .call
  | branch .. | choice .. => .conditional
  | define .. => .define
  | inline .. => .inline

/-- The kind that the first of some lines shows. -/
def kindOf : List Instruction → Kind
  | [] => .empty
  | i :: _ =>
    if i.opensBlock then
      if i.keyword = ifKeyword then .conditional
      else if i.keyword = functionKeyword then .define
      else .inline
    else if i.callOperand?.isSome then .call
    else .plain

theorem kindOf_flatten (p : Structured) : kindOf p.flatten = p.kind := by
  have hif : ∀ (head : KeywordLine ifKeyword) (lines : List Instruction),
      kindOf (head.line :: lines) = .conditional := by
    intro head lines
    rw [kindOf, if_pos (head.opensBlock (.inl rfl)), if_pos head.keyword_eq]
  cases p with
  | nil => rfl
  | plain l rest =>
    rw [flatten, kindOf, if_neg (by simp [l.isNeutral.opensBlock]), l.noCall]
    rfl
  | call l rest =>
    rw [flatten, kindOf, if_neg (by simp [l.isNeutral.opensBlock]), l.call]
    rfl
  | branch head => exact hif head _
  | choice head => exact hif head _
  | define head =>
    rw [flatten, kindOf, if_pos (head.opensBlock (.inr rfl)),
      if_neg (by rw [head.keyword_eq]; decide), if_pos head.keyword_eq]
    rfl
  | inline head =>
    rw [flatten, kindOf, if_pos head.opens]
    -- the keyword is that of a call or of a declaration
    rcases Instruction.keyword_of_callOperand? head.call with hk | hk
    all_goals
      rw [if_neg (by rw [hk]; decide), if_neg (by rw [hk]; decide)]
      rfl

theorem kind_eq {p q : Structured} (h : p.flatten = q.flatten) : p.kind = q.kind := by
  rw [← kindOf_flatten, h, kindOf_flatten]

/-- Two blocks of the same lines have the same body. -/
theorem body_inj {body body' : Structured} {last last' : KeywordLine endKeyword}
    {lines lines' : List Instruction}
    (h : body.flatten ++ last.line :: lines = body'.flatten ++ last'.line :: lines') :
    body.flatten = body'.flatten ∧ last = last' ∧ lines = lines' := by
  -- a scan of the lines finds the end of the one body and of the other
  have hlayout : layout? (body.flatten ++ last.line :: lines) 0 =
      some ⟨none, 0 + body.flatten.length⟩ := layout?_body rfl
  have hlayout' : layout? (body.flatten ++ last.line :: lines) 0 =
      some ⟨none, 0 + body'.flatten.length⟩ := layout?_body h
  have hlength : body.flatten.length = body'.flatten.length := by
    simpa using hlayout.symm.trans hlayout'
  obtain ⟨hbody, htail⟩ := List.append_inj h hlength
  obtain ⟨hlast, hlines⟩ := List.cons.inj htail
  exact ⟨hbody, KeywordLine.ext_line hlast, hlines⟩

section

variable {body body' other other' : Structured} {mid mid' : KeywordLine elseKeyword}
  {last last' : KeywordLine endKeyword} {lines lines' : List Instruction}

/-- Two blocks of the same lines have the same branches. -/
theorem branches_inj
    (h : body.flatten ++ mid.line :: (other.flatten ++ last.line :: lines) =
      body'.flatten ++ mid'.line :: (other'.flatten ++ last'.line :: lines')) :
    body.flatten = body'.flatten ∧ mid = mid' ∧ other.flatten = other'.flatten ∧
      last = last' ∧ lines = lines' := by
  have hlayout : layout? (body.flatten ++ mid.line :: (other.flatten ++ last.line :: lines)) 0 =
      some ⟨some (0 + body.flatten.length), 0 + body.flatten.length + 1 + other.flatten.length⟩ :=
    layout?_branches rfl
  have hlayout' : layout? (body.flatten ++ mid.line :: (other.flatten ++ last.line :: lines)) 0 =
      some ⟨some (0 + body'.flatten.length),
        0 + body'.flatten.length + 1 + other'.flatten.length⟩ := layout?_branches h
  have hlength : body.flatten.length = body'.flatten.length := by
    simpa using congrArg (Option.map Layout.elseAt) (hlayout.symm.trans hlayout')
  obtain ⟨hbody, htail⟩ := List.append_inj h hlength
  obtain ⟨hmid, htail⟩ := List.cons.inj htail
  obtain ⟨hother, hlast, hlines⟩ := body_inj htail
  exact ⟨hbody, KeywordLine.ext_line hmid, hother, hlast, hlines⟩

/-- A block without an `ELSE` and one with two branches have different lines. -/
theorem body_ne_branches :
    body.flatten ++ last.line :: lines ≠
      body'.flatten ++ mid'.line :: (other'.flatten ++ last'.line :: lines') := by
  intro h
  have hlayout : layout? (body.flatten ++ last.line :: lines) 0 =
      some ⟨none, 0 + body.flatten.length⟩ := layout?_body rfl
  have hlayout' : layout? (body.flatten ++ last.line :: lines) 0 =
      some ⟨some (0 + body'.flatten.length),
        0 + body'.flatten.length + 1 + other'.flatten.length⟩ := layout?_branches h
  rw [hlayout] at hlayout'
  cases hlayout'

end

/-- The instructions determine the program. -/
theorem flatten_injective {p q : Structured} (h : p.flatten = q.flatten) : p = q := by
  -- the first line tells the kind, and a scan where the block at it ends
  induction p generalizing q with
  | nil =>
    have hk := kind_eq h
    cases q with
    | nil => rfl
    | _ => cases hk
  | plain l rest ih =>
    have hk := kind_eq h
    cases q with
    | plain l' rest' =>
      obtain ⟨hline, hrest⟩ := List.cons.inj h
      rw [PlainLine.ext_line hline, ih hrest]
    | _ => cases hk
  | call l rest ih =>
    have hk := kind_eq h
    cases q with
    | call l' rest' =>
      obtain ⟨hline, hrest⟩ := List.cons.inj h
      rw [NamedCall.ext_line hline, ih hrest]
    | _ => cases hk
  | branch head body last rest ihbody ihrest =>
    have hk := kind_eq h
    cases q with
    | branch head' body' last' rest' =>
      obtain ⟨hhead, htail⟩ := List.cons.inj h
      obtain ⟨hbody, rfl, hrest⟩ := body_inj htail
      rw [KeywordLine.ext_line hhead, ihbody hbody, ihrest hrest]
    | choice head' body' mid' other' last' rest' =>
      exact absurd (List.cons.inj h).2 body_ne_branches
    | _ => cases hk
  | choice head body mid other last rest ihbody ihother ihrest =>
    have hk := kind_eq h
    cases q with
    | branch head' body' last' rest' =>
      exact absurd (List.cons.inj h).2.symm body_ne_branches
    | choice head' body' mid' other' last' rest' =>
      obtain ⟨hhead, htail⟩ := List.cons.inj h
      obtain ⟨hbody, rfl, hother, rfl, hrest⟩ := branches_inj htail
      rw [KeywordLine.ext_line hhead, ihbody hbody, ihother hother, ihrest hrest]
    | _ => cases hk
  | define head body last rest ihbody ihrest =>
    have hk := kind_eq h
    cases q with
    | define head' body' last' rest' =>
      obtain ⟨hhead, htail⟩ := List.cons.inj h
      obtain ⟨hbody, rfl, hrest⟩ := body_inj htail
      rw [KeywordLine.ext_line hhead, ihbody hbody, ihrest hrest]
    | _ => cases hk
  | inline head body last rest ihbody ihrest =>
    have hk := kind_eq h
    cases q with
    | inline head' body' last' rest' =>
      obtain ⟨hhead, htail⟩ := List.cons.inj h
      obtain ⟨hbody, rfl, hrest⟩ := body_inj htail
      rw [InlineCall.ext_line hhead, ihbody hbody, ihrest hrest]
    | _ => cases hk

end Structured

end LineScript
