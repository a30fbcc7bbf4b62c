import LineScript.Proofs.Expr.Characters
import LineScript.Proofs.Expr.Evaluation
import LineScript.Proofs.Expr.Failures
import LineScript.Proofs.Machine.Values

/-!
# Placeholders in errors

While an expression is evaluated, its groups are placeholders between marks. What is
reported about a failed evaluation shows the values of the groups in their place.

- `Cause.Unmarked`: no text of a cause and no part of its message has a mark.
- `Slots.slotMark_not_mem_render`: a text with the values shown has no mark.
- `operandValue_unmarked`, `flatValue_unmarked`: a text without groups is reported
  without marks.
- `Reading.Bare.step_unmarked`: so is every character that is read.
- `evaluate_unmarked`: a failed evaluation is reported without marks, unless a negation
  is misplaced in an expression with groups.
-/

namespace LineScript

open LineScript.Expr (slotMark)

/-- The texts that a cause carries. -/
def Cause.texts : Cause → List String
  | unknownKeyword keyword candidates => keyword :: candidates
  | malformedOperand keyword reason => [keyword, reason]
  | strayBlockKeyword text | unterminatedBlock text | invalidJump text | misplacedNegation text
  | malformedExpression text | undefinedVariable text | undefinedFunction text
  | assignmentToConstant text | undefinedConstant text | notCallable text _
  | expectedNumber text _ => [text]
  | returnOutsideFunction | callDepthExceeded _ => []

/-- The mark of a placeholder is neither in a text that the cause carries nor in what
is said about it. -/
structure Cause.Unmarked (c : Cause) : Prop where
  texts : ∀ t ∈ c.texts, slotMark ∉ t.toList
  message : slotMark ∉ c.message.toList
  suggestion : ∀ t ∈ c.suggestion?, slotMark ∉ t.toList

theorem slotMark_not_mem_append {s t : String} (hs : slotMark ∉ s.toList)
    (ht : slotMark ∉ t.toList) : slotMark ∉ (s ++ t).toList := by
  rw [String.toList_append, List.mem_append]
  exact not_or.2 ⟨hs, ht⟩

namespace Cause.Unmarked

theorem malformedExpression {reason : String} (h : slotMark ∉ reason.toList) :
    (Cause.malformedExpression reason).Unmarked :=
  ⟨by simpa [Cause.texts] using h, h, by simp [Cause.suggestion?]⟩

theorem misplacedNegation {operand : String} (h : slotMark ∉ operand.toList) :
    (Cause.misplacedNegation operand).Unmarked where
  texts := by simpa [Cause.texts] using h
  message := slotMark_not_mem_append (by decide) h
  suggestion := by simp [Cause.suggestion?]

theorem undefinedVariable {name : String} (h : slotMark ∉ name.toList) :
    (Cause.undefinedVariable name).Unmarked where
  texts := by simpa [Cause.texts] using h
  message := slotMark_not_mem_append h (by decide)
  suggestion t ht := by
    obtain rfl := Option.some.inj ht
    exact slotMark_not_mem_append (slotMark_not_mem_append (by decide) h) (by decide)

end Cause.Unmarked

namespace Expr

open Quoted (mark)

variable {lookup : Lookup} {slots : Slots} {t : List Char} {c : Cause}

/-! ### Values shown in place of placeholders -/

section

variable (hslots : ∀ v ∈ slots, slotMark ∉ v.text.toList)

include hslots

theorem Slots.slotMark_not_mem_shown {number : List Char} (h : slotMark ∉ number) :
    slotMark ∉ (match slots.numbered? number with
      | some v => ['('] ++ v.text.toList ++ [')']
      | none => number) := by
  split
  · next v hv =>
    obtain ⟨n, -, hn⟩ := Option.bind_eq_some_iff.1 hv
    have hvalue := hslots v (Array.mem_of_getElem? hn)
    have hparens : slotMark ∉ ['('] ∧ slotMark ∉ [')'] := by decide
    simp only [List.mem_append]
    exact not_or.2 ⟨not_or.2 ⟨hparens.1, hvalue⟩, hparens.2⟩
  · exact h

/-- With the values shown no mark is left. -/
theorem Slots.slotMark_not_mem_render (t : List Char) : slotMark ∉ slots.render t := by
  have hparts : ∀ w ∈ Text.pieces (· = slotMark) t, slotMark ∉ w := by
    intro w hw hmem
    have hsep := Text.not_sep_of_mem_pieces hw slotMark hmem
    simp at hsep
  rw [Slots.render]
  -- every second part is a number, so the parts are taken two at a time
  generalize Text.pieces (· = slotMark) t = parts at hparts
  fun_induction Slots.renderParts slots parts with
  | case1 => simp
  | case2 text => exact hparts text (by simp)
  | case3 text number rest shown ih =>
    have htext := hparts text (by simp)
    have hshown := Slots.slotMark_not_mem_shown hslots (hparts number (by simp))
    have hrest := ih fun w hw => hparts w (by simp [hw])
    simp only [List.mem_append]
    exact not_or.2 ⟨not_or.2 ⟨htext, hshown⟩, hrest⟩

/-! ### Operands -/

theorem atomValue_unmarked (h : atomValue lookup slots t = .error c) : c.Unmarked := by
  rw [atomValue] at h
  split at h
  · cases h
  · split at h
    · cases h
    · split at h
      · cases h
      · split at h
        · cases h
        · split at h
          · cases h
          · obtain rfl := Except.error.inj h
            exact .undefinedVariable (by simpa using slots.slotMark_not_mem_render hslots t)

/-- An operand with a misplaced negation is reported as it is, so with its marks. -/
theorem operandValue_unmarked {operand : List Char}
    (hshown : (∀ text, c ≠ .misplacedNegation text) ∨ slotMark ∉ operand)
    (h : operandValue lookup slots operand = .error c) : c.Unmarked := by
  simp only [operandValue] at h
  split at h
  · exact Except.error.inj h ▸ .malformedExpression (by decide)
  · split at h
    · exact Except.error.inj h ▸ .malformedExpression (by decide)
    · rw [map_eq_error] at h
      split at h
      · cases h
      · split at h
        · obtain rfl := Except.error.inj h
          rcases hshown with hother | hoperand
          · exact absurd rfl (hother _)
          · refine .misplacedNegation ?_
            rw [String.toList_ofList]
            exact fun hmem => hoperand (Quoted.subset_of_mark_subset (mark_trim_subset operand) hmem)
        · exact atomValue_unmarked hslots h

theorem treeValue_unmarked {tree : Tree (List Char)}
    (hshown : (∀ text, c ≠ .misplacedNegation text) ∨
      ∀ operand ∈ tree.operands, slotMark ∉ operand)
    (h : treeValue lookup slots tree = .error c) : c.Unmarked := by
  induction tree with
  | leaf operand =>
    have hleaf := hshown.imp_right fun ho => ho operand (by simp [Tree.operands])
    exact operandValue_unmarked hslots hleaf h
  | node op l r ihl ihr =>
    obtain hl | ⟨x, -, h⟩ := bind_eq_error.1 h
    · exact ihl (hshown.imp_right fun ho o hmem => ho o (by simp [Tree.operands, hmem])) hl
    · obtain hr | ⟨y, -, h⟩ := bind_eq_error.1 h
      · exact ihr (hshown.imp_right fun ho o hmem => ho o (by simp [Tree.operands, hmem])) hr
      · cases h

theorem flatValue_unmarked (hshown : (∀ text, c ≠ .misplacedNegation text) ∨ slotMark ∉ t)
    (h : flatValue lookup slots t = .error c) : c.Unmarked := by
  refine treeValue_unmarked hslots (hshown.imp_right fun ht operand ho hmem => ht ?_) h
  exact Quoted.subset_of_mark_subset (Chain.mark_operands_subset ho) hmem

theorem groupValue_unmarked (hother : ∀ text, c ≠ .misplacedNegation text)
    (h : groupValue lookup slots t = .error c) : c.Unmarked := by
  simp only [groupValue] at h
  split at h
  · cases h
  · exact flatValue_unmarked hslots (.inl hother) h

end

/-! ### Reading a text -/

namespace Reading.Bare

variable {st : Quoted.State} {r : Reading}

theorem step_unmarked (hr : Reading.Bare slotMark st r)
    (hother : ∀ text, c ≠ .misplacedNegation text) {m : Marked}
    (h : r.step lookup m = .error c) : c.Unmarked := by
  rw [Reading.step] at h
  split at h
  · cases h
  · split at h
    · simp only [Reading.close] at h
      split at h
      · exact Except.error.inj h ▸ .malformedExpression (by decide)
      · split at h
        · exact Except.error.inj h ▸ .malformedExpression (by decide)
        · rw [map_eq_error] at h
          exact groupValue_unmarked hr.slots hother h
    · cases h

variable (hlookup : ∀ id v, lookup id = some v → slotMark ∉ v.text.toList)

include hlookup

theorem run_unmarked (hr : Reading.Bare slotMark st r) (ht : (slotMark, false) ∉ mark st t)
    (hother : ∀ text, c ≠ .misplacedNegation text)
    (h : (mark st t).foldlM (Reading.step lookup) r = .error c) : c.Unmarked := by
  induction t generalizing st r with
  | nil => cases h
  | cons d t ih =>
    rw [mark, List.foldlM_cons] at h
    rw [mark, List.mem_cons, not_or] at ht
    obtain hstep | ⟨r', hstep, hrest⟩ := bind_eq_error.1 h
    · exact hr.step_unmarked hother hstep
    · exact ih (hr.step (by decide) hlookup (Ne.symm ht.1) hstep) ht.2 hrest

end Reading.Bare

/-! ### Expressions -/

/-- Without groups a text is left as it is. -/
theorem substitute_ungrouped (lookup : Lookup)
    (h : ∀ m ∈ mark .outside t, Marked.groups m = false) :
    substitute lookup t = .ok (t, #[]) := by
  rw [substitute, readings_ungrouped lookup h, plain, Quoted.map_fst_mark]
  simp [Reading.start, pure, Except.pure, bind, Except.bind]

theorem substitute_unmarked
    (hlookup : ∀ id v, lookup id = some v → slotMark ∉ v.text.toList) (ht : Quoted.Bare slotMark t)
    (hother : ∀ text, c ≠ .misplacedNegation text) (h : substitute lookup t = .error c) :
    c.Unmarked := by
  obtain hread | ⟨r, -, hread⟩ := bind_eq_error.1 h
  · exact Reading.Bare.start.run_unmarked hlookup ht hother hread
  · split at hread
    · cases hread
    · exact Except.error.inj hread ▸ .malformedExpression (by decide)

/-- **What is reported about a failed evaluation has no marks of placeholders**, if
neither the expression nor the text of a bound value has one. A misplaced negation is
reported with its operand as it is, so for one the expression must have no groups. -/
theorem evaluate_unmarked {s : State} {scope : ScopeId} {text : String}
    (henv : s.env.AllValues fun v => slotMark ∉ v.text.toList) (htext : slotMark ∉ text.toList)
    (hgroups : (∀ operand, c ≠ .misplacedNegation operand) ∨
      ∀ m ∈ mark .outside text.toList, Marked.groups m = false)
    (h : evaluate (s.lookup scope) text = .error c) : c.Unmarked := by
  have hlookup : ∀ id v, s.lookup scope id = some v → slotMark ∉ v.text.toList := by
    intro id v hv
    obtain ⟨b, hb, rfl⟩ := Option.map_eq_some_iff.1 hv
    exact henv.find? hb
  have htrim := mark_trim_subset text.toList
  have hbare : Quoted.Bare slotMark (Text.trim text.toList) :=
    (Quoted.Bare.of_not_mem htext).of_subset htrim
  simp only [evaluate] at h
  split at h
  · exact Except.error.inj h ▸ .malformedExpression (by decide)
  · split at h
    · cases h
    · rcases hgroups with hother | hungrouped
      · obtain hread | ⟨⟨flat, slots⟩, hread, hvalue⟩ := bind_eq_error.1 h
        · exact substitute_unmarked hlookup hbare hother hread
        · have hslots := (substitute_bare (by decide) hlookup hbare hread).2
          exact flatValue_unmarked hslots (.inl hother) hvalue
      · -- without groups what is evaluated is the expression itself
        have hread := substitute_ungrouped (s.lookup scope) fun m hm => hungrouped m (htrim hm)
        obtain herror | ⟨p, hp, hvalue⟩ := bind_eq_error.1 h
        · rw [hread] at herror
          cases herror
        · rw [hread] at hp
          obtain rfl := Except.ok.inj hp
          have hmark : slotMark ∉ Text.trim text.toList :=
            fun hmem => htext (Quoted.subset_of_mark_subset htrim hmem)
          exact flatValue_unmarked (by simp) (.inr hmark) hvalue

/-- The state of an interpreter that has run nothing. -/
def untouched : State :=
  Interpreter.initialState 10 .silent

theorem untouched_unmarked : untouched.env.AllValues fun v => slotMark ∉ v.text.toList :=
  .initialState (by decide) 10 .silent

/-- A group after an unknown name is shown with its value. -/
theorem evaluate_unmarked_unknown :
    evaluate (untouched.lookup Environment.root) "nope(true)" =
        .error (.undefinedVariable "nope(true)") ∧
      (Cause.undefinedVariable "nope(true)").Unmarked := by
  have h : evaluate (untouched.lookup Environment.root) "nope(true)" =
      .error (.undefinedVariable "nope(true)") := rfl
  exact ⟨h, evaluate_unmarked untouched_unmarked (by decide) (.inl nofun) h⟩

/-- A negation after a group is reported with the placeholder of the group, although
neither the expression nor a bound value has a mark. -/
theorem evaluate_marked_negation :
    (untouched.env.AllValues fun v => slotMark ∉ v.text.toList) ∧
      slotMark ∉ "(1)!x".toList ∧
      evaluate (untouched.lookup Environment.root) "(1)!x" =
        .error (.misplacedNegation "\x010\x01!x") ∧
      ¬(Cause.misplacedNegation "\x010\x01!x").Unmarked := by
  refine ⟨untouched_unmarked, by decide, rfl, fun h => ?_⟩
  have hoperand := h.texts "\x010\x01!x" List.mem_cons_self
  exact absurd hoperand (by decide)

end Expr

end LineScript
