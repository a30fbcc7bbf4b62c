import LineScript.Proofs.Expr.Placeholders
import LineScript.Proofs.Expr.Rounds

/-!
# Texts that are read as names

An operand is looked up as a name when it is nothing else: it has no groups and no
negations, and is no literal, no constant and no number. So the value of an expression
depends on the values of such names only. A word on its own has the value of the name,
unless it is an operator; then it lacks its operands.

- `Sought`: the names that an evaluation may look up.
- `evaluate_congr`: the value of an expression depends on the values of these names only.
- `ReadAsName`: the words that are looked up when they stand on their own.
- `evaluate_of_name`, `evaluate_of_not_name`: such a word has the value of the name, and
  any other word has a value that does not depend on that of the name.
-/

namespace LineScript

namespace Expr

open Quoted (mark)

/-- The names that an evaluation may look up: the texts that are nothing else. -/
structure Sought (t : List Char) : Prop where
  ungrouped : Ungrouped t
  noLiteral : Quoted.literal? t = none
  noNegation : '!' ∉ t
  noConstant : constant? t = none
  noNumber : Number.literal? t = none

/-! ### The names that a value depends on -/

section

variable {lookup lookup' : Lookup}
  (hsame : ∀ t, Sought t → lookup (String.ofList t) = lookup' (String.ofList t))

include hsame

theorem atomValue_congr (slots : Slots) {t : List Char} (hungrouped : Ungrouped t)
    (hliteral : Quoted.literal? t = none) (hnegation : '!' ∉ t) :
    atomValue lookup slots t = atomValue lookup' slots t := by
  simp only [atomValue]
  split
  · rfl
  · cases hconstant : constant? t with
    | some v => rfl
    | none =>
      cases hnumber : Number.literal? t with
      | some x => rfl
      | none => rw [hsame t ⟨hungrouped, hliteral, hnegation, hconstant, hnumber⟩]

theorem operandValue_congr (slots : Slots) {operand : List Char} (h : Ungrouped operand) :
    operandValue lookup slots operand = operandValue lookup' slots operand := by
  have hatom : Ungrouped (operandAtom operand) := h.of_subset (mark_operandAtom_subset operand)
  simp only [operandValue]
  change Ungrouped (Text.trimStart _) at hatom
  generalize Text.trimStart _ = atom at hatom ⊢
  cases hliteral : Quoted.literal? atom with
  | some s => rfl
  | none =>
    by_cases hnegation : '!' ∈ atom
    · simp only [List.contains_eq_mem, hnegation, decide_true, if_true]
    · rw [atomValue_congr hsame slots hatom hliteral hnegation]

theorem treeValue_congr (slots : Slots) {t : Tree (List Char)}
    (h : ∀ operand ∈ t.operands, Ungrouped operand) :
    treeValue lookup slots t = treeValue lookup' slots t := by
  induction t with
  | leaf operand =>
    exact operandValue_congr hsame slots (h operand (List.mem_singleton_self operand))
  | node op l r ihl ihr =>
    rw [treeValue, treeValue, ihl fun o ho => h o (List.mem_append_left _ ho),
      ihr fun o ho => h o (List.mem_append_right _ ho)]

theorem flatValue_congr (slots : Slots) {t : List Char} (h : Ungrouped t) :
    flatValue lookup slots t = flatValue lookup' slots t :=
  treeValue_congr hsame slots fun _ ho => h.of_subset (Chain.mark_operands_subset ho)

theorem contentValue_congr (slots : Slots) {content : List Char} (h : Ungrouped content) :
    contentValue lookup slots content = contentValue lookup' slots content := by
  have htrim : Ungrouped (Text.trim content) := h.of_subset (mark_trim_subset content)
  simp only [contentValue, groupValue, flatValue_congr hsame slots htrim]

theorem step_congr {st : Quoted.State} {r : Reading} (hr : Reading.Flat st r) (m : Marked) :
    r.step lookup m = r.step lookup' m := by
  obtain ⟨current, opened, slots⟩ := r
  cases opened with
  | nil => rfl
  | cons before opened =>
    rw [Reading.step, Reading.step, close_eq, close_eq, contentValue_congr hsame slots hr.current]

theorem readings_congr {st : Quoted.State} {r : Reading} (hr : Reading.Flat st r) (t : List Char) :
    (mark st t).foldlM (Reading.step lookup) r = (mark st t).foldlM (Reading.step lookup') r := by
  induction t generalizing st r with
  | nil => rfl
  | cons c t ih =>
    rw [mark, List.foldlM_cons, List.foldlM_cons, step_congr hsame hr]
    cases hstep : r.step lookup' (c, st.isOutside) with
    | error e => rfl
    | ok next => exact ih (hr.step lookup' hstep)

/-- The value of an expression depends on the values of those names only that may be
looked up. -/
theorem evaluate_congr (text : String) : evaluate lookup text = evaluate lookup' text := by
  have hread : ∀ t, substitute lookup t = substitute lookup' t := by
    intro t
    rw [substitute, substitute, Reading.start, readings_congr hsame (.start #[])]
  simp only [evaluate, hread]
  split
  · rfl
  · split
    · rfl
    · cases hp : substitute lookup' (Text.trim text.toList) with
      | error c => rfl
      | ok p =>
        obtain ⟨n, -, hround⟩ := rounds_of_substitute lookup' hp
        exact flatValue_congr hsame p.2 (ungrouped_of_round lookup' hround)

end

/-! ### One word -/

/-- The words that are looked up when they stand on their own. -/
structure ReadAsName (t : List Char) : Prop extends Sought t where
  word : t ≠ [] ∧ ∀ c ∈ t, Text.isBlank c = false
  noOperator : Operator.ofToken? (String.ofList t) = none

section

variable {t : List Char} (hword : t ≠ [] ∧ ∀ c ∈ t, Text.isBlank c = false)

include hword

/-- A word is not cut into operands. -/
theorem fields_of_word : fields (mark .outside t) = (mark .outside t, []) := by
  refine fields_of_unsplit fun m hm => ?_
  have hmem : m.1 ∈ t := by
    rw [← Quoted.map_fst_mark .outside t]
    exact List.mem_map_of_mem hm
  rw [Marked.separates, hword.2 m.1 hmem, Bool.and_false]

/-- A word without groups is a chain of its own. -/
theorem evaluate_of_word (hungrouped : Ungrouped t) (lookup : Lookup) :
    evaluate lookup (String.ofList t) =
      treeValue lookup #[] (Chain.ofFields (mark .outside t) []).tree := by
  have htight : Text.Tight t := .of_forall hword.1 hword.2
  rw [evaluate_of_tight lookup htight, substitute_ungrouped lookup (ungrouped_iff.1 hungrouped)]
  show flatValue lookup #[] t = _
  rw [flatValue, Chain.ofText, fields_of_word hword]

end

/-- On its own an operator has no operands. -/
theorem evaluate_of_token {t : List Char} {op : Operator}
    (h : Operator.ofToken? (String.ofList t) = some op) (lookup : Lookup) :
    evaluate lookup (String.ofList t) = .error (.malformedExpression "missing operand") := by
  have hplain := isPlain_of_token h
  have hword : t ≠ [] ∧ ∀ c ∈ t, Text.isBlank c = false := by
    refine ⟨?_, fun c hc => (isPlain_iff.1 (hplain c hc)).1⟩
    rintro rfl
    have hnone : Operator.ofToken? (String.ofList []) = none := by decide
    rw [hnone] at h
    cases h
  have hoperator : operator? (mark .outside t) = some op := by rw [operator?_of_plain hplain, h]
  rw [evaluate_of_word hword (ungrouped_iff.2 (ungrouped_of_plain hplain)), Chain.ofFields,
    hoperator]
  rfl

/-- The value of a word that is not read as a name does not depend on that of the name. -/
theorem evaluate_of_not_name {t : List Char} (hword : t ≠ [] ∧ ∀ c ∈ t, Text.isBlank c = false)
    (h : ¬ReadAsName t) {lookup lookup' : Lookup}
    (hsame : ∀ id, id ≠ String.ofList t → lookup id = lookup' id) :
    evaluate lookup (String.ofList t) = evaluate lookup' (String.ofList t) := by
  by_cases hsought : Sought t
  · -- what is left is an operator
    cases hop : Operator.ofToken? (String.ofList t) with
    | none => exact absurd ⟨hsought, hword, hop⟩ h
    | some op => rw [evaluate_of_token hop, evaluate_of_token hop]
  · refine evaluate_congr (fun u hu => hsame _ fun hid => hsought ?_) _
    rwa [← String.ofList_injective hid]

/-- Where no group has been read, a placeholder stands for nothing. -/
theorem Slots.read?_empty (t : List Char) : Slots.read? #[] t = none := by
  have hnumbered : ∀ number, Slots.numbered? #[] number = none := by
    intro number
    simp [Slots.numbered?]
  cases t with
  | nil => rfl
  | cons c t => rw [Slots.read?, hnumbered, ite_self]

theorem Slots.readSigned?_empty (t : List Char) : Slots.readSigned? #[] t = none := by
  cases t with
  | nil => rfl
  | cons c t => rw [Slots.readSigned?, Slots.read?_empty, Option.map_none, ite_self]

/-- A word that is read as a name has the value of the name. -/
theorem evaluate_of_name {t : List Char} (h : ReadAsName t) {lookup : Lookup} {v : Value}
    (hv : lookup (String.ofList t) = some v) : evaluate lookup (String.ofList t) = .ok v := by
  have hoperator : operator? (mark .outside t) = none := by
    rw [operator?, plain, Quoted.map_fst_mark, h.noOperator, ite_self]
  have hatom : atomValue lookup #[] t = .ok v := by
    rw [atomValue, Slots.read?_empty, h.noConstant, h.noNumber, Slots.readSigned?_empty, hv]
  -- the one operand has no blanks and no negations to take off
  have htight : Text.Tight t := .of_forall h.word.1 h.word.2
  have hbang : t.dropWhile (· = '!') = t := by
    refine Text.dropWhile_eq_self fun c hc => decide_eq_false ?_
    rintro rfl
    exact h.noNegation (List.mem_of_mem_head? hc)
  have hne : t.isEmpty = false := by simpa using h.word.1
  have hnegation : t.contains '!' = false := by simpa using h.noNegation
  rw [evaluate_of_word h.word h.ungrouped, Chain.ofFields, hoperator, plain, Quoted.map_fst_mark]
  show operandValue lookup #[] t = _
  simp only [operandValue, htight.trim, hbang, Text.trimStart_of_head htight.first, hne,
    h.noLiteral, hnegation, hatom]
  simp [Except.map]

end Expr

end LineScript
