import LineScript.Proofs.Expr.Evaluation
import LineScript.Proofs.Expr.Values

/-!
# Expressions with a function as their value

Functions are handed on by names, by groups, by an even number of negations, and by the logical
operators, which choose one of their operands. Everything else makes another value of them.

- `Formula.HandsOn`: the function that a name has comes to the root of a formula.
- `Operator.apply_eq_function_iff`: the logical operators choose a function; no other operator
  has one as its value.
- `Formula.handsOn_iff`: a formula has a function as its value exactly if it hands it on.
- `Formula.evaluate_eq_function_iff`: so has its text.
-/

namespace LineScript

namespace Expr

variable {lookup : Lookup} {f : Function}

/-- Every operator other than the logical ones has a value that is no function. -/
theorem Operator.type_apply {op : Operator} (hor : op ≠ .or) (hand : op ≠ .and) (l r : Value) :
    (op.apply l r).type ≠ .function := by
  have hcompare : ∀ (texts : String → String → Bool) (numbers : Float → Float → Bool),
      (Operator.compare texts numbers l r).type ≠ .function := by
    intro texts numbers
    rw [Operator.compare.eq_def]
    split
    · rintro ⟨⟩
    · rintro ⟨⟩
  cases op with
  | or => exact absurd rfl hor
  | and => exact absurd rfl hand
  | add =>
    rw [Operator.apply, Operator.sum]
    split
    · rintro ⟨⟩
    · rintro ⟨⟩
  | lt | ltEq | gt | gtEq =>
    rw [Operator.apply]
    exact hcompare _ _
  | eq | notEq | strictEq | strictNotEq | sub | mul | div | mod | pow => rintro ⟨⟩

/-- A logical operator chooses the operand that is the function; a function is true. -/
theorem Operator.apply_eq_function_iff {op : Operator} {l r : Value} :
    op.apply l r = .function f ↔
      (op = .or ∧ l = .function f) ∨
      (op = .or ∧ l.isTruthy = false ∧ r = .function f) ∨
      (op = .and ∧ l.isTruthy = true ∧ r = .function f) := by
  have htrue : ∀ {v : Value}, v = .function f → v.isTruthy = true := by
    rintro v rfl
    rfl
  constructor
  · intro h
    by_cases hor : op = .or
    · subst hor
      rw [Operator.apply] at h
      split at h
      · exact .inl ⟨rfl, h⟩
      · next hfalse => exact .inr (.inl ⟨rfl, Bool.not_eq_true _ ▸ hfalse, h⟩)
    · by_cases hand : op = .and
      · subst hand
        rw [Operator.apply] at h
        split at h
        · next htruthy => exact .inr (.inr ⟨rfl, htruthy, h⟩)
        · next hfalse => exact absurd (htrue h) hfalse
      · have htype := Operator.type_apply hor hand l r
        rw [h] at htype
        exact absurd rfl htype
  · rintro (⟨rfl, rfl⟩ | ⟨rfl, hfalse, rfl⟩ | ⟨rfl, htruthy, rfl⟩)
    · rfl
    · rw [Operator.apply, hfalse]
      rfl
    · rw [Operator.apply, htruthy]
      rfl

namespace Formula

/-- The function comes from a name of the formula to its root. No name without a value is
reached, also not in an operand that is not chosen. -/
inductive HandsOn (lookup : Lookup) (f : Function) : {k : Nat} → Formula k → Prop where
  | name {k : Nat} {negations : Negations} {t : List Char} {isName : IsName t}
      (heven : negations.count % 2 = 0) (hf : lookup (String.ofList t) = some (.function f)) :
      HandsOn lookup f (atom (k := k) negations (.name t isName))
  | group {k : Nat} {negations : Negations} {before after : Gap} {inner : Formula 0}
      (heven : negations.count % 2 = 0) (h : HandsOn lookup f inner) :
      HandsOn lookup f (group (k := k) negations none before inner after)
  /-- A function is true, so a disjunction chooses it. -/
  | orLeft {k : Nat} {o : Infix} {tier : k ≤ o.op.tier} {l : Formula o.op.tier}
      {r : Formula (o.op.tier + 1)} (hop : o.op = .or) (h : HandsOn lookup f l)
      (hr : r.undefined lookup = []) : HandsOn lookup f (binary o tier l r)
  | orRight {k : Nat} {o : Infix} {tier : k ≤ o.op.tier} {l : Formula o.op.tier}
      {r : Formula (o.op.tier + 1)} (hop : o.op = .or) (hl : l.undefined lookup = [])
      (hfalse : (l.value lookup).isTruthy = false) (h : HandsOn lookup f r) :
      HandsOn lookup f (binary o tier l r)
  | andRight {k : Nat} {o : Infix} {tier : k ≤ o.op.tier} {l : Formula o.op.tier}
      {r : Formula (o.op.tier + 1)} (hop : o.op = .and) (hl : l.undefined lookup = [])
      (htrue : (l.value lookup).isTruthy = true) (h : HandsOn lookup f r) :
      HandsOn lookup f (binary o tier l r)

/-- Names without a value are those of the two operands. -/
theorem undefined_binary_eq_nil {k : Nat} {o : Infix} {tier : k ≤ o.op.tier}
    {l : Formula o.op.tier} {r : Formula (o.op.tier + 1)} :
    (binary o tier l r).undefined lookup = [] ↔
      l.undefined lookup = [] ∧ r.undefined lookup = [] := by
  simp only [undefined, groupUndefined, plainUndefined, List.append_eq_nil_iff]
  tauto

theorem undefined_group {k : Nat} {negations : Negations} {sign : Option Sign}
    {before after : Gap} {inner : Formula 0} :
    (group (k := k) negations sign before inner after).undefined lookup =
      inner.undefined lookup := by
  simp only [undefined, groupUndefined, plainUndefined, List.append_nil]

end Formula

/-- A function has passed an even number of negations. -/
theorem Negations.apply_eq_function_iff {negations : Negations} {v : Value} :
    negations.apply v = .function f ↔ negations.count % 2 = 0 ∧ v = .function f := by
  rw [apply]
  split
  · next hodd =>
    constructor
    · rintro ⟨⟩
    · rintro ⟨heven, -⟩
      omega
  · next hodd =>
    have heven : negations.count % 2 = 0 := by omega
    exact ⟨fun h => ⟨heven, h⟩, fun h => h.2⟩

namespace Formula

/-- What a formula hands on is its value, and it reaches no name without a value. -/
theorem HandsOn.value_eq {k : Nat} {e : Formula k} (h : HandsOn lookup f e) :
    e.value lookup = .function f ∧ e.undefined lookup = [] := by
  induction h with
  | @name k negations t isName heven hf =>
    refine ⟨Negations.apply_eq_function_iff.2 ⟨heven, ?_⟩, ?_⟩
    · rw [Atom.value, hf]
      rfl
    · rw [undefined, groupUndefined, plainUndefined, Atom.undefined, hf]
      rfl
  | group heven h ih =>
    rw [undefined_group]
    exact ⟨Negations.apply_eq_function_iff.2 ⟨heven, ih.1⟩, ih.2⟩
  | orLeft hop h hr ih =>
    refine ⟨Operator.apply_eq_function_iff.2 (.inl ⟨hop, ih.1⟩), ?_⟩
    exact undefined_binary_eq_nil.2 ⟨ih.2, hr⟩
  | orRight hop hl hfalse h ih =>
    refine ⟨Operator.apply_eq_function_iff.2 (.inr (.inl ⟨hop, hfalse, ih.1⟩)), ?_⟩
    exact undefined_binary_eq_nil.2 ⟨hl, ih.2⟩
  | andRight hop hl htrue h ih =>
    refine ⟨Operator.apply_eq_function_iff.2 (.inr (.inr ⟨hop, htrue, ih.1⟩)), ?_⟩
    exact undefined_binary_eq_nil.2 ⟨hl, ih.2⟩

/-- A formula has a function as its value exactly if it hands it on. -/
theorem handsOn_iff {k : Nat} {e : Formula k} :
    HandsOn lookup f e ↔ e.value lookup = .function f ∧ e.undefined lookup = [] := by
  refine ⟨HandsOn.value_eq, ?_⟩
  rintro ⟨hvalue, hdefined⟩
  induction e with
  | atom negations a =>
    obtain ⟨heven, ha⟩ := Negations.apply_eq_function_iff.1 hvalue
    cases a with
    | string | number => cases ha
    | constant t v denotes =>
      have hfunction : v.type ≠ .function :=
        constant?_of (.of_made fun _ hv => hv) denotes
      obtain rfl : v = .function f := ha
      exact absurd rfl hfunction
    | name t isName =>
      rw [Atom.value] at ha
      cases hlookup : lookup (String.ofList t) with
      | none =>
        rw [hlookup] at ha
        cases ha
      | some v =>
        rw [hlookup] at ha
        obtain rfl : v = .function f := ha
        exact .name heven hlookup
  | group negations sign before inner after ih =>
    obtain ⟨heven, hsign⟩ := Negations.apply_eq_function_iff.1 hvalue
    cases sign with
    | some sign => cases sign <;> cases hsign
    | none => exact .group heven (ih hsign (undefined_group.symm.trans hdefined))
  | binary o tier l r ihl ihr =>
    obtain ⟨hl, hr⟩ := undefined_binary_eq_nil.1 hdefined
    obtain ⟨hop, hvalue⟩ | ⟨hop, hfalse, hvalue⟩ | ⟨hop, htrue, hvalue⟩ :=
      Operator.apply_eq_function_iff.1 hvalue
    · exact .orLeft hop (ihl hvalue hl) hr
    · exact .orRight hop hl hfalse (ihr hvalue hr)
    · exact .andRight hop hl htrue (ihr hvalue hr)

/-- The text of a formula has a function as its value exactly if the formula hands it on. -/
theorem evaluate_eq_function_iff {e : Formula 0} (h : e.Legible) (lead trail : Gap) :
    evaluate lookup (String.ofList (lead.text ++ e.text ++ trail.text)) = .ok (.function f) ↔
      HandsOn lookup f e := by
  have htight := tight_text h
  rw [evaluate_padded lookup htight, evaluate_of_tight lookup htight,
    substitute_flatValue lookup h, handsOn_iff]
  cases hundefined : e.undefined lookup with
  | nil =>
    constructor
    · intro hvalue
      exact ⟨Except.ok.inj hvalue, rfl⟩
    · rintro ⟨hvalue, -⟩
      rw [hvalue]
      rfl
  | cons name names =>
    constructor
    · rintro ⟨⟩
    · rintro ⟨-, ⟨⟩⟩

end Formula

end Expr

end LineScript
