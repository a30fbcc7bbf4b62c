import LineScript.Proofs.Expr.Evaluation
import LineScript.Proofs.Number.ReadBack
import LineScript.Value.Equality

/-!
# Reading the text of a primitive value

- `evaluate_atom`: a text that is one word has the value of the word.
- `literal?_format`, `looseEquals_format`: the text of a number denotes the number, and is
  loosely equal to it.
- `evaluate_format`, `evaluate_text`: the text of a number, a boolean or undefined evaluates
  to the value, whatever the values of names are.
-/

namespace LineScript

namespace Expr

/-! ### Numbers -/

section

variable {x : Float} (hx : x.isNaN = false)

include hx

/-- The text of a number denotes the number, and the negative zero reads back as zero. -/
theorem literal?_format :
    Number.literal? (Number.format x).toList = some (if x = -0.0 then 0.0 else x) := by
  have hread := Number.literalTrimmed?_format hx
  rw [Number.literal?, (tight_of_wordy (wordy_of_number hread)).trim, hread]

theorem textNumber_format :
    Value.textNumber (Number.format x) = if x = -0.0 then 0.0 else x := by
  have htight := tight_of_wordy (wordy_of_number (Number.literalTrimmed?_format hx))
  have hne : (Number.format x).toList.isEmpty = false := by
    rw [List.isEmpty_eq_false_iff]
    exact htight.ne_nil
  simp only [Value.textNumber]
  rw [htight.trim, hne, literal?_format hx]
  rfl

/-- A number and its text are loosely equal. -/
theorem looseEquals_format :
    (Value.number x).looseEquals (.string (Number.format x)) = true := by
  have hself : (x == x) = true := by
    rw [Float.isNaN_eq_decide_eq_nan, decide_eq_false_iff_not] at hx
    exact Float.beq_self_iff.2 hx
  show (x == Value.textNumber (Number.format x)) = true
  rw [textNumber_format hx]
  split
  · next hzero =>
    rw [hzero]
    rfl
  · exact hself

end

/-! ### Words -/

variable (lookup : Lookup)

/-- A text that is one word has the value of the word. -/
theorem evaluate_atom (a : Atom) (hword : Wordy a.text) :
    evaluate lookup (String.ofList a.text) =
      unlessUndefined (a.undefined lookup) (a.value lookup) := by
  have hlegible : (Formula.atom (k := 0) .none a).Legible := by
    intro heq
    have htext : a.text = ['!', '='] := heq
    exact hword.noNegation (htext ▸ List.mem_cons_self)
  rw [evaluate_of_tight lookup (tight_of_wordy hword)]
  exact substitute_flatValue lookup hlegible

/-- A value whose text is a constant for it is what the text evaluates to. -/
theorem evaluate_constant {v : Value} (h : constant? v.text.toList = some v) :
    evaluate lookup v.text = .ok v := by
  have hvalue := evaluate_atom lookup (.constant _ v h) (wordy_of_constant h)
  rwa [Atom.text, String.ofList_toList] at hvalue

/-- The text of a number evaluates to the number, and that of the negative zero to zero. -/
theorem evaluate_format (x : Float) :
    evaluate lookup (Number.format x) = .ok (.number (if x = -0.0 then 0.0 else x)) := by
  cases hx : x.isNaN with
  | false =>
    have hread := Number.literalTrimmed?_format hx
    have hvalue := evaluate_atom lookup (.number _ _ hread) (wordy_of_number hread)
    rwa [Atom.text, String.ofList_toList] at hvalue
  | true =>
    -- NaN is no literal but a constant
    rw [Float.isNaN_eq_decide_eq_nan, decide_eq_true_eq] at hx
    have hconstant : constant? (Value.number Float.nan).text.toList = some (.number Float.nan) :=
      rfl
    have hne : Float.nan ≠ -0.0 := by decide
    rw [hx, if_neg hne]
    exact evaluate_constant lookup hconstant

/-- **The text of a primitive value reads back as the value**, whatever the values of names
are, also where a name is declared that is such a text. The negative zero reads back as zero.
The text of a number that is not NaN is a literal of the number and loosely equal to it. -/
theorem evaluate_text (x : Float) (b : Bool) :
    evaluate lookup (Number.format x) = .ok (.number (if x = -0.0 then 0.0 else x)) ∧
    (x.isNaN = false → x ≠ -0.0 → Number.literal? (Number.format x).toList = some x) ∧
    (x.isNaN = false → (Value.number x).looseEquals (.string (Number.format x)) = true) ∧
    evaluate lookup (Value.text (.boolean b)) = .ok (.boolean b) ∧
    evaluate lookup (Value.text .undefined) = .ok .undefined := by
  refine ⟨evaluate_format lookup x, ?_, looseEquals_format, ?_, evaluate_constant lookup rfl⟩
  · intro hx hzero
    rw [literal?_format hx, if_neg hzero]
  · cases b <;> exact evaluate_constant lookup rfl

/-- A negative number below the sizes that are written without an exponent, where every name
is declared. -/
theorem evaluate_text_small :
    (-1.5e-7 : Float).isNaN = false ∧ (-1.5e-7 : Float) ≠ -0.0 ∧
      Number.format (-1.5e-7) = "-1.5e-7" ∧
      evaluate (fun _ => some .undefined) "-1.5e-7" = .ok (.number (-1.5e-7)) ∧
      Number.literal? "-1.5e-7".toList = some (-1.5e-7) ∧
      (Value.number (-1.5e-7)).looseEquals (.string "-1.5e-7") = true := by
  have hnan : (-1.5e-7 : Float).isNaN = false := by decide +kernel
  have hzero : (-1.5e-7 : Float) ≠ -0.0 := by decide +kernel
  have hformat : Number.format (-1.5e-7) = "-1.5e-7" := by decide +kernel
  obtain ⟨hevaluate, hliteral, hloose, -, -⟩ :=
    evaluate_text (fun _ => some .undefined) (-1.5e-7) true
  rw [hformat, if_neg hzero] at hevaluate
  rw [hformat] at hliteral hloose
  exact ⟨hnan, hzero, hformat, hevaluate, hliteral hnan hzero, hloose hnan⟩

end Expr

end LineScript
