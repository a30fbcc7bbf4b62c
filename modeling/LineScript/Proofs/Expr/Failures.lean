import LineScript.Proofs.Expr.Values

/-!
# Why an evaluation fails

An expression fails for what is written in it: it is malformed, a negation stands
in the middle of an operand, or a name is not declared. What surrounds the
expression plays no part.

- `Cause.OfExpression`: the causes of a failed evaluation.
- `evaluate_error`: an evaluation fails for no other cause.
- `splitArguments_error`: a list of arguments is malformed at worst.
-/

namespace LineScript

/-! ### Computations that fail -/

theorem bind_eq_error {ε α β : Type} {x : Except ε α} {f : α → Except ε β} {e : ε} :
    x >>= f = .error e ↔ x = .error e ∨ ∃ a, x = .ok a ∧ f a = .error e := by
  cases x with
  | error e' =>
    constructor
    · intro h
      cases h
      exact .inl rfl
    · rintro (h | ⟨a, h, -⟩)
      · cases h
        rfl
      · cases h
  | ok a =>
    constructor
    · intro h
      exact .inr ⟨a, rfl, h⟩
    · rintro (h | ⟨b, h, h'⟩)
      · cases h
      · cases h
        exact h'

theorem map_eq_error {ε α β : Type} {x : Except ε α} {f : α → β} {e : ε} :
    x.map f = .error e ↔ x = .error e := by
  cases x with
  | error e' => exact ⟨fun h => by cases h; rfl, fun h => by cases h; rfl⟩
  | ok a => exact ⟨nofun, nofun⟩

/-- The causes of a failed evaluation. -/
inductive Cause.OfExpression : Cause → Prop where
  | malformed (reason : String) : OfExpression (.malformedExpression reason)
  | misplaced (operand : String) : OfExpression (.misplacedNegation operand)
  | undeclared (name : String) : OfExpression (.undefinedVariable name)

namespace Expr

variable {lookup : Lookup} {slots : Slots} {t : List Char} {c : Cause}

theorem atomValue_error (h : atomValue lookup slots t = .error c) : c.OfExpression := by
  rw [atomValue] at h
  split at h
  · cases h
  · split at h
    · cases h
    · split at h
      · cases h
      · split at h
        · cases h
        · split at h
          · cases h
          · exact Except.error.inj h ▸ .undeclared _

theorem operandValue_error (h : operandValue lookup slots t = .error c) : c.OfExpression := by
  simp only [operandValue] at h
  split at h
  · exact Except.error.inj h ▸ .malformed _
  · split at h
    · exact Except.error.inj h ▸ .malformed _
    · -- negations change no failure
      rw [map_eq_error] at h
      split at h
      · cases h
      · split at h
        · exact Except.error.inj h ▸ .misplaced _
        · exact atomValue_error h

theorem treeValue_error {t : Tree (List Char)} (h : treeValue lookup slots t = .error c) :
    c.OfExpression := by
  induction t with
  | leaf operand => exact operandValue_error h
  | node op l r ihl ihr =>
    obtain hl | ⟨x, -, h⟩ := bind_eq_error.1 h
    · exact ihl hl
    · obtain hr | ⟨y, -, h⟩ := bind_eq_error.1 h
      · exact ihr hr
      · cases h

theorem groupValue_error (h : groupValue lookup slots t = .error c) : c.OfExpression := by
  simp only [groupValue] at h
  split at h
  · cases h
  · exact treeValue_error h

theorem Reading.step_error {r : Reading} {m : Marked} (h : r.step lookup m = .error c) :
    c.OfExpression := by
  rw [Reading.step] at h
  split at h
  · cases h
  · split at h
    · simp only [Reading.close] at h
      split at h
      · exact Except.error.inj h ▸ .malformed _
      · split at h
        · exact Except.error.inj h ▸ .malformed _
        · rw [map_eq_error] at h
          exact groupValue_error h
    · cases h

theorem readings_error {t : List Marked} {r : Reading}
    (h : t.foldlM (Reading.step lookup) r = .error c) : c.OfExpression := by
  induction t generalizing r with
  | nil => cases h
  | cons m t ih =>
    rw [List.foldlM_cons] at h
    obtain hstep | ⟨r', -, hrest⟩ := bind_eq_error.1 h
    · exact Reading.step_error hstep
    · exact ih hrest

/-- An evaluation fails only for what is written in the expression. -/
theorem evaluate_error {text : String} (h : evaluate lookup text = .error c) :
    c.OfExpression := by
  simp only [evaluate] at h
  split at h
  · exact Except.error.inj h ▸ .malformed _
  · split at h
    · cases h
    · obtain hread | ⟨⟨flat, slots⟩, -, hflat⟩ := bind_eq_error.1 h
      · obtain hread | ⟨r, -, hread⟩ := bind_eq_error.1 hread
        · exact readings_error hread
        · split at hread
          · cases hread
          · exact Except.error.inj hread ▸ .malformed _
      · exact treeValue_error hflat

/-- A list of arguments is malformed at worst. -/
theorem splitArguments_error (h : splitArguments t = .error c) : c.OfExpression := by
  rw [splitArguments] at h
  cases ha : Text.arguments t with
  | ok args =>
    rw [ha] at h
    cases h
  | error unbalanced =>
    rw [ha] at h
    obtain rfl := Except.error.inj h
    cases unbalanced with
    | opening => exact .malformed _
    | closing => exact .malformed _

end Expr

end LineScript
