import LineScript.Expr.Evaluate

/-!
# Expressions do not see lines

A function keeps the source lines of its body. They are shown nowhere in an expression:
with other line numbers in the functions that its names stand for, an expression has the
same value but for the line numbers in it, and fails in the same way.

- `Instruction.renumber`, `Function.renumber`, `Value.renumber`: other line numbers.
- `Value.looseEquals_renumber`, `Operator.apply_renumber`: coercions, comparisons and
  operators.
- `Expr.evaluate_renumber`: the value of an expression.
-/

namespace LineScript

/-- The same line of text with another number. -/
def Instruction.renumber (g : Nat → Nat) (i : Instruction) : Instruction :=
  { i with line := g i.line }

@[simp] theorem Instruction.keyword_renumber (g : Nat → Nat) (i : Instruction) :
    (i.renumber g).keyword = i.keyword := rfl

/-- The same function with other line numbers in its body. -/
def Function.renumber (g : Nat → Nat) (f : Function) : Function :=
  { f with body := f.body.map (Instruction.renumber g) }

namespace Value

/-- The same value with other line numbers if it is a function. -/
def renumber (g : Nat → Nat) : Value → Value
  | function f => function (f.renumber g)
  | v => v

variable (g : Nat → Nat) (v w : Value)

/-! ### Coercions and comparisons -/

@[simp] theorem isTruthy_renumber : (v.renumber g).isTruthy = v.isTruthy := by
  cases v <;> rfl

@[simp] theorem toNumber_renumber : (v.renumber g).toNumber = v.toNumber := by
  cases v <;> rfl

@[simp] theorem text_renumber : (v.renumber g).text = v.text := by
  cases v <;> rfl

@[simp] theorem isString_renumber : (v.renumber g).isString = v.isString := by
  cases v <;> rfl

@[simp] theorem isObject_renumber : (v.renumber g).isObject = v.isObject := by
  cases v <;> rfl

@[simp] theorem renumber_eq_undefined : v.renumber g = .undefined ↔ v = .undefined := by
  cases v <;> simp [renumber]

@[simp] theorem booleanAsNumber_renumber :
    (v.renumber g).booleanAsNumber = v.booleanAsNumber.renumber g := by
  cases v <;> rfl

@[simp] theorem objectAsText_renumber : (v.renumber g).objectAsText = v.objectAsText := by
  cases v <;> rfl

@[simp] theorem strictEquals_renumber :
    (v.renumber g).strictEquals (w.renumber g) = v.strictEquals w := by
  cases v <;> cases w <;> rfl

/-- Functions are compared by their identities, or as texts. -/
@[simp] theorem looseEquals_renumber :
    (v.renumber g).looseEquals (w.renumber g) = v.looseEquals w := by
  simp only [looseEquals, booleanAsNumber_renumber, isObject_renumber, renumber_eq_undefined,
    strictEquals_renumber, objectAsText_renumber]

end Value

/-! ### Operators -/

namespace Operator

variable (g : Nat → Nat) (l r : Value)

theorem compare_renumber (texts : String → String → Bool) (numbers : Float → Float → Bool) :
    compare texts numbers (l.renumber g) (r.renumber g) =
      (compare texts numbers l r).renumber g := by
  cases l <;> cases r <;> rfl

theorem sum_renumber : sum (l.renumber g) (r.renumber g) = (sum l r).renumber g := by
  simp only [sum, Value.isString_renumber, Value.isObject_renumber, Value.text_renumber,
    Value.toNumber_renumber]
  split
  · rfl
  · rfl

/-- The logical operators choose one of their operands, and all others make a value that
is no function. -/
theorem apply_renumber (op : Operator) :
    op.apply (l.renumber g) (r.renumber g) = (op.apply l r).renumber g := by
  cases op with
  | or | and =>
    simp only [apply, Value.isTruthy_renumber]
    split
    · rfl
    · rfl
  | lt | ltEq | gt | gtEq =>
    rw [apply, apply]
    exact compare_renumber g l r _ _
  | add => exact sum_renumber g l r
  | eq | notEq | strictEq | strictNotEq | sub | mul | div | mod | pow =>
    simp only [apply, Value.looseEquals_renumber, Value.strictEquals_renumber,
      Value.toNumber_renumber]
    rfl

end Operator

/-! ### Evaluation -/

namespace Expr

variable (g : Nat → Nat)

/-- The values of names with other line numbers. -/
def Lookup.renumber (lookup : Lookup) : Lookup :=
  fun id => (lookup id).map (Value.renumber g)

/-- The values of groups with other line numbers. -/
def Slots.renumber (slots : Slots) : Slots :=
  slots.map (Value.renumber g)

theorem constant?_renumber {t : List Char} {v : Value} (h : constant? t = some v) :
    v.renumber g = v := by
  rw [constant?] at h
  split at h
  · exact Option.some.inj h ▸ rfl
  · split at h
    · exact Option.some.inj h ▸ rfl
    · split at h
      · exact Option.some.inj h ▸ rfl
      · split at h
        · exact Option.some.inj h ▸ rfl
        · cases h

namespace Slots

variable (slots : Slots)

theorem numbered?_renumber (t : List Char) :
    (slots.renumber g).numbered? t = (slots.numbered? t).map (Value.renumber g) := by
  rw [numbered?, numbered?]
  cases slotNumber? t with
  | none => rfl
  | some n => exact Array.getElem?_map

theorem read?_renumber (t : List Char) :
    (slots.renumber g).read? t = (slots.read? t).map (Value.renumber g) := by
  cases t with
  | nil => rfl
  | cons c t =>
    rw [read?, read?]
    split
    · exact numbered?_renumber g slots _
    · rfl

theorem readSigned?_renumber (t : List Char) :
    (slots.renumber g).readSigned? t = (slots.readSigned? t).map (Value.renumber g) := by
  cases t with
  | nil => rfl
  | cons c t =>
    rw [readSigned?, readSigned?]
    split
    · rw [read?_renumber]
      cases slots.read? (Text.trimStart t) with
      | none => rfl
      | some v =>
        simp only [Option.map_some, Value.toNumber_renumber]
        rfl
    · rfl

theorem renderParts_renumber (parts : List (List Char)) :
    (slots.renumber g).renderParts parts = slots.renderParts parts := by
  fun_induction renderParts slots parts with
  | case1 => rfl
  | case2 text => rfl
  | case3 text number rest shown ih =>
    rw [renderParts, ih, numbered?_renumber]
    congr 2
    dsimp only [shown]
    cases slots.numbered? number with
    | none => rfl
    | some v =>
      dsimp only [Option.map_some]
      rw [Value.text_renumber]

theorem render_renumber (t : List Char) : (slots.renumber g).render t = slots.render t :=
  renderParts_renumber g slots _

end Slots

section

variable (lookup : Lookup) (slots : Slots)

theorem atomValue_renumber (t : List Char) :
    atomValue (lookup.renumber g) (slots.renumber g) t =
      (atomValue lookup slots t).map (Value.renumber g) := by
  rw [atomValue, atomValue, Slots.read?_renumber]
  cases slots.read? t with
  | some v => rfl
  | none =>
    dsimp only [Option.map_none]
    cases hconstant : constant? t with
    | some v => exact congrArg Except.ok (constant?_renumber g hconstant).symm
    | none =>
      dsimp only
      cases Number.literal? t with
      | some x => rfl
      | none =>
        dsimp only
        rw [Slots.readSigned?_renumber]
        cases slots.readSigned? t with
        | some v => rfl
        | none =>
          dsimp only [Option.map_none]
          rw [Lookup.renumber, Slots.render_renumber]
          cases lookup (String.ofList t) with
          | some v => rfl
          | none => rfl

theorem operandValue_renumber (operand : List Char) :
    operandValue (lookup.renumber g) (slots.renumber g) operand =
      (operandValue lookup slots operand).map (Value.renumber g) := by
  -- a negation sees only whether the value is true
  have hnegated : ∀ (negations : Nat) (r : Except Cause Value),
      (r.map (Value.renumber g)).map
          (fun v => if negations % 2 = 1 then .boolean (!v.isTruthy) else v) =
        (r.map fun v => if negations % 2 = 1 then .boolean (!v.isTruthy) else v).map
          (Value.renumber g) := by
    intro negations r
    cases r with
    | error c => rfl
    | ok v =>
      simp only [Except.map, Value.isTruthy_renumber]
      split
      · rfl
      · rfl
  simp only [operandValue]
  split
  · rfl
  · split
    · rfl
    · rw [← hnegated]
      congr 1
      split
      · rfl
      · split
        · rfl
        · exact atomValue_renumber g lookup slots _

theorem treeValue_renumber (t : Tree (List Char)) :
    treeValue (lookup.renumber g) (slots.renumber g) t =
      (treeValue lookup slots t).map (Value.renumber g) := by
  induction t with
  | leaf operand => exact operandValue_renumber g lookup slots operand
  | node op l r ihl ihr =>
    rw [treeValue, treeValue, ihl, ihr]
    cases treeValue lookup slots l with
    | error c => rfl
    | ok x =>
      cases treeValue lookup slots r with
      | error c => rfl
      | ok y => exact congrArg Except.ok (Operator.apply_renumber g x y op)

theorem groupValue_renumber (content : List Char) :
    groupValue (lookup.renumber g) (slots.renumber g) content =
      (groupValue lookup slots content).map (Value.renumber g) := by
  simp only [groupValue]
  split
  · rfl
  · exact treeValue_renumber g lookup slots _

end

/-- What was read, with other line numbers in the values of groups. -/
def Reading.renumber (r : Reading) : Reading :=
  { r with slots := r.slots.renumber g }

variable (lookup : Lookup)

theorem Reading.close_renumber (r : Reading) :
    (r.renumber g).close (lookup.renumber g) = (r.close lookup).map (Reading.renumber g) := by
  obtain ⟨current, opened, slots⟩ := r
  cases opened with
  | nil => rfl
  | cons before opened =>
    show close (lookup.renumber g) ⟨current, before :: opened, slots.renumber g⟩ = _
    simp only [close]
    by_cases hempty : (Text.trim current.reverse).isEmpty = true
    · rw [if_pos hempty, if_pos hempty]
      rfl
    · rw [if_neg hempty, if_neg hempty, groupValue_renumber]
      cases groupValue lookup slots current.reverse with
      | error c => rfl
      | ok v => simp only [Except.map, renumber, Slots.renumber, Array.map_push, Array.size_map]

theorem Reading.step_renumber (r : Reading) (m : Marked) :
    (r.renumber g).step (lookup.renumber g) m = (r.step lookup m).map (Reading.renumber g) := by
  rw [step, step]
  split
  · rfl
  · split
    · exact close_renumber g lookup r
    · rfl

theorem readings_renumber (t : List Marked) (r : Reading) :
    t.foldlM (Reading.step (lookup.renumber g)) (r.renumber g) =
      (t.foldlM (Reading.step lookup) r).map (Reading.renumber g) := by
  induction t generalizing r with
  | nil => rfl
  | cons m t ih =>
    rw [List.foldlM_cons, List.foldlM_cons, Reading.step_renumber]
    cases r.step lookup m with
    | error c => rfl
    | ok r => exact ih r

theorem substitute_renumber (t : List Char) :
    substitute (lookup.renumber g) t =
      (substitute lookup t).map fun r => (r.1, Slots.renumber g r.2) := by
  have hread := readings_renumber g lookup (Quoted.mark .outside t) Reading.start
  have hstart : Reading.start.renumber g = Reading.start := by
    simp only [Reading.renumber, Reading.start, Slots.renumber, Array.map_empty]
  rw [hstart] at hread
  rw [substitute, substitute, hread]
  cases (Quoted.mark .outside t).foldlM (Reading.step lookup) Reading.start with
  | error c => rfl
  | ok r =>
    show (if r.opened.isEmpty then _ else _) = Except.map _ (if r.opened.isEmpty then _ else _)
    split
    · rfl
    · rfl

/-- **Expressions do not see lines.** With other line numbers in the functions among the
values of its names, an expression has the same value with these other line numbers, or
fails with the same cause. -/
theorem evaluate_renumber (text : String) :
    evaluate (lookup.renumber g) text = (evaluate lookup text).map (Value.renumber g) := by
  simp only [evaluate]
  split
  · rfl
  · split
    · rfl
    · rw [substitute_renumber]
      cases substitute lookup (Text.trim text.toList) with
      | error c => rfl
      | ok r => exact treeValue_renumber g lookup r.2 _

end Expr

end LineScript
