import LineScript.Value.Equality
import Mathlib

/-!
# Equality up to coercions

Loose equality chooses its coercion by the kinds of both values. The rules are stated here
without an order between them: whichever applicable rule is taken, the answer is the same,
and so the relation is symmetric.

- `Value.LooselyEqual`: the rules.
- `Value.looseEquals_boolean_left`, `looseEquals_object_left` and their mirror images: what
  one coercion does to a comparison.
- `Value.looseEquals_iff`: a comparison decides the rules.
- `Value.looseEquals_refines_strictEquals`: the algebra of the two equalities.
-/

namespace LineScript

namespace Value

/-! ### Equality without coercions -/

/-- The order of two doubles does not matter to their equality; NaN equals no double, itself
included, and the two zeros are equal. -/
theorem float_beq_comm (x y : Float) : (x == y) = (y == x) := by
  rw [Bool.eq_iff_iff, Float.beq_iff_ne_nan_and_eq, Float.beq_iff_ne_nan_and_eq]
  constructor
  · rintro ⟨hx, hy, rfl | ⟨rfl, rfl⟩ | ⟨rfl, rfl⟩⟩
    · exact ⟨hy, hx, .inl rfl⟩
    · exact ⟨hy, hx, .inr (.inr ⟨rfl, rfl⟩)⟩
    · exact ⟨hy, hx, .inr (.inl ⟨rfl, rfl⟩)⟩
  · rintro ⟨hy, hx, rfl | ⟨rfl, rfl⟩ | ⟨rfl, rfl⟩⟩
    · exact ⟨hx, hy, .inl rfl⟩
    · exact ⟨hx, hy, .inr (.inr ⟨rfl, rfl⟩)⟩
    · exact ⟨hx, hy, .inr (.inl ⟨rfl, rfl⟩)⟩

theorem strictEquals_comm (v w : Value) : v.strictEquals w = w.strictEquals v := by
  cases v <;> cases w <;> try rfl
  case boolean.boolean b c => exact Bool.beq_comm
  case number.number x y => exact float_beq_comm x y
  case string.string s t => exact Bool.beq_comm
  case function.function f g => exact Bool.beq_comm
  case std.std m n => exact Bool.beq_comm

/-- Values of different types are strictly different. -/
theorem type_eq_of_strictEquals {v w : Value} (h : v.strictEquals w = true) :
    v.type = w.type := by
  cases v <;> cases w <;> first | rfl | cases h

/-- The numbers of two booleans are equal exactly if the booleans are. -/
theorem ofBool_beq (b c : Bool) : (ofBool b == ofBool c) = (b == c) := by
  cases b <;> cases c <;> decide

theorem isObject_iff {v : Value} :
    v.isObject = true ↔ (∃ f, v = .function f) ∨ ∃ host, v = .std host := by
  cases v <;> simp [isObject]

/-! ### The rules -/

/-- Two values are equal up to coercions. No rule comes before another one. -/
inductive LooselyEqual : Value → Value → Prop where
  /-- Values that are equal without a coercion. -/
  | strict {v w : Value} (h : v.strictEquals w = true) : LooselyEqual v w
  /-- A boolean counts as its number. -/
  | boolean_left {b : Bool} {w : Value} (h : LooselyEqual (.number (ofBool b)) w) :
      LooselyEqual (.boolean b) w
  | boolean_right {v : Value} {b : Bool} (h : LooselyEqual v (.number (ofBool b))) :
      LooselyEqual v (.boolean b)
  /-- A text beside a number counts as its number. -/
  | text_left {s : String} {x : Float} (h : LooselyEqual (.number (textNumber s)) (.number x)) :
      LooselyEqual (.string s) (.number x)
  | text_right {x : Float} {s : String} (h : LooselyEqual (.number x) (.number (textNumber s))) :
      LooselyEqual (.number x) (.string s)
  /-- A function or host object beside any other value but undefined counts as its text. -/
  | object_left {v w : Value} (hv : v.isObject = true) (hw : w.isObject = false)
      (hne : w ≠ .undefined) (h : LooselyEqual (.string v.text) w) : LooselyEqual v w
  | object_right {v w : Value} (hw : w.isObject = true) (hv : v.isObject = false)
      (hne : v ≠ .undefined) (h : LooselyEqual v (.string w.text)) : LooselyEqual v w

/-- The rules come in mirrored pairs. -/
theorem LooselyEqual.symm {v w : Value} (h : LooselyEqual v w) : LooselyEqual w v := by
  induction h with
  | strict h => exact .strict (strictEquals_comm _ _ ▸ h)
  | boolean_left _ ih => exact .boolean_right ih
  | boolean_right _ ih => exact .boolean_left ih
  | text_left _ ih => exact .text_right ih
  | text_right _ ih => exact .text_left ih
  | object_left hv hw hne _ ih => exact .object_right hv hw hne ih
  | object_right hw hv hne _ ih => exact .object_left hw hv hne ih

/-! ### One coercion

The comparison itself takes the coercions in one order. Each rule's coercion, made first,
leaves the answer as it is. -/

theorem looseEquals_boolean_left (b : Bool) (w : Value) :
    (boolean b).looseEquals w = (number (ofBool b)).looseEquals w := rfl

theorem looseEquals_boolean_right (v : Value) (b : Bool) :
    v.looseEquals (.boolean b) = v.looseEquals (.number (ofBool b)) := rfl

theorem looseEquals_text_left (s : String) (x : Float) :
    (string s).looseEquals (.number x) = (number (textNumber s)).looseEquals (.number x) := rfl

theorem looseEquals_text_right (x : Float) (s : String) :
    (number x).looseEquals (.string s) = (number x).looseEquals (.number (textNumber s)) := rfl

theorem looseEquals_object_left {v w : Value} (hv : v.isObject = true) (hw : w.isObject = false)
    (hne : w ≠ .undefined) : v.looseEquals w = (string v.text).looseEquals w := by
  obtain ⟨f, rfl⟩ | ⟨n, rfl⟩ := isObject_iff.1 hv
  all_goals
    cases w with
    | undefined => exact absurd rfl hne
    | boolean c => rfl
    | number y => rfl
    | string t => rfl
    | function g => cases hw
    | std m => cases hw

theorem looseEquals_object_right {v w : Value} (hw : w.isObject = true)
    (hv : v.isObject = false) (hne : v ≠ .undefined) :
    v.looseEquals w = v.looseEquals (.string w.text) := by
  obtain ⟨g, rfl⟩ | ⟨n, rfl⟩ := isObject_iff.1 hw
  all_goals
    cases v with
    | undefined => exact absurd rfl hne
    | boolean b => rfl
    | number x => rfl
    | string s => rfl
    | function f => cases hv
    | std m => cases hv

/-- Two objects are compared without coercions. -/
theorem looseEquals_objects {v w : Value} (hv : v.isObject = true) (hw : w.isObject = true) :
    v.looseEquals w = v.strictEquals w := by
  obtain ⟨f, rfl⟩ | ⟨m, rfl⟩ := isObject_iff.1 hv
  all_goals
    obtain ⟨g, rfl⟩ | ⟨n, rfl⟩ := isObject_iff.1 hw <;> rfl

/-- Values of one type are compared without coercions. Two booleans are compared as numbers,
which comes to the same. -/
theorem looseEquals_of_type_eq {v w : Value} (h : v.type = w.type) :
    v.looseEquals w = v.strictEquals w := by
  cases v <;> cases w <;> try cases h
  case boolean.boolean b c => exact ofBool_beq b c
  all_goals rfl

theorem looseEquals_of_strictEquals {v w : Value} (h : v.strictEquals w = true) :
    v.looseEquals w = true := by
  rw [looseEquals_of_type_eq (type_eq_of_strictEquals h), h]

/-! ### The comparison decides the rules -/

/-- What the rules relate, the comparison finds equal, whichever rules were taken. -/
theorem LooselyEqual.looseEquals {v w : Value} (h : LooselyEqual v w) :
    v.looseEquals w = true := by
  induction h with
  | strict h => exact looseEquals_of_strictEquals h
  | boolean_left _ ih => rw [looseEquals_boolean_left, ih]
  | boolean_right _ ih => rw [looseEquals_boolean_right, ih]
  | text_left _ ih => rw [looseEquals_text_left, ih]
  | text_right _ ih => rw [looseEquals_text_right, ih]
  | object_left hv hw hne _ ih => rw [looseEquals_object_left hv hw hne, ih]
  | object_right hw hv hne _ ih => rw [looseEquals_object_right hw hv hne, ih]

/-- A number beside any value: the value is brought to a number in at most two coercions. -/
theorem LooselyEqual.of_number_left {x : Float} {w : Value}
    (h : (number x).looseEquals w = true) : LooselyEqual (.number x) w := by
  cases w with
  | undefined => cases h
  | boolean c => exact .boolean_right (.strict h)
  | number y => exact .strict h
  | string t => exact .text_right (.strict h)
  | function g =>
    exact .object_right rfl rfl (by rintro ⟨⟩) (.text_right (.strict h))
  | std n =>
    exact .object_right rfl rfl (by rintro ⟨⟩) (.text_right (.strict h))

/-- A text beside any value. -/
theorem LooselyEqual.of_string_left {s : String} {w : Value}
    (h : (string s).looseEquals w = true) : LooselyEqual (.string s) w := by
  cases w with
  | undefined => cases h
  | boolean c => exact .boolean_right (.text_left (.strict h))
  | number y => exact .text_left (.strict h)
  | string t => exact .strict h
  | function g => exact .object_right rfl rfl (by rintro ⟨⟩) (.strict h)
  | std n => exact .object_right rfl rfl (by rintro ⟨⟩) (.strict h)

/-- What the comparison finds equal, the rules relate. -/
theorem LooselyEqual.of_looseEquals {v w : Value} (h : v.looseEquals w = true) :
    LooselyEqual v w := by
  by_cases hv : v.isObject = true
  · by_cases hw : w.isObject = true
    · exact .strict (looseEquals_objects hv hw ▸ h)
    rw [Bool.not_eq_true] at hw
    by_cases hne : w = .undefined
    · obtain ⟨f, rfl⟩ | ⟨n, rfl⟩ := isObject_iff.1 hv <;> cases hne <;> cases h
    · exact .object_left hv hw hne (.of_string_left (looseEquals_object_left hv hw hne ▸ h))
  · cases v with
    | undefined =>
      obtain rfl := (looseEquals_undefined w).1 h
      exact .strict rfl
    | boolean b => exact .boolean_left (.of_number_left h)
    | number x => exact .of_number_left h
    | string s => exact .of_string_left h
    | function f => exact absurd rfl hv
    | std n => exact absurd rfl hv

/-- The comparison decides the rules. -/
theorem looseEquals_iff {v w : Value} : v.looseEquals w = true ↔ LooselyEqual v w :=
  ⟨.of_looseEquals, LooselyEqual.looseEquals⟩

theorem looseEquals_comm (v w : Value) : v.looseEquals w = w.looseEquals v := by
  rw [Bool.eq_iff_iff, looseEquals_iff, looseEquals_iff]
  exact ⟨LooselyEqual.symm, LooselyEqual.symm⟩

/-- **Loose equality is a symmetric extension of strict equality.** It is the relation of the
rules; the order of the two values does not matter; strictly equal values are loosely equal;
values of one type are loosely equal only if they are strictly equal; and nothing but
undefined is loosely equal to undefined. -/
theorem looseEquals_refines_strictEquals (v w : Value) :
    (v.looseEquals w = true ↔ LooselyEqual v w) ∧
      v.looseEquals w = w.looseEquals v ∧
      (v.strictEquals w = true → v.looseEquals w = true) ∧
      (v.type = w.type → v.looseEquals w = v.strictEquals w) ∧
      (looseEquals .undefined w = true ↔ w = .undefined) := by
  refine ⟨looseEquals_iff, looseEquals_comm v w, ?_, ?_, looseEquals_undefined w⟩
  · exact looseEquals_of_strictEquals
  · exact looseEquals_of_type_eq

/-- A boolean beside itself: it is compared as a number, and the answer is the strict one. -/
theorem true_looseEquals_itself :
    (boolean true).strictEquals (.boolean true) = true ∧
      (boolean true).type = (boolean true).type ∧
      (boolean true).looseEquals (.boolean true) = true ∧
      (boolean true).looseEquals (.boolean true) = (boolean true).strictEquals (.boolean true) :=
  ⟨rfl, rfl, (looseEquals_refines_strictEquals _ _).2.2.1 rfl,
    (looseEquals_refines_strictEquals _ _).2.2.2.1 rfl⟩

end Value

end LineScript
