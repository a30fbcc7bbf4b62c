import LineScript.Value.Basic

/-!
# Equality of values

- `Value.strictEquals`: equality without coercions. Functions and host objects
  are compared by identity, and NaN differs from itself.
- `Value.looseEquals`: equality after coercions.
- `looseEquals_undefined`: undefined equals only itself.
-/

namespace LineScript

namespace Value

/-- Equality without coercions: values of different types differ. -/
def strictEquals : Value → Value → Bool
  | .undefined, .undefined => true
  | .boolean a, .boolean b => a == b
  | .number a, .number b => a == b
  | .string a, .string b => a == b
  | .function f, .function g => f.id == g.id
  | .std a, .std b => a == b
  | _, _ => false

/-- A boolean as its number, every other value as it is. -/
def booleanAsNumber : Value → Value
  | .boolean b => .number (ofBool b)
  | v => v

/-- A function or host object as its text, every other value as it is. -/
def objectAsText (v : Value) : Value :=
  if v.isObject then .string v.text else v

/-- Equality of two values that are neither booleans nor an object beside a
primitive: a number and a text are compared as numbers. -/
def numericEquals : Value → Value → Bool
  | .number x, .string s => x == textNumber s
  | .string s, .number x => textNumber s == x
  | v, w => v.strictEquals w

/-- Equality after coercions. Booleans count as numbers; an object beside a
number or a text counts as its text; a text beside a number counts as a number.
Undefined equals only itself. -/
def looseEquals (v w : Value) : Bool :=
  let v := v.booleanAsNumber
  let w := w.booleanAsNumber
  if v.isObject && w.isObject || v = .undefined || w = .undefined then v.strictEquals w
  else numericEquals v.objectAsText w.objectAsText

/-! ### Small facts -/

/-- Undefined is loosely equal to itself only. -/
theorem looseEquals_undefined (w : Value) :
    looseEquals .undefined w = true ↔ w = .undefined := by
  cases w <;> simp [looseEquals, booleanAsNumber, strictEquals]

end Value

end LineScript
