import LineScript.Number.Format
import LineScript.Number.Literal
import LineScript.Program.Instruction
import LineScript.Text.Escaped

/-!
# Values

The values that a script computes with: undefined, booleans, double-precision
numbers, texts, functions, and the object that stands for the host.

- `Function`: a function with its parameters and body. Two functions are the
  same object exactly if they have the same identity.
- `Value.isTruthy`, `toNumber`, `text`: the coercions.
- `Value.debugText`: the form in which a value's inner structure can be seen.
-/

namespace LineScript

/-- A function that a script defined. The identity is given when it is defined
and never given twice; a body keeps the lines between the header and the `END`. -/
structure Function where
  id : Nat
  name : Option String
  params : List String
  body : List Instruction
deriving DecidableEq, Repr

/-- The name that a call of the function goes by. -/
def Function.label (f : Function) : String :=
  f.name.getD "<anonymous>"

/-- A value. The host object carries the identity of its host. -/
inductive Value where
  | undefined
  | boolean (b : Bool)
  | number (x : Float)
  | string (s : String)
  | function (f : Function)
  | std (host : Nat)
deriving DecidableEq

/-- The type of a value. -/
inductive ValueType where
  | undefined
  | boolean
  | number
  | string
  | function
  | object
deriving DecidableEq, Repr

/-- The name of a type, as shown in messages. -/
def ValueType.name : ValueType → String
  | .undefined => "undefined"
  | .boolean => "boolean"
  | .number => "number"
  | .string => "string"
  | .function => "function"
  | .object => "object"

namespace Value

/-- The type of a value. -/
def type : Value → ValueType
  | .undefined => .undefined
  | .boolean _ => .boolean
  | .number _ => .number
  | .string _ => .string
  | .function _ => .function
  | .std _ => .object

/-- Whether the value is a text. -/
def isString : Value → Bool
  | .string _ => true
  | _ => false

/-- Whether the value is a function or the host object. -/
def isObject : Value → Bool
  | .function _ | .std _ => true
  | _ => false

/-- Whether a condition with this value holds. Undefined, `false`, both zeros,
NaN and the empty text do not hold. -/
def isTruthy : Value → Bool
  | .undefined => false
  | .boolean b => b
  | .number x => x != 0.0 && !x.isNaN
  | .string s => !s.isEmpty
  | .function _ | .std _ => true

/-- The number of a boolean. -/
def ofBool (b : Bool) : Float :=
  if b then 1.0 else 0.0

/-- The number of a text: the one that it denotes, zero for a blank text, and
otherwise NaN. -/
def textNumber (s : String) : Float :=
  let t := Text.trim s.toList
  if t.isEmpty then 0.0 else (Number.literal? t).getD (0.0 / 0.0)

/-- The value as a number. -/
def toNumber : Value → Float
  | .undefined | .function _ | .std _ => 0.0 / 0.0
  | .boolean b => ofBool b
  | .number x => x
  | .string s => textNumber s

/-- The text of a function value. -/
def functionText (f : Function) : String :=
  match f.name with
  | some name => "[Function: " ++ name ++ "]"
  | none => "[Function (anonymous)]"

/-- The value as a text. -/
def text : Value → String
  | .undefined => "undefined"
  | .boolean b => if b then "true" else "false"
  | .number x => Number.format x
  | .string s => s
  | .function f => functionText f
  | .std _ => "[object std]"

/-! ### Inner structure -/

/-- The items of a list in brackets. -/
def bracketed (items : List String) : String :=
  "[" ++ String.intercalate ", " items ++ "]"

/-- An instruction with its fields. -/
def debugInstruction (i : Instruction) : String :=
  "Instruction \x7b text: " ++ Text.escaped i.text ++ ", line: " ++ toString i.line ++ " \x7d"

/-- A function with its fields; the identity is not shown. -/
def debugFunction (f : Function) : String :=
  let name := match f.name with
    | some name => "Some(" ++ Text.escaped name ++ ")"
    | none => "None"
  "Function(FunctionValue \x7b name: " ++ name ++
    ", params: " ++ bracketed (f.params.map Text.escaped) ++
    ", body: " ++ bracketed (f.body.map debugInstruction) ++ " \x7d)"

/-- The form in which the inner structure of a value can be seen: texts in
quotes, functions with their fields, all else as its text. -/
def debugText : Value → String
  | .string s => Text.escaped s
  | .function f => debugFunction f
  | v => v.text

end Value

end LineScript
