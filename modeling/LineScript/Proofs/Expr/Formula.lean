import LineScript.Expr.Evaluate
import LineScript.Proofs.Text.Quoted

/-!
# Formulas

The expressions as trees, with the text of each: atoms, groups in parentheses,
and binary operators. The trees are indexed by a tier, so that a tree exists
exactly for the grouping that the tiers ask for: every operator outside
parentheses binds at least as tightly as the index says, and every tier
associates to the left.

- `Atom`, `Formula`: the trees.
- `Formula.text`: the text of a formula.
- `Formula.value`, `Formula.undefined`: the value of a formula, and the names in
  it that have none, in the order in which they are reached.
- `Formula.exists_text`: every row of operands with operators between them is the
  text of a formula.
-/

namespace LineScript

namespace Expr

/-! ### Blanks, signs and negations -/

/-- A run of blanks, possibly empty. -/
structure Gap where
  text : List Char
  blank : ∀ c ∈ text, Text.isBlank c = true

/-- No blanks at all. -/
def Gap.empty : Gap :=
  ⟨[], by simp⟩

/-- A run of at least one blank. -/
structure Blanks extends Gap where
  ne_nil : text ≠ []

/-- One space. -/
def Blanks.space : Blanks :=
  ⟨⟨[' '], List.all_eq_true.1 (by decide)⟩, by decide⟩

/-- A sign directly before a group. -/
inductive Sign where
  | plus
  | minus

/-- The text of a sign that may be missing. -/
def Sign.text : Option Sign → List Char
  | none => []
  | some plus => ['+']
  | some minus => ['-']

/-- A sign gives the value as a number, negated for a minus. -/
def Sign.apply : Option Sign → Value → Value
  | none, v => v
  | some plus, v => .number v.toNumber
  | some minus, v => .number (-v.toNumber)

/-- What stands before an operand: nothing, or a run of one and `more` negations
and the blanks after it. -/
inductive Negations where
  | none
  | run (more : Nat) (gap : Gap)

namespace Negations

def count : Negations → Nat
  | none => 0
  | run more _ => more + 1

def text : Negations → List Char
  | none => []
  | run more gap => List.replicate (more + 1) '!' ++ gap.text

/-- An odd number of negations negates the truth of the value, an even number
keeps the value. -/
def apply (n : Negations) (v : Value) : Value :=
  if n.count % 2 = 1 then .boolean (!v.isTruthy) else v

end Negations

/-- An operator as it is written: one of its tokens between blanks. -/
structure Infix where
  op : Operator
  token : List Char
  denotes : Operator.ofToken? (String.ofList token) = some op
  before : Blanks
  after : Blanks

def Infix.text (o : Infix) : List Char :=
  o.before.text ++ o.token ++ o.after.text

/-! ### Atoms -/

/-- A character that is one of a word wherever it stands: no blank, quote or
parenthesis. -/
def isPlain (c : Char) : Bool :=
  !Text.isBlank c && !Quoted.isQuote c && c ≠ '(' && c ≠ ')'

/-- The texts that are words of their own wherever they stand: not empty, and
without blanks, quotes, parentheses, negations and the marks of placeholders. -/
structure Wordy (t : List Char) : Prop where
  ne_nil : t ≠ []
  plain : ∀ c ∈ t, isPlain c = true
  noNegation : '!' ∉ t
  noMark : slotMark ∉ t

/-- The texts that are names: words that are nothing else. -/
structure IsName (t : List Char) : Prop extends Wordy t where
  noOperator : Operator.ofToken? (String.ofList t) = none
  noConstant : constant? t = none
  noNumber : Number.literal? t = none

/-- An operand without negations that is no group. -/
inductive Atom where
  | string (quote : Char) (content : List Char) (isQuote : Quoted.isQuote quote = true)
      (closed : Quoted.Closed quote content)
  | number (t : List Char) (x : Float) (denotes : Number.literalTrimmed? t = some x)
  | constant (t : List Char) (v : Value) (denotes : constant? t = some v)
  | name (t : List Char) (isName : IsName t)

namespace Atom

def text : Atom → List Char
  | string quote content _ _ => quote :: content ++ [quote]
  | number t _ _ => t
  | constant t _ _ => t
  | name t _ => t

variable (lookup : Lookup)

/-- The value of an atom; a name without a value counts as undefined. -/
def value : Atom → Value
  | string _ content _ _ => .string (String.ofList content)
  | number _ x _ => .number x
  | constant _ v _ => v
  | name t _ => (lookup (String.ofList t)).getD .undefined

/-- The atom as a list of at most one name, if it is a name without a value. -/
def undefined : Atom → List String
  | name t _ => if (lookup (String.ofList t)).isNone then [String.ofList t] else []
  | _ => []

end Atom

/-- What a computation gives that fails at the first of some names, if there is
one. -/
def unlessUndefined {α : Type} (names : List String) (a : α) : Except Cause α :=
  match names with
  | [] => .ok a
  | name :: _ => .error (.undefinedVariable name)

/-- Of two computations in a row, the names of the first come first. -/
theorem unlessUndefined_bind {α β : Type} {names more : List String} {a : α} {b : β}
    {f : α → Except Cause β} (h : f a = unlessUndefined more b) :
    unlessUndefined names a >>= f = unlessUndefined (names ++ more) b := by
  cases names with
  | nil => exact h
  | cons name names => rfl

theorem unlessUndefined_bind_ok {α β : Type} {names : List String} {a : α} {b : β}
    {f : α → Except Cause β} (h : f a = .ok b) :
    unlessUndefined names a >>= f = unlessUndefined names b := by
  cases names with
  | nil => exact h
  | cons name names => rfl

theorem unlessUndefined_map {α β : Type} (names : List String) (a : α) (f : α → β) :
    (unlessUndefined names a).map f = unlessUndefined names (f a) := by
  cases names <;> rfl

/-! ### Formulas -/

/-- The expressions in which every operator outside parentheses has at least the
tier `k`. The right operand of an operator holds tighter ones only, so equally
tight operators associate to the left. -/
inductive Formula : Nat → Type where
  | atom {k : Nat} (negations : Negations) (a : Atom) : Formula k
  | group {k : Nat} (negations : Negations) (sign : Option Sign) (before : Gap)
      (inner : Formula 0) (after : Gap) : Formula k
  | binary {k : Nat} (o : Infix) (tier : k ≤ o.op.tier) (l : Formula o.op.tier)
      (r : Formula (o.op.tier + 1)) : Formula k

namespace Formula

def text {k : Nat} : Formula k → List Char
  | atom negations a => negations.text ++ a.text
  | group negations sign before inner after =>
    negations.text ++ Sign.text sign ++ '(' :: before.text ++ inner.text ++ after.text ++ [')']
  | binary o _ l r => l.text ++ o.text ++ r.text

section

variable (lookup : Lookup)

/-- The value of a formula. Both operands of every operator are evaluated. -/
def value {k : Nat} : Formula k → Value
  | atom negations a => negations.apply (a.value lookup)
  | group negations sign _ inner _ => negations.apply (Sign.apply sign inner.value)
  | binary o _ l r => o.op.apply l.value r.value

/-- The names without a value outside all groups, from left to right. -/
def plainUndefined {k : Nat} : Formula k → List String
  | atom _ a => a.undefined lookup
  | group _ _ _ _ _ => []
  | binary _ _ l r => l.plainUndefined ++ r.plainUndefined

/-- The names without a value in groups, in the order in which the groups are
closed. -/
def groupUndefined {k : Nat} : Formula k → List String
  | atom _ _ => []
  | group _ _ _ inner _ => inner.groupUndefined ++ inner.plainUndefined lookup
  | binary _ _ l r => l.groupUndefined ++ r.groupUndefined

/-- The names without a value in the order in which they are reached: groups come
before all that is outside them. -/
def undefined {k : Nat} (e : Formula k) : List String :=
  e.groupUndefined lookup ++ e.plainUndefined lookup

end

/-- No operand is written `!=`: no single negation stands directly before the
name `=`. -/
def Legible {k : Nat} : Formula k → Prop
  | atom negations a => negations.text ++ a.text ≠ ['!', '=']
  | group _ _ _ inner _ => inner.Legible
  | binary _ _ l r => l.Legible ∧ r.Legible

instance decidableLegible {k : Nat} : (e : Formula k) → Decidable e.Legible
  | atom negations a => inferInstanceAs (Decidable (negations.text ++ a.text ≠ ['!', '=']))
  | group _ _ _ inner _ => decidableLegible inner
  | binary _ _ l r => @instDecidableAnd _ _ (decidableLegible l) (decidableLegible r)

/-! ### Every row of operands is a formula -/

/-- The same formula with a smaller index. -/
def lift {j k : Nat} (h : j ≤ k) : Formula k → Formula j
  | atom negations a => atom negations a
  | group negations sign before inner after => group negations sign before inner after
  | binary o tier l r => binary o (Nat.le_trans h tier) l r

/-- The formula with one more operator and operand at its right end. -/
def attach {k : Nat} (o : Infix) (operand : Formula 7) : Formula k → k ≤ o.op.tier → Formula k
  | atom negations a, h => binary o h (atom negations a) (operand.lift (by cases o.op <;> decide))
  | group negations sign before inner after, h =>
    binary o h (group negations sign before inner after) (operand.lift (by cases o.op <;> decide))
  | binary top tier l r, h =>
    if hlt : top.op.tier < o.op.tier then binary top tier l (attach o operand r hlt)
    else binary o h (binary top (Nat.le_of_not_lt hlt) l r)
      (operand.lift (by cases o.op <;> decide))

theorem text_lift {j k : Nat} (h : j ≤ k) (e : Formula k) : (e.lift h).text = e.text := by
  cases e <;> rfl

theorem text_attach {k : Nat} (o : Infix) (operand : Formula 7) (e : Formula k)
    (h : k ≤ o.op.tier) : (attach o operand e h).text = e.text ++ o.text ++ operand.text := by
  induction e with
  | atom negations a => simp [attach, text, text_lift]
  | group negations sign before inner after => simp [attach, text, text_lift]
  | binary top tier l r _ ih =>
    rw [attach]
    split
    · simp [text, ih]
    · simp [text, text_lift]

/-- Every row of operands with operators between them is the text of a formula. -/
theorem exists_text (first : Formula 7) (rest : List (Infix × Formula 7)) :
    ∃ e : Formula 0, e.text = first.text ++ rest.flatMap fun p => p.1.text ++ p.2.text := by
  suffices h : ∀ (rest : List (Infix × Formula 7)) (e : Formula 0),
      ∃ e' : Formula 0, e'.text = e.text ++ rest.flatMap fun p => p.1.text ++ p.2.text by
    simpa [text_lift] using h rest (first.lift (Nat.zero_le 7))
  intro rest
  induction rest with
  | nil => exact fun e => ⟨e, by simp⟩
  | cons p rest ih =>
    intro e
    obtain ⟨e', he'⟩ := ih (attach p.1 p.2 e (Nat.zero_le _))
    exact ⟨e', by simp [he', text_attach]⟩

end Formula

end Expr

end LineScript
