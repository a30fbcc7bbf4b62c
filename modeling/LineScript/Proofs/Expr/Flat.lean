import LineScript.Proofs.Expr.Resolve

/-!
# A formula without its groups

When all groups are closed, a formula is a chain of operands in which placeholders
stand for the groups.

- `Formula.flat`, `Formula.slotValues`: the text of a formula with placeholders, and
  the values of its groups in the order in which they are closed.
- `Formula.chain_ofText`: cutting the text gives the operands of the formula.
- `Formula.tree_binary`: the tiers group them as the formula does.
- `Formula.flatValue_flat`: the value of the text is the value of the formula.
-/

namespace LineScript

namespace Expr

open Quoted (mark)

/-! ### Trimmed operands -/

variable (lookup : Lookup)

theorem operandValue_trim (slots : Slots) (t : List Char) :
    operandValue lookup slots (Text.trim t) = operandValue lookup slots t := by
  simp only [operandValue, Text.trim_trim]

theorem treeValue_map_trim (slots : Slots) (t : Tree (List Char)) :
    treeValue lookup slots (t.map Text.trim) = treeValue lookup slots t := by
  induction t with
  | leaf operand => exact operandValue_trim lookup slots operand
  | node op l r ihl ihr => rw [Tree.map, treeValue, treeValue, ihl, ihr]

/-- The blanks around the operands of a text do not count. -/
theorem flatValue_eq (slots : Slots) (t : List Char) :
    flatValue lookup slots t =
      treeValue lookup slots ((Chain.ofText t).map Text.trim).tree := by
  rw [Chain.tree_map, treeValue_map_trim, flatValue]

/-! ### Cutting a text at an operator -/

theorem run_of_blank {gap : List Char} (h : ∀ c ∈ gap, Text.isBlank c = true) :
    Quoted.run .outside gap = .outside :=
  Quoted.run_plain fun c hc => Text.not_quote_of_blank (h c hc)

theorem mark_of_blank {gap : List Char} (h : ∀ c ∈ gap, Text.isBlank c = true) :
    mark .outside gap = gap.map fun c => (c, true) :=
  Quoted.mark_plain fun c hc => Text.not_quote_of_blank (h c hc)

theorem Infix.run_text (o : Infix) : Quoted.run .outside o.text = .outside := by
  rw [text, Quoted.run_append, Quoted.run_append, run_of_blank o.before.blank,
    run_of_plain (isPlain_of_token o.denotes), run_of_blank o.after.blank]

/-- An operator cuts a text in two if it stands outside all literals. -/
theorem Chain.ofText_infix (o : Infix) {s : List Char} (hs : Quoted.run .outside s = .outside)
    (t : List Char) :
    ofText (s ++ o.text ++ t) =
      (ofText (s ++ o.before.text)).append o.op (ofText (o.after.text ++ t)) := by
  have hplain := isPlain_of_token o.denotes
  -- only the blanks right before and right after the token cut
  obtain ⟨before, b, hbefore⟩ : ∃ before b, o.before.text = before ++ [b] :=
    ⟨_, _, (List.dropLast_concat_getLast o.before.ne_nil).symm⟩
  obtain ⟨a, after, hafter⟩ := List.exists_cons_of_ne_nil o.after.ne_nil
  have hb : Text.isBlank b = true := o.before.blank b (by simp [hbefore])
  have ha : Text.isBlank a = true := o.after.blank a (by simp [hafter])
  have hrun : Quoted.run .outside (s ++ before) = .outside := by
    rw [Quoted.run_append, hs]
    exact run_of_blank fun c hc => o.before.blank c (by simp [hbefore, hc])
  have hwhole : mark .outside (s ++ o.text ++ t) =
      mark .outside (s ++ before) ++
        (b, true) :: (mark .outside o.token ++ (a, true) :: mark .outside (after ++ t)) := by
    have htext : s ++ o.text ++ t = (s ++ before) ++ b :: (o.token ++ a :: (after ++ t)) := by
      simp [Infix.text, hbefore, hafter]
    rw [htext, Quoted.mark_append_of_outside hrun, Quoted.mark_cons_plain (Text.not_quote_of_blank hb),
      Quoted.mark_append_of_outside (run_of_plain hplain),
      Quoted.mark_cons_plain (Text.not_quote_of_blank ha)]
  have hleft : mark .outside (s ++ o.before.text) = mark .outside (s ++ before) ++ [(b, true)] := by
    rw [hbefore, ← List.append_assoc, Quoted.mark_append_of_outside hrun]
    rfl
  have hright : mark .outside (o.after.text ++ t) = (a, true) :: mark .outside (after ++ t) := by
    rw [hafter, List.cons_append, Quoted.mark_cons_plain (Text.not_quote_of_blank ha)]
  rw [ofText_eq, ofText_eq, ofText_eq, hwhole, hleft, hright]
  exact ofMarked_operator hb ha (unsplit_of_plain hplain)
    (by rw [operator?_of_plain hplain, o.denotes])

/-- A text that is one operand, with blanks around it. -/
theorem Chain.ofText_operand {u : List Char} (hu : IsOperand u) {p q : List Char}
    (hp : ∀ c ∈ p, Text.isBlank c = true) (hq : ∀ c ∈ q, Text.isBlank c = true) :
    (ofText (p ++ u ++ q)).map Text.trim = ⟨u, []⟩ := by
  have hmark : mark .outside (p ++ u ++ q) =
      (p.map fun c => (c, true)) ++ mark .outside u ++ q.map fun c => (c, true) := by
    rw [Quoted.mark_append, Quoted.mark_append, Quoted.run_append, run_of_blank hp, hu.outside,
      mark_of_blank hp, mark_of_blank hq]
  have hinert : Inert (mark .outside (p ++ u ++ q)) := by
    rw [hmark]
    exact .padEnd (separates_of_blank hq) (.padStart (separates_of_blank hp) hu.inert)
  rw [ofText_eq, ofMarked_of_inert hinert, plain, Quoted.map_fst_mark, map,
    hu.tight.trim_padded hp hq]
  rfl

/-! ### Placeholders for groups -/

namespace Formula

variable {k : Nat}

/-- How many groups a formula has. -/
def groups {k : Nat} : Formula k → Nat
  | atom _ _ => 0
  | group _ _ _ inner _ => inner.groups + 1
  | binary _ _ l r => l.groups + r.groups

/-- The text of a formula when its groups are closed and their slots are numbered
from `n` on. -/
def flat {k : Nat} (n : Nat) : Formula k → List Char
  | atom negations a => negations.text ++ a.text
  | group negations sign _ inner _ =>
    negations.text ++ (Sign.text sign ++ placeholder (n + inner.groups))
  | binary o _ l r => flat n l ++ o.text ++ flat (n + l.groups) r

/-- The values of the groups in the order in which they are closed. -/
def slotValues {k : Nat} : Formula k → List Value
  | atom _ _ => []
  | group _ _ _ inner _ => inner.slotValues ++ [inner.value lookup]
  | binary _ _ l r => l.slotValues ++ r.slotValues

/-- The operands of a formula with the operators between them. -/
def chain {k : Nat} (n : Nat) : Formula k → Chain
  | binary o _ l r => (chain n l).append o.op (chain (n + l.groups) r)
  | e => ⟨flat n e, []⟩

theorem length_slotValues (e : Formula k) : (e.slotValues lookup).length = e.groups := by
  induction e with
  | atom negations a => rfl
  | group negations sign before inner after ih => simp [slotValues, groups, ih]
  | binary o tier l r ihl ihr => simp [slotValues, groups, ihl, ihr]

theorem isOperand_atom (negations : Negations) (a : Atom)
    (h : (atom (k := k) negations a).Legible) : IsOperand (negations.text ++ a.text) :=
  isOperand_of_solid negations a.solid h

theorem isOperand_placeholder (negations : Negations) (sign : Option Sign) (n : Nat) :
    IsOperand (negations.text ++ (Sign.text sign ++ placeholder n)) := by
  refine isOperand_of_solid negations (solid_placeholder sign n) fun h => ?_
  have hmem : slotMark ∈ negations.text ++ (Sign.text sign ++ placeholder n) := by
    simp [placeholder]
  rw [h] at hmem
  exact absurd hmem (by decide)

theorem run_flat {e : Formula k} (h : e.Legible) (n : Nat) :
    Quoted.run .outside (e.flat n) = .outside := by
  induction e generalizing n with
  | atom negations a => exact (isOperand_atom negations a h).outside
  | group negations sign before inner after =>
    exact (isOperand_placeholder negations sign _).outside
  | binary o tier l r ihl ihr =>
    rw [flat, Quoted.run_append, Quoted.run_append, ihl h.1, o.run_text, ihr h.2]

theorem tight_flat {e : Formula k} (h : e.Legible) (n : Nat) : Text.Tight (e.flat n) := by
  induction e generalizing n with
  | atom negations a => exact (isOperand_atom negations a h).tight
  | group negations sign before inner after =>
    exact (isOperand_placeholder negations sign _).tight
  | binary o tier l r ihl ihr => exact (ihl h.1 n).append (ihr h.2 _) o.text

/-- Cutting the text of a formula gives its operands. -/
theorem chain_ofText {e : Formula k} (h : e.Legible) (n : Nat) {p q : List Char}
    (hp : ∀ c ∈ p, Text.isBlank c = true) (hq : ∀ c ∈ q, Text.isBlank c = true) :
    (Chain.ofText (p ++ e.flat n ++ q)).map Text.trim = e.chain n := by
  -- the blanks around an operator become the blanks around the operands beside it
  induction e generalizing n p q with
  | atom negations a => exact Chain.ofText_operand (isOperand_atom negations a h) hp hq
  | group negations sign before inner after =>
    exact Chain.ofText_operand (isOperand_placeholder negations sign _) hp hq
  | binary o tier l r ihl ihr =>
    have hrun : Quoted.run .outside (p ++ l.flat n) = .outside := by
      rw [Quoted.run_append, run_of_blank hp, run_flat h.1]
    have htext : p ++ flat n (binary o tier l r) ++ q =
        (p ++ l.flat n) ++ o.text ++ (r.flat (n + l.groups) ++ q) := by
      simp [flat]
    rw [htext, Chain.ofText_infix o hrun, Chain.map_append, ihl h.1 n hp o.before.blank,
      ← List.append_assoc, ihr h.2 _ o.after.blank hq]
    rfl

/-! ### The tree of a formula -/

theorem tier_chain (e : Formula k) (n : Nat) : ∀ p ∈ (e.chain n).rest, k ≤ p.1.tier := by
  induction e generalizing n with
  | atom negations a => simp [chain]
  | group negations sign before inner after => simp [chain]
  | binary o tier l r ihl ihr =>
    intro p hp
    rcases List.mem_append.1 hp with hp | hp
    · exact Nat.le_trans tier (ihl n p hp)
    · rcases List.mem_cons.1 hp with rfl | hp
      · exact tier
      · have hright : o.op.tier + 1 ≤ p.1.tier := ihr _ p hp
        omega

/-- The operator at the top is no weaker than the index allows. -/
theorem atLeast_chain (e : Formula k) (n : Nat) : (e.chain n).tree.AtLeast k := by
  induction e generalizing n with
  | atom negations a => trivial
  | group negations sign before inner after => trivial
  | binary o tier l r ihl _ =>
    rw [chain, Chain.tree_append (ihl n) (r.tier_chain _)]
    exact tier

/-- The tiers group the operands of a formula as the formula does. -/
theorem tree_binary (o : Infix) (tier : k ≤ o.op.tier) (l : Formula o.op.tier)
    (r : Formula (o.op.tier + 1)) (n : Nat) :
    ((binary o tier l r).chain n).tree =
      .node o.op (l.chain n).tree (r.chain (n + l.groups)).tree :=
  Chain.tree_append (l.atLeast_chain n) (r.tier_chain _)

/-- The value of a formula's operands, grouped by the tiers, when the slots hold
the values of its groups. -/
theorem treeValue_chain {e : Formula k} {slots : Slots} {before after : List Value}
    (hslots : slots.toList = before ++ e.slotValues lookup ++ after) :
    treeValue lookup slots (e.chain before.length).tree =
      unlessUndefined (e.plainUndefined lookup) (e.value lookup) := by
  -- the slots before and after those of the formula belong to what stands around it
  induction e generalizing before after with
  | atom negations a => exact Atom.operandValue_eq lookup slots negations a
  | group negations sign gap inner gap' =>
    have hslot : slots[before.length + inner.groups]? = some (inner.value lookup) := by
      rw [← Array.getElem?_toList, hslots, slotValues, ← length_slotValues lookup inner]
      simp
    exact operandValue_placeholder lookup slots negations sign hslot
  | binary o tier l r ihl ihr =>
    have hleft : slots.toList =
        before ++ l.slotValues lookup ++ (r.slotValues lookup ++ after) := by
      simpa [slotValues] using hslots
    have hright : slots.toList =
        (before ++ l.slotValues lookup) ++ r.slotValues lookup ++ after := by
      simpa [slotValues] using hslots
    have hr := ihr hright
    rw [List.length_append, length_slotValues] at hr
    rw [tree_binary, treeValue, ihl hleft, hr]
    exact unlessUndefined_bind (unlessUndefined_map _ _ (o.op.apply (l.value lookup)))

/-- The value of a formula's text is the value of the formula. -/
theorem flatValue_flat {e : Formula k} (h : e.Legible) {slots : Slots} {before after : List Value}
    (hslots : slots.toList = before ++ e.slotValues lookup ++ after) :
    flatValue lookup slots (e.flat before.length) =
      unlessUndefined (e.plainUndefined lookup) (e.value lookup) := by
  have hchain := chain_ofText h before.length (p := []) (q := []) (by simp) (by simp)
  rw [List.nil_append, List.append_nil] at hchain
  rw [flatValue_eq, hchain, treeValue_chain lookup hslots]

end Formula

end Expr

end LineScript
