import LineScript.Expr.Chain

/-!
# Cutting a text at an operator

- `Chain.ofMarked_operator`: an operator between blanks cuts a chain in two.
- `Inert`, `Chain.ofMarked_of_inert`: a text in which no word is an operator is
  one operand.
- `Chain.tree_append`: the tree of a chain that is cut at an operator which binds
  no tighter than all before it and weaker than all after it.
-/

namespace LineScript

namespace Expr

/-! ### Words -/

/-- A separator cuts the words of a text in two. -/
theorem fields_append (s t : List Marked) {m : Marked} (hm : m.separates = true) :
    fields (s ++ m :: t) =
      ((fields s).1, (fields s).2 ++ (m, (fields t).1) :: (fields t).2) := by
  induction s with
  | nil => simp [fields, hm]
  | cons n s ih =>
    rw [List.cons_append, fields, ih]
    by_cases hn : n.separates = true
    · simp [fields, hn]
    · simp [fields, hn]

/-- A text without separators is one word. -/
theorem fields_of_unsplit {t : List Marked} (h : ∀ m ∈ t, m.separates = false) :
    fields t = (t, []) := by
  induction t with
  | nil => rfl
  | cons m t ih =>
    rw [fields, ih fun n hn => h n (by simp [hn])]
    simp [h m]

theorem operator?_nil : operator? [] = none := rfl

/-! ### Chains -/

namespace Chain

/-- The chain of a marked text. -/
def ofMarked (t : List Marked) : Chain :=
  ofFields (fields t).1 (fields t).2

theorem ofText_eq (t : List Char) : ofText t = ofMarked (Quoted.mark .outside t) := rfl

/-- Two chains with an operator between them. -/
def append (c : Chain) (op : Operator) (d : Chain) : Chain :=
  ⟨c.first, c.rest ++ (op, d.first) :: d.rest⟩

theorem ofFields_operator {m m' : Marked} {token next : List Marked} {op : Operator}
    (htoken : operator? token = some op) (word : List Marked)
    (before after : List (Marked × List Marked)) :
    ofFields word (before ++ (m, token) :: (m', next) :: after) =
      (ofFields word (before ++ [(m, [])])).append op (ofFields [] ((m', next) :: after)) := by
  induction before generalizing word with
  | nil =>
    cases hword : operator? word with
    | none => simp [ofFields, append, htoken, hword, operator?_nil, plain]
    | some o => simp [ofFields, append, htoken, hword, operator?_nil, plain]
  | cons p before ih =>
    cases hword : operator? word with
    | none => simp [ofFields, append, hword, ih]
    | some o => simp [ofFields, append, hword, ih]

/-- An operator between blanks cuts a chain in two. The blanks stay with the
operands on either side. -/
theorem ofMarked_operator {s t token : List Marked} {m m' : Marked} {op : Operator}
    (hm : m.separates = true) (hm' : m'.separates = true)
    (hunsplit : ∀ n ∈ token, n.separates = false) (htoken : operator? token = some op) :
    ofMarked (s ++ m :: (token ++ m' :: t)) =
      (ofMarked (s ++ [m])).append op (ofMarked (m' :: t)) := by
  have hright : fields (m' :: t) = ([], (m', (fields t).1) :: (fields t).2) :=
    fields_append [] t hm'
  rw [ofMarked, ofMarked, ofMarked, hright, fields_append s _ hm, fields_append s _ hm,
    fields_append token t hm', fields_of_unsplit hunsplit]
  exact ofFields_operator htoken _ _ _

end Chain

/-! ### Texts without operators -/

/-- No word of the text is an operator. -/
def Inert (t : List Marked) : Prop :=
  operator? (fields t).1 = none ∧ ∀ p ∈ (fields t).2, operator? p.2 = none

namespace Inert

variable {s t : List Marked}

theorem of_word (hunsplit : ∀ m ∈ t, m.separates = false) (h : operator? t = none) : Inert t := by
  rw [Inert, fields_of_unsplit hunsplit]
  exact ⟨h, by simp⟩

theorem nil : Inert [] :=
  of_word (by simp) operator?_nil

theorem append (hs : Inert s) {m : Marked} (hm : m.separates = true) (ht : Inert t) :
    Inert (s ++ m :: t) := by
  rw [Inert, fields_append s t hm]
  refine ⟨hs.1, fun p hp => ?_⟩
  rcases List.mem_append.1 hp with hp | hp
  · exact hs.2 p hp
  · rcases List.mem_cons.1 hp with rfl | hp
    · exact ht.1
    · exact ht.2 p hp

theorem padStart {p : List Marked} (hp : ∀ m ∈ p, m.separates = true) (ht : Inert t) :
    Inert (p ++ t) := by
  induction p with
  | nil => exact ht
  | cons m p ih => exact append nil (hp m (by simp)) (ih fun n hn => hp n (by simp [hn]))

theorem padEnd {q : List Marked} (hq : ∀ m ∈ q, m.separates = true) (ht : Inert t) :
    Inert (t ++ q) := by
  cases q with
  | nil => simpa using ht
  | cons m q =>
    have hblank : Inert (q ++ []) := padStart (fun n hn => hq n (by simp [hn])) nil
    exact append ht (hq m (by simp)) (by simpa using hblank)

end Inert

/-- A text in which no word is an operator is one operand. -/
theorem Chain.ofMarked_of_inert {t : List Marked} (h : Inert t) :
    Chain.ofMarked t = ⟨plain t, []⟩ := by
  suffices hfields : ∀ (rest : List (Marked × List Marked)) (word : List Marked),
      operator? word = none → (∀ p ∈ rest, operator? p.2 = none) →
      Chain.ofFields word rest = ⟨plain (fieldsText word rest), []⟩ by
    rw [Chain.ofMarked, hfields _ _ h.1 h.2, fields_flatten]
  intro rest
  induction rest with
  | nil =>
    intro word hword _
    simp [Chain.ofFields, hword, fieldsText]
  | cons p rest ih =>
    intro word hword hrest
    have htail := ih p.2 (hrest p (by simp)) fun q hq => hrest q (by simp [hq])
    simp [Chain.ofFields, hword, htail, fieldsText, plain]

/-! ### Trees -/

namespace Tree

variable {α β : Type}

/-- The same tree over other operands. -/
def map (f : α → β) : Tree α → Tree β
  | leaf a => leaf (f a)
  | node op l r => node op (l.map f) (r.map f)

theorem map_attach (f : α → β) (t : Tree α) (op : Operator) (b : α) :
    (t.attach op b).map f = (t.map f).attach op (f b) := by
  induction t with
  | leaf a => rfl
  | node top l r _ ih =>
    rw [attach, map, attach]
    split
    · rw [map, ih]
    · rfl

/-- The operator at the top, if there is one, binds at least as tightly as the
operators of tier `k`. -/
def AtLeast (k : Nat) : Tree α → Prop
  | leaf _ => True
  | node op _ _ => k ≤ op.tier

theorem attach_of_atLeast {t : Tree α} {op : Operator} (h : t.AtLeast op.tier) (b : α) :
    t.attach op b = node op t (leaf b) := by
  cases t with
  | leaf a => rfl
  | node top l r =>
    have hle : op.tier ≤ top.tier := h
    rw [attach, if_neg (by omega)]

/-- The tree with all operators and operands of a list at its right end. -/
def attachAll (t : Tree α) (rest : List (Operator × α)) : Tree α :=
  rest.foldl (fun t p => t.attach p.1 p.2) t

theorem attachAll_cons (t : Tree α) (p : Operator × α) (rest : List (Operator × α)) :
    t.attachAll (p :: rest) = (t.attach p.1 p.2).attachAll rest := rfl

theorem attachAll_append (t : Tree α) (rest more : List (Operator × α)) :
    t.attachAll (rest ++ more) = (t.attachAll rest).attachAll more :=
  List.foldl_append

/-- Operators that bind tighter than the top one go into its right operand. -/
theorem attachAll_node (op : Operator) (l r : Tree α) {rest : List (Operator × α)}
    (h : ∀ p ∈ rest, op.tier < p.1.tier) :
    (node op l r).attachAll rest = node op l (r.attachAll rest) := by
  induction rest generalizing r with
  | nil => rfl
  | cons p rest ih =>
    rw [attachAll_cons, attachAll_cons, attach, if_pos (h p (by simp))]
    exact ih _ fun q hq => h q (by simp [hq])

theorem map_attachAll (f : α → β) (t : Tree α) (rest : List (Operator × α)) :
    (t.attachAll rest).map f = (t.map f).attachAll (rest.map fun p => (p.1, f p.2)) := by
  induction rest generalizing t with
  | nil => rfl
  | cons p rest ih => rw [attachAll_cons, ih, map_attach, List.map_cons, attachAll_cons]

end Tree

namespace Chain

/-- The same chain with other texts for its operands. -/
def map (f : List Char → List Char) (c : Chain) : Chain :=
  ⟨f c.first, c.rest.map fun p => (p.1, f p.2)⟩

theorem map_append (f : List Char → List Char) (c : Chain) (op : Operator) (d : Chain) :
    (c.append op d).map f = (c.map f).append op (d.map f) := by
  simp [map, append]

theorem tree_eq (c : Chain) : c.tree = (Tree.leaf c.first).attachAll c.rest := rfl

theorem tree_map (f : List Char → List Char) (c : Chain) : (c.map f).tree = c.tree.map f := by
  rw [tree_eq, tree_eq, Tree.map_attachAll]
  rfl

/-- The tree of a chain that is cut at an operator which binds no tighter than
the top one before it and weaker than all after it. -/
theorem tree_append {c d : Chain} {op : Operator} (hc : c.tree.AtLeast op.tier)
    (hd : ∀ p ∈ d.rest, op.tier < p.1.tier) :
    (c.append op d).tree = .node op c.tree d.tree := by
  have hcut : (c.append op d).tree = (c.tree.attach op d.first).attachAll d.rest :=
    Tree.attachAll_append _ _ _
  rw [hcut, Tree.attach_of_atLeast hc, Tree.attachAll_node op _ _ hd, ← tree_eq]

end Chain

end Expr

end LineScript
