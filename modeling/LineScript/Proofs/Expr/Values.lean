import LineScript.Expr.Evaluate

/-!
# Where the values of an expression come from

An expression makes booleans, numbers, texts and undefined by itself. A function
it only passes on: it is the value of one of its names.

- `Value.Inherited`: the properties that values hand on to what is computed from them.
- `Operator.apply_of`: an operator gives a new value or one of its operands.
- `treeValue_of`: an inherited property of the literals, the groups and the names of
  a tree is one of its value.
- `evaluate_of`: a property of all values of names and of all values that are no
  functions is one of the value of every expression.
-/

namespace LineScript

/-! ### Computations that give a value -/

theorem bind_eq_ok {ε α β : Type} {x : Except ε α} {f : α → Except ε β} {b : β} :
    x >>= f = .ok b ↔ ∃ a, x = .ok a ∧ f a = .ok b := by
  cases x with
  | error e => exact ⟨nofun, nofun⟩
  | ok a => exact ⟨fun h => ⟨a, rfl, h⟩, fun ⟨_, h, h'⟩ => Except.ok.inj h ▸ h'⟩

theorem map_eq_ok {ε α β : Type} {x : Except ε α} {f : α → β} {b : β} :
    x.map f = .ok b ↔ ∃ a, x = .ok a ∧ f a = b := by
  cases x with
  | error e => exact ⟨nofun, nofun⟩
  | ok a => exact ⟨fun h => ⟨a, rfl, Except.ok.inj h⟩, fun ⟨_, h, h'⟩ => by cases h; rw [← h']; rfl⟩

/-! ### Inherited properties -/

/-- A property that values hand on to what is computed from them: it holds of all
values but texts and functions, and of the text that two values with it add up to. -/
structure Value.Inherited (P : Value → Prop) : Prop where
  made : ∀ v : Value, v.type ≠ .function → v.type ≠ .string → P v
  sum : ∀ l r : Value, P l → P r → P (.string (l.text ++ r.text))

/-- Only functions may lack the property. -/
theorem Value.Inherited.of_made {P : Value → Prop}
    (hP : ∀ v : Value, v.type ≠ .function → P v) : Value.Inherited P where
  made v hv _ := hP v hv
  sum _ _ _ _ := hP _ nofun

namespace Expr

/-- An operand without its negations. -/
def operandAtom (operand : List Char) : List Char :=
  Text.trimStart ((Text.trim operand).dropWhile (· = '!'))

variable {P : Value → Prop}

section

variable (hP : Value.Inherited P)

include hP

/-- An operator gives a value that is no function, or one of its operands. -/
theorem Operator.apply_of (op : Operator) {l r : Value} (hl : P l) (hr : P r) :
    P (op.apply l r) := by
  have hcompare : ∀ (texts : String → String → Bool) (numbers : Float → Float → Bool),
      P (Operator.compare texts numbers l r) := by
    intro texts numbers
    rw [Operator.compare.eq_def]
    split
    · exact hP.made _ nofun nofun
    · exact hP.made _ nofun nofun
  cases op with
  | or =>
    rw [Operator.apply]
    split
    · exact hl
    · exact hr
  | and =>
    rw [Operator.apply]
    split
    · exact hr
    · exact hl
  | add =>
    rw [Operator.apply, Operator.sum]
    split
    · exact hP.sum l r hl hr
    · exact hP.made _ nofun nofun
  | lt | ltEq | gt | gtEq =>
    rw [Operator.apply]
    exact hcompare _ _
  | eq | notEq | strictEq | strictNotEq | sub | mul | div | mod | pow => exact hP.made _ nofun nofun

theorem constant?_of {t : List Char} {v : Value} (h : constant? t = some v) : P v := by
  rw [constant?] at h
  split at h
  · exact Option.some.inj h ▸ hP.made _ nofun nofun
  · split at h
    · exact Option.some.inj h ▸ hP.made _ nofun nofun
    · split at h
      · exact Option.some.inj h ▸ hP.made _ nofun nofun
      · split at h
        · exact Option.some.inj h ▸ hP.made _ nofun nofun
        · cases h

omit hP in
theorem Slots.read?_of {slots : Slots} (hslots : ∀ v ∈ slots, P v) {t : List Char} {v : Value}
    (h : slots.read? t = some v) : P v := by
  cases t with
  | nil => cases h
  | cons c t =>
    rw [Slots.read?] at h
    split at h
    · obtain ⟨n, -, hn⟩ := Option.bind_eq_some_iff.1 h
      exact hslots v (Array.mem_of_getElem? hn)
    · cases h

theorem Slots.readSigned?_of {slots : Slots} {t : List Char} {v : Value}
    (h : slots.readSigned? t = some v) : P v := by
  cases t with
  | nil => cases h
  | cons c t =>
    rw [Slots.readSigned?] at h
    split at h
    · obtain ⟨w, -, rfl⟩ := Option.map_eq_some_iff.1 h
      exact hP.made _ (by rintro ⟨⟩) (by rintro ⟨⟩)
    · cases h

variable {lookup : Lookup} (hlookup : ∀ id v, lookup id = some v → P v)

include hlookup

variable {slots : Slots} (hslots : ∀ v ∈ slots, P v)

include hslots

theorem atomValue_of {t : List Char} {v : Value} (h : atomValue lookup slots t = .ok v) : P v := by
  rw [atomValue] at h
  split at h
  · next hread => exact Except.ok.inj h ▸ Slots.read?_of hslots hread
  · split at h
    · next hconstant => exact Except.ok.inj h ▸ constant?_of hP hconstant
    · split at h
      · exact Except.ok.inj h ▸ hP.made _ nofun nofun
      · split at h
        · next hsigned => exact Except.ok.inj h ▸ Slots.readSigned?_of hP hsigned
        · split at h
          · next hname => exact Except.ok.inj h ▸ hlookup _ _ hname
          · cases h

theorem operandValue_of {operand : List Char} {v : Value}
    (hliteral : ∀ s, Quoted.literal? (operandAtom operand) = some s →
      P (.string (String.ofList s)))
    (h : operandValue lookup slots operand = .ok v) : P v := by
  simp only [operandValue] at h
  split at h
  · cases h
  · split at h
    · cases h
    · obtain ⟨w, hw, rfl⟩ := map_eq_ok.1 h
      have hvalue : P w := by
        split at hw
        · next s hs => exact Except.ok.inj hw ▸ hliteral s hs
        · split at hw
          · cases hw
          · exact atomValue_of hP hlookup hslots hw
      -- negations give a boolean or keep the value
      split
      · exact hP.made _ nofun nofun
      · exact hvalue

/-- An inherited property of the literals among the operands, of the groups and of
the values of names is a property of the value of the tree. -/
theorem treeValue_of {t : Tree (List Char)} {v : Value}
    (hliteral : ∀ operand ∈ t.operands, ∀ s, Quoted.literal? (operandAtom operand) = some s →
      P (.string (String.ofList s)))
    (h : treeValue lookup slots t = .ok v) : P v := by
  induction t generalizing v with
  | leaf operand =>
    have hleaf := hliteral operand (by simp [Tree.operands])
    exact operandValue_of hP hlookup hslots hleaf h
  | node op l r ihl ihr =>
    obtain ⟨x, hx, h⟩ := bind_eq_ok.1 h
    obtain ⟨y, hy, h⟩ := bind_eq_ok.1 h
    have hl : P x := ihl (fun o ho => hliteral o (by simp [Tree.operands, ho])) hx
    have hr : P y := ihr (fun o ho => hliteral o (by simp [Tree.operands, ho])) hy
    exact Except.ok.inj h ▸ Operator.apply_of hP op hl hr

end

/-! ### A property of all values that are no functions -/

variable (hP : ∀ v : Value, v.type ≠ .function → P v)

include hP

variable {lookup : Lookup} (hlookup : ∀ id v, lookup id = some v → P v)

include hlookup

theorem groupValue_of {slots : Slots} (hslots : ∀ v ∈ slots, P v) {t : List Char} {v : Value}
    (h : groupValue lookup slots t = .ok v) : P v := by
  simp only [groupValue] at h
  split at h
  · exact Except.ok.inj h ▸ hP _ nofun
  · exact treeValue_of (.of_made hP) hlookup hslots (fun _ _ _ _ => hP _ nofun) h

/-- Reading one more character keeps the property of all values of groups. -/
theorem Reading.step_of {r r' : Reading} {m : Marked} (hslots : ∀ v ∈ r.slots, P v)
    (h : r.step lookup m = .ok r') : ∀ v ∈ r'.slots, P v := by
  rw [Reading.step] at h
  split at h
  · exact Except.ok.inj h ▸ hslots
  · split at h
    · simp only [Reading.close] at h
      split at h
      · cases h
      · split at h
        · cases h
        · obtain ⟨v, hv, rfl⟩ := map_eq_ok.1 h
          intro w hw
          rcases Array.mem_push.1 hw with hw | rfl
          · exact hslots w hw
          · exact groupValue_of hP hlookup hslots hv
    · exact Except.ok.inj h ▸ hslots

theorem readings_of {t : List Marked} {r r' : Reading} (hslots : ∀ v ∈ r.slots, P v)
    (h : t.foldlM (Reading.step lookup) r = .ok r') : ∀ v ∈ r'.slots, P v := by
  induction t generalizing r with
  | nil => exact Except.ok.inj h ▸ hslots
  | cons m t ih =>
    rw [List.foldlM_cons] at h
    obtain ⟨r₁, hstep, hrest⟩ := bind_eq_ok.1 h
    exact ih (Reading.step_of hP hlookup hslots hstep) hrest

/-- A property of all values of names and of all values that are no functions is
a property of the value of every expression. -/
theorem evaluate_of {text : String} {v : Value} (h : evaluate lookup text = .ok v) : P v := by
  simp only [evaluate] at h
  split at h
  · cases h
  · split at h
    · exact Except.ok.inj h ▸ hP _ nofun
    · obtain ⟨⟨flat, slots⟩, hread, h⟩ := bind_eq_ok.1 h
      obtain ⟨r, hr, hread⟩ := bind_eq_ok.1 hread
      have hslots : ∀ v ∈ r.slots, P v := readings_of hP hlookup (by simp [Reading.start]) hr
      split at hread
      · obtain ⟨-, rfl⟩ := Prod.mk.inj (Except.ok.inj hread)
        exact treeValue_of (.of_made hP) hlookup hslots (fun _ _ _ _ => hP _ nofun) h
      · cases hread

end Expr

end LineScript
