import LineScript.Machine.Builtin

/-!
# Positions of a block layout

- `layout?_bounds`: the `END` of a block is a line of the code at or after the
  start, and the `ELSE` lies between.
- `chosenBranch_cases`, `chosenBranch_bounds`: the lines of a branch lie between the
  start and the `END`, before or after the `ELSE` if there is one.
- `layout?_moved`, `chosenBranch_up`: the layout of the same texts behind other lines.
-/

namespace LineScript

/-- The scan stops inside the lines it reads; an `ELSE` it has not brought along
lies before the `END` that it finds. -/
theorem scanLayout_bounds {lines : List Instruction} {depth index : Nat} {elseAt : Option Nat}
    {layout : Layout} (h : scanLayout depth elseAt index lines = some layout) :
    index ≤ layout.endAt ∧ layout.endAt < index + lines.length ∧
      ∀ k, layout.elseAt = some k → elseAt = some k ∨ index ≤ k ∧ k < layout.endAt := by
  induction lines generalizing depth index elseAt with
  | nil => cases h
  | cons i rest ih =>
    -- one more line was read, and the scan goes on with some ELSE
    have hmore : ∀ {d : Nat} {e : Option Nat}, (e = elseAt ∨ e = some index) →
        scanLayout d e (index + 1) rest = some layout →
        index ≤ layout.endAt ∧ layout.endAt < index + (i :: rest).length ∧
          ∀ k, layout.elseAt = some k → elseAt = some k ∨ index ≤ k ∧ k < layout.endAt := by
      intro d e he h
      obtain ⟨hle, hlt, helse⟩ := ih h
      refine ⟨by omega, by rw [List.length_cons]; omega, fun k hk => ?_⟩
      rcases helse k hk with hk | hk
      · rcases he with rfl | rfl
        · exact .inl hk
        · obtain rfl := Option.some.inj hk
          exact .inr (by omega)
      · exact .inr (by omega)
    rw [scanLayout.eq_def] at h
    dsimp only at h
    split at h
    · exact hmore (.inl rfl) h
    · split at h
      · cases depth with
        | zero =>
          obtain rfl := Option.some.inj h
          exact ⟨Nat.le_refl _, by simp, fun k hk => .inl hk⟩
        | succ depth => exact hmore (.inl rfl) h
      · split at h
        · exact hmore (.inr rfl) h
        · exact hmore (.inl rfl) h

/-- The `END` of a block is a line of the code, and its `ELSE` lies between the
start and the `END`. -/
theorem layout?_bounds {code : List Instruction} {start : Nat} {layout : Layout}
    (h : layout? code start = some layout) :
    start ≤ layout.endAt ∧ layout.endAt < code.length ∧
      ∀ k, layout.elseAt = some k → start ≤ k ∧ k < layout.endAt := by
  obtain ⟨hle, hlt, helse⟩ := scanLayout_bounds h
  rw [List.length_drop] at hlt
  exact ⟨hle, by omega, fun k hk => (helse k hk).resolve_left (nomatch ·)⟩

/-- A branch is the whole body of a conditional without an `ELSE`, or it has the
lines before or after the `ELSE`. -/
theorem chosenBranch_cases {start first stop : Nat} {layout : Layout} {condition : Bool}
    (h : Builtin.chosenBranch start layout condition = some (first, stop)) :
    layout.elseAt = none ∧ first = start ∧ stop = layout.endAt ∨
      ∃ k, layout.elseAt = some k ∧
        (first = start ∧ stop = k ∨ first = k + 1 ∧ stop = layout.endAt) := by
  cases he : layout.elseAt with
  | none =>
    cases condition with
    | true =>
      simp only [Builtin.chosenBranch, he, Option.some.injEq, Prod.mk.injEq] at h
      exact .inl ⟨rfl, h.1.symm, h.2.symm⟩
    | false => simp [Builtin.chosenBranch, he] at h
  | some k =>
    refine .inr ⟨k, rfl, ?_⟩
    cases condition <;>
      simp only [Builtin.chosenBranch, he, Option.some.injEq, Prod.mk.injEq] at h <;> omega

/-- The lines of a branch lie between the start of the body and its `END`. -/
theorem chosenBranch_bounds {code : List Instruction} {start first stop : Nat} {layout : Layout}
    {condition : Bool} (h : layout? code start = some layout)
    (hc : Builtin.chosenBranch start layout condition = some (first, stop)) :
    start ≤ first ∧ first ≤ stop ∧ stop ≤ layout.endAt ∧ layout.endAt < code.length := by
  obtain ⟨hle, hlt, helse⟩ := layout?_bounds h
  obtain ⟨-, rfl, rfl⟩ | ⟨k, hk, hc⟩ := chosenBranch_cases hc
  · omega
  · have hbetween := helse k hk
    omega

/-! ### Moved lines -/

/-- The layout of the same block `n` lines further down. -/
def Layout.up (n : Nat) (layout : Layout) : Layout :=
  ⟨layout.elseAt.map (· + n), layout.endAt + n⟩

/-- The text of a line decides its part in the block structure. -/
theorem Instruction.part_of_text {i i' : Instruction} (h : i'.text = i.text) :
    i'.opensBlock = i.opensBlock ∧ i'.closesBlock = i.closesBlock ∧ i'.isElse = i.isElse := by
  obtain ⟨text, line⟩ := i
  obtain ⟨text', line'⟩ := i'
  obtain rfl : text' = text := h
  exact ⟨rfl, rfl, rfl⟩

theorem scanLayout_moved {lines lines' : List Instruction}
    (h : lines'.map Instruction.text = lines.map Instruction.text) (n depth : Nat)
    (elseAt : Option Nat) (index : Nat) :
    scanLayout depth (elseAt.map (· + n)) (index + n) lines' =
      (scanLayout depth elseAt index lines).map (Layout.up n) := by
  induction lines generalizing lines' depth elseAt index with
  | nil =>
    obtain rfl := List.map_eq_nil_iff.1 h
    cases depth <;> rfl
  | cons i rest ih =>
    obtain ⟨i', rest', rfl, htext, hrest⟩ := List.map_eq_cons_iff.1 h
    obtain ⟨hopens, hcloses, helse⟩ := Instruction.part_of_text htext
    have hindex : index + n + 1 = index + 1 + n := by omega
    rw [scanLayout.eq_def, scanLayout.eq_def depth elseAt]
    dsimp only
    rw [hopens, hcloses, helse, hindex, Option.isNone_map]
    by_cases ho : i.opensBlock = true
    · rw [if_pos ho, if_pos ho]
      exact ih hrest _ _ _
    · rw [if_neg ho, if_neg ho]
      by_cases hc : i.closesBlock = true
      · rw [if_pos hc, if_pos hc]
        cases depth with
        | zero => rfl
        | succ depth => exact ih hrest _ _ _
      · rw [if_neg hc, if_neg hc]
        split
        · exact ih hrest _ (some index) _
        · exact ih hrest _ _ _

/-- The layout of a block moves along with its lines. -/
theorem layout?_moved {code code' : List Instruction}
    (h : code'.map Instruction.text = code.map Instruction.text) (before : List Instruction)
    (start : Nat) :
    layout? (before ++ code') (start + before.length) =
      (layout? code start).map (Layout.up before.length) := by
  have hdrop : (before ++ code').drop (start + before.length) = code'.drop start := by
    rw [Nat.add_comm, ← List.drop_drop, List.drop_left]
  have htexts : (code'.drop start).map Instruction.text =
      (code.drop start).map Instruction.text := by
    rw [List.map_drop, List.map_drop, h]
  rw [layout?, layout?, hdrop]
  exact scanLayout_moved htexts before.length 0 none start

/-- The branch that a condition chooses moves along with the lines. -/
theorem chosenBranch_up (n start : Nat) (layout : Layout) (condition : Bool) :
    Builtin.chosenBranch (start + n) (layout.up n) condition =
      (Builtin.chosenBranch start layout condition).map fun (first, stop) =>
        (first + n, stop + n) := by
  obtain ⟨elseAt, endAt⟩ := layout
  cases condition <;> cases elseAt <;> simp [Builtin.chosenBranch, Layout.up]
  omega

end LineScript
