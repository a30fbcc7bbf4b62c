import LineScript.Proofs.Program.Layout
import LineScript.Proofs.Program.Structured

/-!
# Balanced lines

Lines are balanced when every block that is opened among them is closed among
them. Every part of a list of lines that is executed on its own is balanced, and
in balanced lines every block has its `END`.

- `openBlocks`, `Balanced`: counting the blocks that lines open and close.
- `Balanced.split`: balanced lines fall apart where no block is open.
- `layout?_balanced`: the lines up to the `END` that a scan finds are balanced, and
  so are the two branches.
- `Balanced.exists_layout`: in balanced lines every scan finds its `END`.
- `Balanced.passedFrom`: a scan passes over balanced lines without an `ELSE` of their own.
-/

namespace LineScript

/-! ### Counting blocks -/

/-- What a line adds to the number of open blocks. -/
def Instruction.nesting (i : Instruction) : Int :=
  (if i.opensBlock then 1 else 0) - (if i.closesBlock then 1 else 0)

/-- The number of blocks that lines open and do not close; negative if they
close more than they open. -/
def openBlocks : List Instruction → Int
  | [] => 0
  | i :: code => i.nesting + openBlocks code

/-- No beginning of the lines closes more blocks than it opens, and all of them
together close as many as they open. -/
structure Balanced (code : List Instruction) : Prop where
  take_nonneg : ∀ n, 0 ≤ openBlocks (code.take n)
  openBlocks_eq : openBlocks code = 0

/-- Only as many beginnings have to be looked at as there are lines. -/
theorem balanced_iff {code : List Instruction} :
    Balanced code ↔
      (∀ n ∈ List.range code.length, 0 ≤ openBlocks (code.take n)) ∧ openBlocks code = 0 := by
  constructor
  · rintro ⟨hnonneg, hsum⟩
    exact ⟨fun n _ => hnonneg n, hsum⟩
  · rintro ⟨hnonneg, hsum⟩
    refine ⟨fun n => ?_, hsum⟩
    by_cases hn : n < code.length
    · exact hnonneg n (List.mem_range.2 hn)
    · have htake : openBlocks (code.take n) = 0 := by
        rw [List.take_of_length_le (Nat.not_lt.1 hn), hsum]
      exact Int.le_of_eq htake.symm

instance (code : List Instruction) : Decidable (Balanced code) :=
  decidable_of_iff _ balanced_iff.symm

section

variable {i : Instruction} {code : List Instruction}

@[simp] theorem openBlocks_nil : openBlocks [] = 0 := rfl

@[simp] theorem openBlocks_cons (i : Instruction) (code : List Instruction) :
    openBlocks (i :: code) = i.nesting + openBlocks code := rfl

@[simp] theorem openBlocks_append (code code' : List Instruction) :
    openBlocks (code ++ code') = openBlocks code + openBlocks code' := by
  induction code with
  | nil => simp
  | cons i code ih =>
    rw [List.cons_append, openBlocks_cons, openBlocks_cons, ih]
    omega

theorem openBlocks_take_add_drop (n : Nat) (code : List Instruction) :
    openBlocks (code.take n) + openBlocks (code.drop n) = openBlocks code := by
  rw [← openBlocks_append, List.take_append_drop]

/-- A line that closes a block opens none. -/
theorem Instruction.opensBlock_of_closes (h : i.closesBlock = true) : i.opensBlock = false :=
  (KeywordLine.mk i (of_decide_eq_true h)).opensNoBlock (by decide)

theorem Instruction.nesting_of_opens (h : i.opensBlock = true) : i.nesting = 1 := by
  cases hcloses : i.closesBlock with
  | true => simp [opensBlock_of_closes hcloses] at h
  | false => simp [nesting, h, hcloses]

theorem Instruction.nesting_of_closes (h : i.closesBlock = true) : i.nesting = -1 := by
  simp [nesting, h, opensBlock_of_closes h]

theorem Instruction.nesting_of_neither (hopens : i.opensBlock = false)
    (hcloses : i.closesBlock = false) : i.nesting = 0 := by
  simp [nesting, hopens, hcloses]

/-- Where no block is open, balanced lines fall into two balanced parts. -/
theorem Balanced.split {n : Nat} (h : Balanced code) (hn : openBlocks (code.take n) = 0) :
    Balanced (code.take n) ∧ Balanced (code.drop n) := by
  have hsum := openBlocks_take_add_drop n code
  refine ⟨⟨fun m => ?_, hn⟩, ⟨fun m => ?_, by have := h.openBlocks_eq; omega⟩⟩
  · rw [List.take_take]
    exact h.take_nonneg _
  · -- a beginning of the second part ends a beginning of the whole
    have hwhole := h.take_nonneg (n + m)
    rw [List.take_add, openBlocks_append] at hwhole
    omega

end

/-! ### Lines between two positions -/

section

variable {code : List Instruction} {start stop : Nat}

/-- The first lines from a position on, as lines between two positions. -/
theorem take_between {n : Nat} (hn : start + n ≤ stop) :
    ((code.take stop).drop start).take n = (code.take (start + n)).drop start := by
  rw [List.drop_take, List.take_take, List.drop_take, Nat.add_sub_cancel_left,
    Nat.min_eq_left (by omega)]

/-- One more line between two positions. -/
theorem between_succ {k : Nat} {i : Instruction} (hle : start ≤ k) (hi : code[k]? = some i) :
    (code.take (k + 1)).drop start = (code.take k).drop start ++ [i] := by
  obtain ⟨hlt, -⟩ := List.getElem?_eq_some_iff.1 hi
  rw [List.take_add_one, hi, Option.toList_some,
    List.drop_append_of_le_length (by rw [List.length_take]; omega)]

/-- A line where no block is open, and that opens and closes none, parts balanced lines
into balanced lines. -/
theorem Balanced.parts (h : Balanced ((code.take stop).drop start)) {k : Nat} {i : Instruction}
    (hle : start ≤ k) (hlt : k < stop) (hi : code[k]? = some i) (hneutral : i.nesting = 0)
    (hopen : openBlocks ((code.take k).drop start) = 0) :
    Balanced ((code.take k).drop start) ∧ Balanced ((code.take stop).drop (k + 1)) := by
  have hbefore : ((code.take stop).drop start).take (k - start) = (code.take k).drop start := by
    rw [take_between (by omega), Nat.add_sub_cancel' hle]
  have hafter : ((code.take stop).drop start).take (k + 1 - start) =
      (code.take k).drop start ++ [i] := by
    rw [take_between (by omega), Nat.add_sub_cancel' (by omega), between_succ hle hi]
  constructor
  · obtain ⟨hfirst, -⟩ := h.split (n := k - start) (by rw [hbefore, hopen])
    rwa [hbefore] at hfirst
  · have hclosed : openBlocks (((code.take stop).drop start).take (k + 1 - start)) = 0 := by
      rw [hafter, openBlocks_append, hopen, openBlocks_cons, hneutral]
      rfl
    obtain ⟨-, hsecond⟩ := h.split hclosed
    rwa [List.drop_drop, Nat.add_sub_cancel' (by omega)] at hsecond

end

/-! ### Scanning -/

/-- What a scan has found when it stops: the `END` closes a block and is the first line
after which fewer blocks are open than before the scan, and the `ELSE`, unless it was
brought along, is a line before it where no inner block is open. -/
structure Found (depth : Nat) (elseAt : Option Nat) (index : Nat) (lines : List Instruction)
    (layout : Layout) : Prop where
  take_nonneg : ∀ n, index + n ≤ layout.endAt → 0 ≤ depth + openBlocks (lines.take n)
  end_eq : ∀ n, index + n = layout.endAt → depth + openBlocks (lines.take n) = 0
  closes : ∀ n, index + n = layout.endAt → ∃ i, lines[n]? = some i ∧ i.closesBlock = true
  else_eq : ∀ k, layout.elseAt = some k → elseAt = some k ∨
    ∃ n i, index + n = k ∧ lines[n]? = some i ∧ i.nesting = 0 ∧
      depth + openBlocks (lines.take n) = 0

/-- One more line before the lines of a scan. -/
theorem Found.cons {depth depth' index : Nat} {elseAt elseAt' : Option Nat} {i : Instruction}
    {rest : List Instruction} {layout : Layout}
    (h : Found depth' elseAt' (index + 1) rest layout) (hle : index + 1 ≤ layout.endAt)
    (hdepth : (depth' : Int) = depth + i.nesting)
    (helse : elseAt' = elseAt ∨ elseAt' = some index ∧ i.nesting = 0 ∧ depth = 0) :
    Found depth elseAt index (i :: rest) layout where
  take_nonneg n hn := by
    cases n with
    | zero => simp
    | succ n =>
      have := h.take_nonneg n (by omega)
      rw [List.take_succ_cons, openBlocks_cons]
      omega
  end_eq n hn := by
    cases n with
    | zero => omega
    | succ n =>
      have := h.end_eq n (by omega)
      rw [List.take_succ_cons, openBlocks_cons]
      omega
  closes n hn := by
    cases n with
    | zero => omega
    | succ n => exact h.closes n (by omega)
  else_eq k hk := by
    obtain hbrought | ⟨n, j, hn, hj, hneutral, hopen⟩ := h.else_eq k hk
    · obtain rfl | ⟨rfl, hneutral, rfl⟩ := helse
      · exact .inl hbrought
      · obtain rfl := Option.some.inj hbrought
        exact .inr ⟨0, i, rfl, rfl, hneutral, rfl⟩
    · refine .inr ⟨n + 1, j, by omega, hj, hneutral, ?_⟩
      rw [List.take_succ_cons, openBlocks_cons]
      omega

theorem scanLayout_found {lines : List Instruction} {depth index : Nat} {elseAt : Option Nat}
    {layout : Layout} (h : scanLayout depth elseAt index lines = some layout) :
    Found depth elseAt index lines layout := by
  induction lines generalizing depth index elseAt with
  | nil => cases h
  | cons i rest ih =>
    rw [scanLayout.eq_def] at h
    dsimp only at h
    split at h
    · next hopens =>
      exact (ih h).cons (scanLayout_bounds h).1
        (by rw [Instruction.nesting_of_opens hopens]; omega) (.inl rfl)
    · next hopens =>
      split at h
      · next hcloses =>
        cases depth with
        | zero =>
          obtain rfl := Option.some.inj h
          -- no line stands before the `END`
          have hnone : ∀ n, index + n ≤ index → openBlocks ((i :: rest).take n) = 0 := by
            intro n hn
            obtain rfl : n = 0 := by omega
            rfl
          refine ⟨fun n hn => by simp [hnone n hn], fun n hn => by simp [hnone n (Nat.le_of_eq hn)],
            fun n (hn : index + n = index) => ?_, fun k hk => .inl hk⟩
          obtain rfl : n = 0 := by omega
          exact ⟨i, rfl, hcloses⟩
        | succ depth =>
          exact (ih h).cons (scanLayout_bounds h).1
            (by rw [Instruction.nesting_of_closes hcloses]; omega) (.inl rfl)
      · next hcloses =>
        have hneutral : i.nesting = 0 :=
          Instruction.nesting_of_neither (by simpa using hopens) (by simpa using hcloses)
        split at h
        · next helse =>
          simp only [Bool.and_eq_true, decide_eq_true_eq] at helse
          exact (ih h).cons (scanLayout_bounds h).1 (by omega)
            (.inr ⟨rfl, hneutral, helse.1.2⟩)
        · exact (ih h).cons (scanLayout_bounds h).1 (by omega) (.inl rfl)

/-- The lines up to the `END` that a scan finds are balanced, and so are those
before and after the `ELSE`. -/
theorem layout?_balanced {code : List Instruction} {start : Nat} {layout : Layout}
    (h : layout? code start = some layout) :
    Balanced ((code.take layout.endAt).drop start) ∧
      ∀ k, layout.elseAt = some k →
        Balanced ((code.take k).drop start) ∧ Balanced ((code.take layout.endAt).drop (k + 1)) := by
  obtain ⟨hle, -, helse⟩ := layout?_bounds h
  have hfound : Found 0 none start (code.drop start) layout := scanLayout_found h
  have hbody : Balanced ((code.take layout.endAt).drop start) := by
    rw [List.drop_take]
    constructor
    · intro n
      rw [List.take_take]
      have := hfound.take_nonneg (min n (layout.endAt - start)) (by omega)
      omega
    · have := hfound.end_eq (layout.endAt - start) (by omega)
      omega
  refine ⟨hbody, fun k hk => ?_⟩
  obtain ⟨hstart, hlt⟩ := helse k hk
  obtain ⟨n, i, hn, hi, hneutral, hopen⟩ := (hfound.else_eq k hk).resolve_left (nomatch ·)
  obtain rfl : k = start + n := by omega
  rw [List.getElem?_drop] at hi
  refine hbody.parts hstart hlt hi hneutral ?_
  rw [List.drop_take, Nat.add_sub_cancel_left]
  omega

/-- A scan of lines that close more blocks than are open finds its `END`. -/
theorem exists_scanLayout {lines : List Instruction} {depth : Nat}
    (h : depth + openBlocks lines < 0) (elseAt : Option Nat) (index : Nat) :
    ∃ layout, scanLayout depth elseAt index lines = some layout := by
  induction lines generalizing depth elseAt index with
  | nil =>
    rw [openBlocks_nil] at h
    omega
  | cons i rest ih =>
    rw [openBlocks_cons] at h
    rw [scanLayout.eq_def]
    dsimp only
    split
    · next hopens =>
      rw [Instruction.nesting_of_opens hopens] at h
      exact ih (by omega) _ _
    · next hopens =>
      split
      · next hcloses =>
        rw [Instruction.nesting_of_closes hcloses] at h
        cases depth with
        | zero => exact ⟨_, rfl⟩
        | succ depth => exact ih (by omega) _ _
      · next hcloses =>
        rw [Instruction.nesting_of_neither (by simpa using hopens) (by simpa using hcloses)] at h
        split <;> exact ih (by omega) _ _

/-- In balanced lines every block has its `END`. -/
theorem Balanced.exists_layout {code : List Instruction} (h : Balanced code) {index : Nat}
    {i : Instruction} (hi : code[index]? = some i) (hopens : i.opensBlock = true) :
    ∃ layout, layout? code (index + 1) = some layout := by
  have hbefore := h.take_nonneg index
  have hsum := openBlocks_take_add_drop (index + 1) code
  rw [List.take_add_one, hi, openBlocks_append, Option.toList_some, openBlocks_cons,
    openBlocks_nil, Instruction.nesting_of_opens hopens, h.openBlocks_eq] at hsum
  exact exists_scanLayout (by omega) none (index + 1)

/-! ### Passing over balanced lines -/

/-- A scan that has `depth` blocks open passes over lines that close no more than that
and, as long as it has no `ELSE`, whose `ELSE`s are not in the block whose end is
sought. -/
theorem scanLayout_passes {lines : List Instruction} {depth : Nat} {elseAt : Option Nat}
    (hnonneg : ∀ n, 0 ≤ depth + openBlocks (lines.take n))
    (helse : elseAt = none → ∀ n i, lines[n]? = some i → i.isElse = true →
      depth + openBlocks (lines.take n) ≠ 0)
    (index : Nat) (rest : List Instruction) :
    scanLayout depth elseAt index (lines ++ rest) =
      scanLayout (depth + openBlocks lines).toNat elseAt (index + lines.length) rest := by
  induction lines generalizing depth index with
  | nil => simp
  | cons i lines ih =>
    have hfirst := hnonneg 1
    have hlater : ∀ {d : Nat}, (d : Int) = depth + i.nesting →
        scanLayout d elseAt (index + 1) (lines ++ rest) =
          scanLayout (depth + openBlocks (i :: lines)).toNat elseAt
            (index + (i :: lines).length) rest := by
      intro d hd
      rw [ih (fun n => ?_) fun hnone n j hj hjelse => ?_]
      · have hdepth : (d + openBlocks lines : Int) = depth + openBlocks (i :: lines) := by
          rw [openBlocks_cons]
          omega
        rw [hdepth, List.length_cons, Nat.add_right_comm, Nat.add_assoc]
      · have := hnonneg (n + 1)
        rw [List.take_succ_cons, openBlocks_cons] at this
        omega
      · have := helse hnone (n + 1) j hj hjelse
        rw [List.take_succ_cons, openBlocks_cons] at this
        omega
    rw [List.cons_append, scanLayout.eq_def]
    dsimp only
    split
    · next hopens =>
      exact hlater (by rw [Instruction.nesting_of_opens hopens]; rfl)
    · next hopens =>
      split
      · next hcloses =>
        have hnesting := Instruction.nesting_of_closes hcloses
        cases depth with
        | zero =>
          rw [List.take_succ_cons, List.take_zero, openBlocks_cons, hnesting] at hfirst
          exact absurd hfirst (by decide)
        | succ depth => exact hlater (by rw [hnesting]; omega)
      · next hcloses =>
        have hnesting : i.nesting = 0 :=
          Instruction.nesting_of_neither (by simpa using hopens) (by simpa using hcloses)
        rw [if_neg]
        · exact hlater (by rw [hnesting]; rfl)
        · intro hfound
          simp only [Bool.and_eq_true, decide_eq_true_eq, Option.isNone_iff_eq_none] at hfound
          exact helse hfound.2 0 i rfl hfound.1.1 (by rw [hfound.1.2]; rfl)

/-- A scan passes over balanced lines without an `ELSE` of their own. -/
theorem Balanced.passedFrom {lines : List Instruction} (h : Balanced lines)
    (helse : ∀ n i, lines[n]? = some i → i.isElse = true → openBlocks (lines.take n) ≠ 0) :
    PassedFrom 0 lines := by
  intro depth _ elseAt index rest
  rw [scanLayout_passes (fun n => ?_) fun _ n i hi hielse => ?_]
  · rw [h.openBlocks_eq, Int.add_zero, Int.toNat_natCast]
  · have := h.take_nonneg n
    omega
  · have := h.take_nonneg n
    have := helse n i hi hielse
    omega

end LineScript
