import LineScript.Proofs.Program.Balance
import Mathlib.Data.Nat.Find

/-!
# Matching `END`s

The scan for the `END` of a block counts how many blocks are open. What it finds can
be said without the scan: the `END` is the one line that closes a block and has
balanced lines between the start and itself, and the `ELSE` is the first one before
it that is in no inner block.

- `WholeBlocks`, `balanced_iff_wholeBlocks`: balanced lines are made of whole blocks.
- `MatchingEnd`, `FirstElse`: the `END` and the `ELSE` of a block.
- `MatchingEnd.layout?_eq`: the scan finds them.
- `layout?_slice`: a scan of some of the lines finds what a scan of all of them finds, as
  long as the block is among them.
- `layout?_finds_matchingEnd`: all of this in one statement.
-/

namespace LineScript

/-! ### Whole blocks -/

/-- Lines made of whole blocks, and of lines that neither open nor close a block. -/
inductive WholeBlocks : List Instruction → Prop where
  | nil : WholeBlocks []
  | line {i : Instruction} {rest : List Instruction} (hopens : i.opensBlock = false)
      (hcloses : i.closesBlock = false) (hrest : WholeBlocks rest) : WholeBlocks (i :: rest)
  | block {head last : Instruction} {body rest : List Instruction}
      (hopens : head.opensBlock = true) (hbody : WholeBlocks body)
      (hcloses : last.closesBlock = true) (hrest : WholeBlocks rest) :
      WholeBlocks (head :: (body ++ last :: rest))

section

variable {code body rest : List Instruction} {i head last : Instruction}

theorem Balanced.nil : Balanced [] := by
  constructor
  · intro n
    simp
  · rfl

/-- A line that neither opens nor closes a block may stand before balanced lines. -/
theorem Balanced.cons (hnesting : i.nesting = 0) (h : Balanced rest) : Balanced (i :: rest) := by
  constructor
  · intro n
    cases n with
    | zero => simp
    | succ n =>
      have := h.take_nonneg n
      rw [List.take_succ_cons, openBlocks_cons]
      omega
  · rw [openBlocks_cons, hnesting, h.openBlocks_eq]
    rfl

theorem Balanced.append (hbody : Balanced body) (hrest : Balanced rest) :
    Balanced (body ++ rest) := by
  constructor
  · intro n
    have := hbody.take_nonneg n
    have := hrest.take_nonneg (n - body.length)
    rw [List.take_append, openBlocks_append]
    omega
  · rw [openBlocks_append, hbody.openBlocks_eq, hrest.openBlocks_eq]
    rfl

/-- A line that opens a block, balanced lines, and a line that closes a block. -/
theorem Balanced.block (hopens : head.opensBlock = true) (hbody : Balanced body)
    (hcloses : last.closesBlock = true) : Balanced (head :: (body ++ [last])) := by
  have hhead := Instruction.nesting_of_opens hopens
  have hlast := Instruction.nesting_of_closes hcloses
  constructor
  · intro n
    cases n with
    | zero => simp
    | succ n =>
      have hinner := hbody.take_nonneg n
      -- at worst the last line is among them, and closes what the first opens
      have htail : -1 ≤ openBlocks ([last].take (n - body.length)) := by
        cases n - body.length with
        | zero => simp
        | succ m => simp [hlast]
      rw [List.take_succ_cons, openBlocks_cons, List.take_append, openBlocks_append]
      omega
  · rw [openBlocks_cons, openBlocks_append, openBlocks_cons, hbody.openBlocks_eq, openBlocks_nil]
    omega

/-- The block that the first of balanced lines opens is among them, and its body and
the lines behind it are balanced. -/
theorem Balanced.exists_block (h : Balanced (head :: code)) (hopens : head.opensBlock = true) :
    ∃ body last rest, code = body ++ last :: rest ∧ last.closesBlock = true ∧
      Balanced body ∧ Balanced rest := by
  have hhead : (head :: code)[0]? = some head := rfl
  obtain ⟨layout, hlayout⟩ := h.exists_layout hhead hopens
  obtain ⟨hbody, -⟩ := layout?_balanced hlayout
  obtain ⟨hstart, hlt, -⟩ := layout?_bounds hlayout
  have hfound : Found 0 none 1 ((head :: code).drop 1) layout := scanLayout_found hlayout
  obtain ⟨last, hlast, hcloses⟩ := hfound.closes (layout.endAt - 1) (by omega)
  generalize hn : layout.endAt - 1 = n at hlast
  obtain hend : layout.endAt = n + 1 := by omega
  rw [hend, List.take_succ_cons, List.drop_one, List.tail_cons] at hbody
  rw [List.drop_one, List.tail_cons] at hlast
  have hclosed : openBlocks ((head :: code).take (n + 2)) = 0 := by
    rw [List.take_succ_cons, List.take_add_one, hlast, openBlocks_cons, openBlocks_append,
      Option.toList_some, openBlocks_cons, openBlocks_nil, hbody.openBlocks_eq,
      Instruction.nesting_of_opens hopens, Instruction.nesting_of_closes hcloses]
    rfl
  obtain ⟨-, hrest⟩ := h.split hclosed
  refine ⟨code.take n, last, code.drop (n + 1), ?_, hcloses, hbody, hrest⟩
  obtain ⟨hlength, rfl⟩ := List.getElem?_eq_some_iff.1 hlast
  rw [List.getElem_cons_drop, List.take_append_drop]

/-- Lines are balanced exactly if they are made of whole blocks. -/
theorem balanced_iff_wholeBlocks : Balanced code ↔ WholeBlocks code := by
  constructor
  · intro h
    induction hlength : code.length using Nat.strongRecOn generalizing code with
    | _ n ih =>
      subst hlength
      cases code with
      | nil => exact .nil
      | cons i code =>
        cases hopens : i.opensBlock with
        | true =>
          obtain ⟨body, last, rest, rfl, hcloses, hbody, hrest⟩ := h.exists_block hopens
          refine .block hopens (ih _ ?_ hbody rfl) hcloses (ih _ ?_ hrest rfl)
          · simp only [List.length_cons, List.length_append]
            omega
          · simp only [List.length_cons, List.length_append]
            omega
        | false =>
          cases hcloses : i.closesBlock with
          | true =>
            -- the first line closes a block that no line opens
            have hfirst := h.take_nonneg 1
            rw [List.take_succ_cons, List.take_zero, openBlocks_cons, openBlocks_nil,
              Instruction.nesting_of_closes hcloses] at hfirst
            omega
          | false =>
            have hnesting := Instruction.nesting_of_neither hopens hcloses
            obtain ⟨-, hrest⟩ := h.split (n := 1) (by simp [hnesting])
            exact .line hopens hcloses (ih _ (Nat.lt_succ_self _) hrest rfl)
  · intro h
    induction h with
    | nil => exact .nil
    | line hopens hcloses _ ih => exact ih.cons (Instruction.nesting_of_neither hopens hcloses)
    | @block head last body rest hopens _ hcloses _ ihbody ihrest =>
      have h := (Balanced.block hopens ihbody hcloses).append ihrest
      rwa [List.cons_append, List.append_assoc, List.singleton_append] at h

end

/-! ### The parts of a block -/

/-- The line at `endAt` closes the block whose body starts at `start`: it closes a
block, and the lines of the body are balanced. -/
structure MatchingEnd (code : List Instruction) (start endAt : Nat) : Prop where
  start_le : start ≤ endAt
  closes : ∃ i, code[endAt]? = some i ∧ i.closesBlock = true
  balanced : Balanced ((code.take endAt).drop start)

/-- The line at `k` is an `ELSE` of the block with the lines from `start` up to `endAt`:
none of its inner blocks is open there. -/
structure OwnElse (code : List Instruction) (start endAt k : Nat) : Prop where
  start_le : start ≤ k
  lt_end : k < endAt
  isElse : ∃ i, code[k]? = some i ∧ i.isElse = true
  openBlocks_eq : openBlocks ((code.take k).drop start) = 0

/-- The first `ELSE` of a block; `none` when it has none. -/
def FirstElse (code : List Instruction) (start endAt : Nat) : Option Nat → Prop
  | none => ∀ k, ¬OwnElse code start endAt k
  | some k => OwnElse code start endAt k ∧ ∀ j, j < k → ¬OwnElse code start endAt j

section

variable {code : List Instruction} {start endAt : Nat}

theorem exists_firstElse (code : List Instruction) (start endAt : Nat) :
    ∃ elseAt, FirstElse code start endAt elseAt := by
  classical
  by_cases h : ∃ k, OwnElse code start endAt k
  · exact ⟨some (Nat.find h), Nat.find_spec h, fun j hj => Nat.find_min h hj⟩
  · exact ⟨none, fun k hk => h ⟨k, hk⟩⟩

/-- A line between two positions is one of all lines. -/
theorem getElem?_between {n : Nat} {i : Instruction}
    (hi : ((code.take endAt).drop start)[n]? = some i) :
    start + n < endAt ∧ code[start + n]? = some i := by
  rw [List.getElem?_drop, List.getElem?_take] at hi
  split at hi
  · next hlt => exact ⟨hlt, hi⟩
  · cases hi

/-- The lines behind the start of a block, cut at one of them. -/
theorem drop_eq_append {n : Nat} {i : Instruction} (hle : start ≤ n) (hi : code[n]? = some i) :
    code.drop start = (code.take n).drop start ++ i :: code.drop (n + 1) := by
  obtain ⟨hlt, rfl⟩ := List.getElem?_eq_some_iff.1 hi
  rw [List.getElem_cons_drop, List.drop_take]
  calc code.drop start
      = (code.drop start).take (n - start) ++ (code.drop start).drop (n - start) :=
        (List.take_append_drop _ _).symm
    _ = (code.drop start).take (n - start) ++ code.drop n := by
        rw [List.drop_drop, Nat.add_sub_cancel' hle]

theorem length_between (hle : endAt ≤ code.length) :
    ((code.take endAt).drop start).length = endAt - start := by
  rw [List.length_drop, List.length_take, Nat.min_eq_left hle]

/-- Lines before which a block has no `ELSE` of its own have none that a scan would
take. -/
theorem openBlocks_ne_of_not_ownElse {stop : Nat} (hstop : stop ≤ endAt)
    (h : ∀ j, j < stop → ¬OwnElse code start endAt j) {n : Nat} {i : Instruction}
    (hi : ((code.take stop).drop start)[n]? = some i) (helse : i.isElse = true) :
    openBlocks (((code.take stop).drop start).take n) ≠ 0 := by
  obtain ⟨hlt, hcode⟩ := getElem?_between hi
  rw [take_between (by omega)]
  intro hopen
  exact h (start + n) hlt ⟨by omega, by omega, ⟨i, hcode, helse⟩, hopen⟩

end

/-! ### What a scan finds -/

/-- An `ELSE` neither opens nor closes a block. -/
theorem Instruction.nesting_of_isElse {i : Instruction} (h : i.isElse = true) : i.nesting = 0 := by
  let l : KeywordLine elseKeyword := ⟨i, of_decide_eq_true h⟩
  exact Instruction.nesting_of_neither (l.opensNoBlock (by decide)) l.closes_else

/-- A scan that has its `ELSE` passes over balanced lines. -/
theorem Balanced.scanLayout_some {lines : List Instruction} (h : Balanced lines) (k index : Nat)
    (rest : List Instruction) :
    scanLayout 0 (some k) index (lines ++ rest) =
      scanLayout 0 (some k) (index + lines.length) rest := by
  have hnonneg : ∀ n, 0 ≤ ((0 : Nat) : Int) + openBlocks (lines.take n) := by
    intro n
    have := h.take_nonneg n
    omega
  have helse : some k = none → ∀ n i, lines[n]? = some i → i.isElse = true →
      ((0 : Nat) : Int) + openBlocks (lines.take n) ≠ 0 := by
    intro hnone
    cases hnone
  rw [scanLayout_passes hnonneg helse, h.openBlocks_eq]
  rfl

section

variable {code : List Instruction} {start endAt : Nat} {elseAt : Option Nat} {layout : Layout}

/-- The scan finds the `END` of a block and its first `ELSE`. -/
theorem MatchingEnd.layout?_eq (h : MatchingEnd code start endAt)
    (helse : FirstElse code start endAt elseAt) : layout? code start = some ⟨elseAt, endAt⟩ := by
  obtain ⟨hstart, ⟨last, hlast, hcloses⟩, hbalanced⟩ := h
  obtain ⟨hend, -⟩ := List.getElem?_eq_some_iff.1 hlast
  let l : KeywordLine endKeyword := ⟨last, of_decide_eq_true hcloses⟩
  cases elseAt with
  | none =>
    have hpassed : PassedFrom 0 ((code.take endAt).drop start) :=
      hbalanced.passedFrom fun n i =>
        openBlocks_ne_of_not_ownElse (Nat.le_refl endAt) fun j _ => helse j
    calc layout? code start
        = scanLayout 0 none start ((code.take endAt).drop start ++ last :: code.drop (endAt + 1)) := by
          rw [layout?, drop_eq_append hstart hlast]
      _ = scanLayout 0 none endAt (last :: code.drop (endAt + 1)) := by
          rw [hpassed 0 (Nat.le_refl 0), length_between (by omega), Nat.add_sub_cancel' hstart]
      _ = some ⟨none, endAt⟩ := scanLayout_end none endAt _ l
  | some k =>
    obtain ⟨⟨hk, hkend, ⟨mid, hmid, hisElse⟩, hopen⟩, hfirst⟩ := helse
    let m : KeywordLine elseKeyword := ⟨mid, of_decide_eq_true hisElse⟩
    obtain ⟨hbefore, hafter⟩ :=
      hbalanced.parts hk hkend hmid (Instruction.nesting_of_isElse hisElse) hopen
    have hpassed : PassedFrom 0 ((code.take k).drop start) :=
      hbefore.passedFrom fun n i => openBlocks_ne_of_not_ownElse (by omega) hfirst
    calc layout? code start
        = scanLayout 0 none start ((code.take k).drop start ++ mid :: code.drop (k + 1)) := by
          rw [layout?, drop_eq_append hk hmid]
      _ = scanLayout 0 none k (mid :: code.drop (k + 1)) := by
          rw [hpassed 0 (Nat.le_refl 0), length_between (by omega), Nat.add_sub_cancel' hk]
      _ = scanLayout 0 (some k) (k + 1)
            ((code.take endAt).drop (k + 1) ++ last :: code.drop (endAt + 1)) := by
          rw [← drop_eq_append hkend hlast]
          exact scanLayout_else k _ m
      _ = scanLayout 0 (some k) endAt (last :: code.drop (endAt + 1)) := by
          rw [hafter.scanLayout_some, length_between (by omega), Nat.add_sub_cancel' hkend]
      _ = some ⟨some k, endAt⟩ := scanLayout_end (some k) endAt _ l

/-- The `END` that the scan finds is the one of the block. -/
theorem matchingEnd_of_layout? (h : layout? code start = some layout) :
    MatchingEnd code start layout.endAt := by
  obtain ⟨hstart, -, -⟩ := layout?_bounds h
  obtain ⟨hbalanced, -⟩ := layout?_balanced h
  have hfound : Found 0 none start (code.drop start) layout := scanLayout_found h
  obtain ⟨last, hlast, hcloses⟩ := hfound.closes (layout.endAt - start) (by omega)
  rw [List.getElem?_drop, Nat.add_sub_cancel' hstart] at hlast
  exact ⟨hstart, ⟨last, hlast, hcloses⟩, hbalanced⟩

/-- A block has one `END`. -/
theorem MatchingEnd.unique {endAt' : Nat} (h : MatchingEnd code start endAt)
    (h' : MatchingEnd code start endAt') : endAt = endAt' := by
  obtain ⟨elseAt, helse⟩ := exists_firstElse code start endAt
  obtain ⟨elseAt', helse'⟩ := exists_firstElse code start endAt'
  have hsame := (h.layout?_eq helse).symm.trans (h'.layout?_eq helse')
  exact congrArg Layout.endAt (Option.some.inj hsame)

/-- The `ELSE` that the scan finds is the first one of the block. -/
theorem firstElse_of_layout? (h : layout? code start = some layout) :
    FirstElse code start layout.endAt layout.elseAt := by
  obtain ⟨elseAt, helse⟩ := exists_firstElse code start layout.endAt
  have hsame := h.symm.trans ((matchingEnd_of_layout? h).layout?_eq helse)
  obtain rfl : layout.elseAt = elseAt := congrArg Layout.elseAt (Option.some.inj hsame)
  exact helse

end

/-! ### Some of the lines -/

section

variable {code : List Instruction} {start first stop : Nat} {layout : Layout}

/-- A scan does not read beyond the `END` that it finds. -/
theorem scanLayout_take {lines : List Instruction} {depth index n : Nat} {elseAt : Option Nat}
    (hn : layout.endAt < index + n) :
    scanLayout depth elseAt index (lines.take n) = some layout ↔
      scanLayout depth elseAt index lines = some layout := by
  induction lines generalizing depth elseAt index n with
  | nil => rw [List.take_nil]
  | cons i rest ih =>
    cases n with
    | zero =>
      constructor
      · intro h
        cases h
      · intro h
        obtain ⟨hle, -⟩ := scanLayout_bounds h
        omega
    | succ n =>
      have hrest : ∀ {depth : Nat} {elseAt : Option Nat},
          scanLayout depth elseAt (index + 1) (rest.take n) = some layout ↔
            scanLayout depth elseAt (index + 1) rest = some layout := ih (by omega)
      rw [List.take_succ_cons, scanLayout.eq_def, scanLayout.eq_def depth elseAt index (i :: rest)]
      dsimp only
      by_cases hopens : i.opensBlock = true
      · rw [if_pos hopens, if_pos hopens]
        exact hrest
      · rw [if_neg hopens, if_neg hopens]
        by_cases hcloses : i.closesBlock = true
        · rw [if_pos hcloses, if_pos hcloses]
          cases depth with
          | zero => exact Iff.rfl
          | succ depth => exact hrest
        · rw [if_neg hcloses, if_neg hcloses]
          split
          · exact hrest
          · exact hrest

/-- A scan of the lines from `first` up to `stop` finds what a scan of all lines finds, as
long as its block starts and ends among them. -/
theorem layout?_slice (hfirst : first ≤ start) (hstop : layout.endAt < stop) :
    (layout? ((code.take stop).drop first) (start - first)).map (Layout.up first) = some layout ↔
      layout? code start = some layout := by
  have hmoved : layout? (code.take stop) start =
      (layout? ((code.take stop).drop first) (start - first)).map (Layout.up first) := by
    by_cases hle : first ≤ (code.take stop).length
    · have hlength : ((code.take stop).take first).length = first := List.length_take_of_le hle
      have htexts : ((code.take stop).drop first).map Instruction.text =
          ((code.take stop).drop first).map Instruction.text := rfl
      have h := layout?_moved htexts ((code.take stop).take first) (start - first)
      rwa [hlength, List.take_append_drop, Nat.sub_add_cancel hfirst] at h
    · -- no line is left
      rw [layout?, layout?, List.drop_drop, List.drop_of_length_le (by omega),
        List.drop_of_length_le (by omega)]
      rfl
  rw [← hmoved, layout?, layout?, List.drop_take]
  exact scanLayout_take (by omega)

end

/-- The scan for the `END` of a block finds the line that matches: it finds the `END` at
`endAt` exactly if that line is not before the start, closes a block, and has balanced
lines between the start and itself, and there is at most one such line. Balanced lines are
those made of whole blocks. The `ELSE` that the scan finds is the first one before the
`END` that is in no inner block, or there is none; the lines before and behind it are
balanced. Nothing else counts: among any of the lines that contain the block, the scan
finds the same, moved by as many lines as there are fewer before it. -/
theorem layout?_finds_matchingEnd (code : List Instruction) (start : Nat) :
    (∀ endAt, (∃ layout, layout? code start = some layout ∧ layout.endAt = endAt) ↔
      MatchingEnd code start endAt) ∧
    (∀ endAt endAt', MatchingEnd code start endAt → MatchingEnd code start endAt' →
      endAt = endAt') ∧
    (∀ lines, Balanced lines ↔ WholeBlocks lines) ∧
    ∀ layout, layout? code start = some layout →
      FirstElse code start layout.endAt layout.elseAt ∧
      (∀ k, layout.elseAt = some k →
        Balanced ((code.take k).drop start) ∧ Balanced ((code.take layout.endAt).drop (k + 1))) ∧
      ∀ first stop, first ≤ start → layout.endAt < stop →
        (layout? ((code.take stop).drop first) (start - first)).map (Layout.up first) =
          some layout := by
  refine ⟨fun endAt => ?_, fun _ _ => MatchingEnd.unique, fun _ => balanced_iff_wholeBlocks,
    fun layout h => ?_⟩
  · constructor
    · rintro ⟨layout, h, rfl⟩
      exact matchingEnd_of_layout? h
    · intro h
      obtain ⟨elseAt, helse⟩ := exists_firstElse code start endAt
      exact ⟨⟨elseAt, endAt⟩, h.layout?_eq helse, rfl⟩
  · obtain ⟨-, hbranches⟩ := layout?_balanced h
    exact ⟨firstElse_of_layout? h, hbranches, fun _ _ hfirst hstop =>
      (layout?_slice hfirst hstop).2 h⟩

/-- A conditional with another one, which has an `ELSE` as well, in its first branch, and
with two lines that could be its own `ELSE`. -/
def nestedBranches : List Instruction :=
  [⟨"IF a", 1⟩, ⟨"IF b", 2⟩, ⟨"ELSE", 3⟩, ⟨"END", 4⟩, ⟨"IGNORE", 5⟩, ⟨"ELSE", 6⟩, ⟨"IGNORE", 7⟩,
    ⟨"ELSE", 8⟩, ⟨"END", 9⟩, ⟨"END", 10⟩]

/-- The scan passes over the inner conditional and stops at its own `END`, not at the one
that is left over; so it does when the first line and the last are cut off. -/
theorem nestedBranches_matchingEnd :
    layout? nestedBranches 1 = some ⟨some 5, 8⟩ ∧ MatchingEnd nestedBranches 1 8 ∧
      FirstElse nestedBranches 1 8 (some 5) ∧
      (Balanced ((nestedBranches.take 5).drop 1) ∧ Balanced ((nestedBranches.take 8).drop 6)) ∧
      (layout? ((nestedBranches.take 9).drop 1) 0).map (Layout.up 1) = some ⟨some 5, 8⟩ := by
  have hlayout : layout? nestedBranches 1 = some ⟨some 5, 8⟩ := by decide +kernel
  obtain ⟨hend, -, -, hfound⟩ := layout?_finds_matchingEnd nestedBranches 1
  obtain ⟨helse, hbranches, hslice⟩ := hfound _ hlayout
  exact ⟨hlayout, (hend 8).1 ⟨_, hlayout, rfl⟩, helse, hbranches 5 rfl,
    hslice 1 9 (by decide) (by decide)⟩

end LineScript
