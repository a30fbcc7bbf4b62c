import LineScript.Proofs.Text.Quoted

/-!
# Parentheses outside literals

- `nextOpen?`, `openAfter?`: how many parentheses are open after a character and after a text,
  unless one is closed that is not open.
- `Paired`: every parenthesis has its partner. Counting decides it (`paired_iff`).
- `Whole`: a text that leaves no literal and no parenthesis open. So does the text in
  parentheses (`Whole.group`).
-/

namespace LineScript

namespace Text

/-- The number of open parentheses after one more marked character; `none` when it closes a
parenthesis and none is open. -/
def nextOpen? (depth : Nat) (m : Char × Bool) : Option Nat :=
  if m.2 && m.1 = '(' then some (depth + 1)
  else if m.2 && m.1 = ')' then if depth = 0 then none else some (depth - 1)
  else some depth

/-- The number of open parentheses after marked characters, when `depth` of them are open
before. -/
def openAfter? (depth : Nat) (t : List (Char × Bool)) : Option Nat :=
  t.foldlM nextOpen? depth

theorem openAfter?_cons (depth : Nat) (m : Char × Bool) (t : List (Char × Bool)) :
    openAfter? depth (m :: t) = (nextOpen? depth m).bind fun d => openAfter? d t :=
  List.foldlM_cons

theorem openAfter?_append (depth : Nat) (s t : List (Char × Bool)) :
    openAfter? depth (s ++ t) = (openAfter? depth s).bind fun d => openAfter? d t :=
  List.foldlM_append

theorem nextOpen?_add {depth d : Nat} {m : Char × Bool} (h : nextOpen? depth m = some d)
    (k : Nat) : nextOpen? (depth + k) m = some (d + k) := by
  rw [nextOpen?] at h ⊢
  split at h
  · next hopen =>
    obtain rfl := Option.some.inj h
    rw [if_pos hopen, Nat.add_right_comm]
  · next hopen =>
    rw [if_neg hopen]
    split at h
    · next hclose =>
      split at h
      · cases h
      · next hpositive =>
        obtain rfl := Option.some.inj h
        rw [if_pos hclose, if_neg (by omega)]
        congr 1
        omega
    · next hclose =>
      obtain rfl := Option.some.inj h
      rw [if_neg hclose]

/-- Parentheses that are open around a text stay open. -/
theorem openAfter?_add {depth d : Nat} {t : List (Char × Bool)} (h : openAfter? depth t = some d)
    (k : Nat) : openAfter? (depth + k) t = some (d + k) := by
  induction t generalizing depth with
  | nil =>
    obtain rfl := Option.some.inj h
    rfl
  | cons m t ih =>
    rw [openAfter?_cons] at h ⊢
    obtain ⟨next, hnext, hrest⟩ := Option.bind_eq_some_iff.1 h
    rw [nextOpen?_add hnext k]
    exact ih hrest

theorem nextOpen?_other {m : Char × Bool} (hopen : m ≠ ('(', true)) (hclose : m ≠ (')', true))
    (depth : Nat) : nextOpen? depth m = some depth := by
  obtain ⟨c, outside⟩ := m
  cases outside with
  | false => rfl
  | true =>
    have hc : c ≠ '(' ∧ c ≠ ')' :=
      ⟨fun h => hopen (by rw [h]), fun h => hclose (by rw [h])⟩
    simp [nextOpen?, hc]

/-- A text without parentheses outside literals opens and closes none. -/
theorem openAfter?_of_none {t : List (Char × Bool)}
    (h : ∀ m ∈ t, m ≠ ('(', true) ∧ m ≠ (')', true)) (depth : Nat) :
    openAfter? depth t = some depth := by
  induction t with
  | nil => rfl
  | cons m t ih =>
    obtain ⟨hopen, hclose⟩ := h m List.mem_cons_self
    rw [openAfter?_cons, nextOpen?_other hopen hclose]
    exact ih fun n hn => h n (List.mem_cons_of_mem _ hn)

/-! ### Pairs of parentheses -/

/-- Every parenthesis outside literals has its partner, and what stands between the two is
paired as well. -/
inductive Paired : List (Char × Bool) → Prop where
  | nil : Paired []
  | other {m : Char × Bool} {t : List (Char × Bool)} (hopen : m ≠ ('(', true))
      (hclose : m ≠ (')', true)) (ht : Paired t) : Paired (m :: t)
  | pair {s t : List (Char × Bool)} (hs : Paired s) (ht : Paired t) :
      Paired (('(', true) :: (s ++ (')', true) :: t))

/-- Where one parenthesis more is open than are closed by the end, one of the characters closes
it, and none before that does. -/
theorem exists_partner {depth : Nat} {t : List (Char × Bool)}
    (h : openAfter? (depth + 1) t = some 0) :
    ∃ s u, t = s ++ (')', true) :: u ∧ openAfter? depth s = some 0 ∧
      openAfter? 0 u = some 0 := by
  induction t generalizing depth with
  | nil => cases h
  | cons m t ih =>
    rw [openAfter?_cons] at h
    by_cases hopen : m = ('(', true)
    · subst hopen
      obtain ⟨s, u, rfl, hs, hu⟩ := ih h
      exact ⟨_ :: s, u, rfl, hs, hu⟩
    · by_cases hclose : m = (')', true)
      · subst hclose
        cases depth with
        | zero => exact ⟨[], t, rfl, rfl, h⟩
        | succ depth =>
          obtain ⟨s, u, rfl, hs, hu⟩ := ih h
          exact ⟨_ :: s, u, rfl, hs, hu⟩
      · rw [nextOpen?_other hopen hclose] at h
        obtain ⟨s, u, rfl, hs, hu⟩ := ih h
        refine ⟨m :: s, u, rfl, ?_, hu⟩
        rw [openAfter?_cons, nextOpen?_other hopen hclose]
        exact hs

/-- Parentheses are paired exactly when none is closed that is not open, and none is left open
at the end. -/
theorem paired_iff {t : List (Char × Bool)} : Paired t ↔ openAfter? 0 t = some 0 := by
  constructor
  · intro h
    induction h with
    | nil => rfl
    | other hopen hclose _ ih =>
      rw [openAfter?_cons, nextOpen?_other hopen hclose]
      exact ih
    | @pair s t _ _ ihs iht =>
      show openAfter? 1 (s ++ (')', true) :: t) = some 0
      rw [openAfter?_append, openAfter?_add ihs 1]
      exact iht
  · intro h
    -- the characters up to the partner of a parenthesis are fewer
    induction hn : t.length using Nat.strong_induction_on generalizing t with
    | _ n ih =>
      subst hn
      cases t with
      | nil => exact .nil
      | cons m t =>
        by_cases hopen : m = ('(', true)
        · subst hopen
          obtain ⟨s, u, rfl, hs, hu⟩ := @exists_partner 0 _ h
          have hlength : (('(', true) :: (s ++ (')', true) :: u)).length =
              s.length + u.length + 2 := by
            simp only [List.length_cons, List.length_append]
            omega
          exact .pair (ih s.length (by omega) hs rfl) (ih u.length (by omega) hu rfl)
        · by_cases hclose : m = (')', true)
          · subst hclose
            cases h
          · rw [openAfter?_cons, nextOpen?_other hopen hclose] at h
            exact .other hopen hclose (ih t.length (by simp) h rfl)

instance (t : List (Char × Bool)) : Decidable (Paired t) :=
  decidable_of_iff _ paired_iff.symm

/-! ### Whole texts -/

/-- A text that leaves no literal and no parenthesis open, and closes only parentheses that
it opens. -/
structure Whole (t : List Char) : Prop where
  closed : Quoted.run .outside t = .outside
  balanced : openAfter? 0 (Quoted.mark .outside t) = some 0

namespace Whole

variable {s t : List Char}

/-- Around whole texts any number of parentheses may be open. -/
theorem openAfter?_eq (h : Whole t) (depth : Nat) :
    openAfter? depth (Quoted.mark .outside t) = some depth := by
  simpa using openAfter?_add h.balanced depth

theorem append (hs : Whole s) (ht : Whole t) : Whole (s ++ t) where
  closed := by rw [Quoted.run_append, hs.closed, ht.closed]
  balanced := by
    rw [Quoted.mark_append_of_outside hs.closed, openAfter?_append, hs.balanced]
    exact ht.balanced

/-- A text without quotes and parentheses. -/
theorem of_plain (h : ∀ c ∈ t, Quoted.isQuote c = false ∧ c ≠ '(' ∧ c ≠ ')') : Whole t where
  closed := Quoted.run_plain fun c hc => (h c hc).1
  balanced := by
    rw [Quoted.mark_plain fun c hc => (h c hc).1]
    apply openAfter?_of_none
    intro m hm
    obtain ⟨c, hc, rfl⟩ := List.mem_map.1 hm
    obtain ⟨-, hopen, hclose⟩ := h c hc
    exact ⟨fun heq => hopen (congrArg Prod.fst heq), fun heq => hclose (congrArg Prod.fst heq)⟩

/-- A whole text in parentheses. -/
theorem group (h : Whole t) : Whole ('(' :: t ++ [')']) := by
  have hopen : Quoted.State.outside.next '(' = .outside := rfl
  constructor
  · rw [List.cons_append, Quoted.run_cons, hopen, Quoted.run_append, h.closed]
    rfl
  · rw [List.cons_append, Quoted.mark, hopen, Quoted.mark_append_of_outside h.closed]
    show openAfter? 1 (Quoted.mark .outside t ++ [(')', true)]) = some 0
    rw [openAfter?_append, h.openAfter?_eq 1]
    rfl

end Whole

end Text

end LineScript
