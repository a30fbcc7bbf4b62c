import LineScript.Proofs.Expr.Operand
import LineScript.Proofs.Text.Parentheses

/-!
# The first group of a text

The first group that is closed is found at the first closing parenthesis outside all literals: it
begins at the last opening one before that. So no group is closed before it, and none is in it.

- `Unclosed`, `Ungrouped`, `openings`: the parentheses of a text.
- `firstGroup?`: the search for the first group that is closed.
- `Group.Innermost`: a group that has no group in it, and none that is closed before it.
- `Located`, `firstGroup?_iff`: what the search finds, and when it fails.
-/

namespace LineScript

namespace Expr

open Quoted (mark run)
open Text (openAfter?)

/-! ### Parentheses -/

/-- No closing parenthesis of the text lies outside all literals. -/
def Unclosed (t : List Char) : Prop :=
  (')', true) ∉ mark .outside t

/-- No parenthesis of the text lies outside all literals. -/
structure Ungrouped (t : List Char) : Prop where
  opening : ('(', true) ∉ mark .outside t
  closing : Unclosed t

/-- The number of opening parentheses outside all literals. -/
def openings (t : List Char) : Nat :=
  (mark .outside t).count ('(', true)

variable {s t : List Char}

theorem ungrouped_iff : Ungrouped t ↔ ∀ m ∈ mark .outside t, Marked.groups m = false := by
  have hgroups : ∀ m : Marked, m.groups = false ↔ m ≠ ('(', true) ∧ m ≠ (')', true) := by
    rintro ⟨c, outside⟩
    cases outside <;> simp [Marked.groups]
  simp only [hgroups]
  constructor
  · rintro ⟨hopening, hclosing⟩ m hm
    exact ⟨fun h => hopening (h ▸ hm), fun h => hclosing (h ▸ hm)⟩
  · intro h
    exact ⟨fun hm => (h _ hm).1 rfl, fun hm => (h _ hm).2 rfl⟩

theorem Ungrouped.of_subset (h : Ungrouped t) (hs : mark .outside s ⊆ mark .outside t) :
    Ungrouped s :=
  ⟨fun hm => h.opening (hs hm), fun hm => h.closing (hs hm)⟩

/-- Where no parenthesis is closed, all that are opened stay open. -/
theorem openAfter?_of_unclosed {t : List (Char × Bool)} (h : (')', true) ∉ t) (depth : Nat) :
    openAfter? depth t = some (depth + t.count ('(', true)) := by
  induction t generalizing depth with
  | nil => rfl
  | cons m t ih =>
    obtain ⟨hm, hrest⟩ := not_or.1 (List.mem_cons.not.1 h)
    rw [Text.openAfter?_cons]
    by_cases hopen : m = ('(', true)
    · subst hopen
      show openAfter? (depth + 1) t = _
      rw [ih hrest, List.count_cons_self, Nat.add_right_comm, Nat.add_assoc]
    · rw [Text.nextOpen?_other hopen (Ne.symm hm), List.count_cons_of_ne hopen]
      exact ih hrest depth

theorem Ungrouped.openAfter?_eq (h : Ungrouped t) (depth : Nat) :
    openAfter? depth (mark .outside t) = some depth := by
  rw [openAfter?_of_unclosed h.closing, List.count_eq_zero.2 h.opening, Nat.add_zero]

/-! ### The first group that is closed -/

/-- A group of a text: the text before its opening parenthesis, its content, and the text after
its closing one. -/
structure Group where
  before : List Char
  content : List Char
  after : List Char

/-- The text that the group is cut from. -/
def Group.text (g : Group) : List Char :=
  g.before ++ '(' :: (g.content ++ ')' :: g.after)

/-- Look for the first closing parenthesis, and for the last opening one before it. `none` when
the text has no parentheses. -/
def firstGroup? (t : List Char) : Except Cause (Option Group) :=
  let marked := mark .outside t
  let head := marked.takeWhile (· ≠ (')', true))
  match marked.dropWhile (· ≠ (')', true)) with
  | [] =>
    if ('(', true) ∈ head then .error (.malformedExpression "unbalanced `(`") else .ok none
  | _ :: after =>
    match head.reverse.dropWhile (· ≠ ('(', true)) with
    | [] => .error (.malformedExpression "unbalanced `)`")
    | _ :: before =>
      .ok (some ⟨plain before.reverse, plain (head.reverse.takeWhile (· ≠ ('(', true))).reverse,
        plain after⟩)

/-- No group is closed before this one, and none is in it. Its parentheses lie outside all
literals. -/
structure Group.Innermost (g : Group) : Prop where
  before : Unclosed g.before
  beforeClosed : run .outside g.before = .outside
  content : Ungrouped g.content
  contentClosed : run .outside g.content = .outside

/-- What a search for the first group finds. -/
inductive Located : List Char → Except Cause (Option Group) → Prop where
  | none {t : List Char} (h : Ungrouped t) : Located t (.ok none)
  | group {g : Group} (h : g.Innermost) : Located g.text (.ok (some g))
  | opening {t : List Char} (h : Unclosed t) (hopen : ('(', true) ∈ mark .outside t) :
      Located t (.error (.malformedExpression "unbalanced `(`"))
  | closing {s : List Char} (h : Ungrouped s) (hs : run .outside s = .outside) (t : List Char) :
      Located (s ++ ')' :: t) (.error (.malformedExpression "unbalanced `)`"))

/-- A list is cut at the first occurrence of an element. -/
theorem span_ne {α : Type} [DecidableEq α] {x : α} {l : List α} (hx : x ∉ l) (l' : List α) :
    (l ++ x :: l').takeWhile (· ≠ x) = l ∧ (l ++ x :: l').dropWhile (· ≠ x) = x :: l' := by
  have hl : ∀ y ∈ l, decide (y ≠ x) = true := by
    intro y hy
    exact decide_eq_true fun h => hx (h ▸ hy)
  rw [List.takeWhile_append_of_pos hl, List.dropWhile_append_of_pos hl,
    List.takeWhile_cons_of_neg (by simp), List.dropWhile_cons_of_neg (by simp), List.append_nil]
  exact ⟨rfl, rfl⟩

/-- A list without an element is not cut. -/
theorem span_ne_of_not_mem {α : Type} [DecidableEq α] {x : α} {l : List α} (hx : x ∉ l) :
    l.takeWhile (· ≠ x) = l ∧ l.dropWhile (· ≠ x) = [] := by
  have hl : ∀ y ∈ l, decide (y ≠ x) = true := by
    intro y hy
    exact decide_eq_true fun h => hx (h ▸ hy)
  exact ⟨List.takeWhile_eq_self_iff.2 hl, List.dropWhile_eq_nil_iff.2 hl⟩

section

variable {g : Group}

theorem Group.mark_text (h : g.Innermost) :
    mark .outside g.text = mark .outside g.before ++ ('(', true) ::
      (mark .outside g.content ++ (')', true) :: mark .outside g.after) := by
  rw [text, Quoted.mark_append_of_outside h.beforeClosed, Quoted.mark_cons_plain (by decide),
    Quoted.mark_append_of_outside h.contentClosed, Quoted.mark_cons_plain (by decide)]

theorem firstGroup?_group (h : g.Innermost) : firstGroup? g.text = .ok (some g) := by
  let head := mark .outside g.before ++ ('(', true) :: mark .outside g.content
  have hhead : (')', true) ∉ head := by
    rw [List.mem_append, List.mem_cons]
    rintro (hbefore | hopen | hcontent)
    · exact h.before hbefore
    · cases hopen
    · exact h.content.closing hcontent
  have hmark : mark .outside g.text = head ++ (')', true) :: mark .outside g.after := by
    rw [Group.mark_text h, List.append_assoc]
    rfl
  have hreverse : head.reverse = (mark .outside g.content).reverse ++
      ('(', true) :: (mark .outside g.before).reverse := by
    simp [head]
  have hcontent : ('(', true) ∉ (mark .outside g.content).reverse := by
    simpa using h.content.opening
  obtain ⟨htake, hdrop⟩ := span_ne hhead (mark .outside g.after)
  obtain ⟨htake', hdrop'⟩ := span_ne hcontent (mark .outside g.before).reverse
  rw [firstGroup?, hmark]
  simp only [htake, hdrop, hreverse, htake', hdrop', List.reverse_reverse, plain,
    Quoted.map_fst_mark]

end

/-- The search gives what there is to find. -/
theorem Located.firstGroup?_eq {r : Except Cause (Option Group)} (h : Located t r) :
    firstGroup? t = r := by
  cases h with
  | group h => exact firstGroup?_group h
  | none h =>
    obtain ⟨htake, hdrop⟩ := span_ne_of_not_mem h.closing
    simp only [firstGroup?, htake, hdrop, if_neg h.opening]
  | opening h hopen =>
    obtain ⟨htake, hdrop⟩ := span_ne_of_not_mem h
    simp only [firstGroup?, htake, hdrop, if_pos hopen]
  | @closing s h hs t =>
    have hopening : ('(', true) ∉ (mark .outside s).reverse := by simpa using h.opening
    obtain ⟨htake, hdrop⟩ := span_ne h.closing (mark .outside t)
    obtain ⟨-, hdrop'⟩ := span_ne_of_not_mem hopening
    rw [firstGroup?, Quoted.mark_append_of_outside hs, Quoted.mark_cons_plain (by decide)]
    simp only [htake, hdrop, hdrop']

/-- There is always something to find. -/
theorem exists_located (t : List Char) : ∃ r, Located t r := by
  by_cases hclose : (')', true) ∈ mark .outside t
  · -- up to the first closing parenthesis no group is closed
    obtain ⟨head, after, hmark, hhead⟩ := List.eq_append_cons_of_mem hclose
    obtain ⟨s, u, rfl, rfl, hs, -⟩ := Quoted.mark_cut (by decide) hmark
    by_cases hopen : ('(', true) ∈ mark .outside s
    · -- the group begins at the last opening parenthesis
      obtain ⟨content, before, hreverse, hcontent⟩ :=
        List.eq_append_cons_of_mem (List.mem_reverse.2 hopen)
      have hsplit : mark .outside s = before.reverse ++ ('(', true) :: content.reverse := by
        rw [← List.reverse_reverse (mark .outside s), hreverse]
        simp
      obtain ⟨b, c, rfl, hb, hbrun, hc⟩ := Quoted.mark_cut (by decide) hsplit
      have hcrun : run .outside c = .outside := by
        rw [Quoted.run_append, hbrun] at hs
        exact hs
      rw [hsplit] at hhead
      have hinnermost : Group.Innermost ⟨b, c, u⟩ := by
        refine ⟨?_, hbrun, ⟨?_, ?_⟩, hcrun⟩
        · rw [Unclosed, hb]
          exact fun hm => hhead (List.mem_append_left _ hm)
        · rw [hc]
          simpa using hcontent
        · rw [Unclosed, hc]
          exact fun hm => hhead (List.mem_append_right _ (List.mem_cons_of_mem _ hm))
      have hlocated := Located.group hinnermost
      rw [Group.text] at hlocated
      exact ⟨_, by simpa using hlocated⟩
    · exact ⟨_, .closing ⟨hopen, hhead⟩ hs u⟩
  · by_cases hopen : ('(', true) ∈ mark .outside t
    · exact ⟨_, .opening hclose hopen⟩
    · exact ⟨_, .none ⟨hopen, hclose⟩⟩

/-- The search finds the first group, or says which parenthesis has no partner. -/
theorem firstGroup?_iff {r : Except Cause (Option Group)} : firstGroup? t = r ↔ Located t r := by
  constructor
  · rintro rfl
    obtain ⟨r, hr⟩ := exists_located t
    rwa [hr.firstGroup?_eq]
  · exact Located.firstGroup?_eq

end Expr

end LineScript
