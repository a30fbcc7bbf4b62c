import LineScript.Proofs.Expr.Flat
import LineScript.Proofs.Expr.Values
import LineScript.Proofs.Text.Arguments

/-!
# Splitting arguments and joining them

Arguments that are joined with blanks between them are split into the same arguments, and
whatever is split consists of its arguments and the blanks around them.

- `Unbroken`, `Item`: every blank of a text lies in parentheses or in a literal; such a text
  that is not empty and pairs its parentheses is one item of a list.
- `Spaced`: a text consists of some items, with blanks around and between them.
- `Item.argument`: an item without an open literal is read as one argument.
- `splitArguments_inverts_joining`: splitting inverts joining.
- `splitArguments_fails_iff`: a text is not split exactly if its parentheses are not paired.
-/

namespace LineScript

namespace Expr

open Quoted (mark run)
open Text (argumentsFrom openAfter? nextOpen? Paired)

/-! ### Items -/

/-- Every blank of the text lies in parentheses or in a literal. -/
def Unbroken (t : List Char) : Prop :=
  ∀ u c v, t = u ++ c :: v → Text.isBlank c = true → run .outside u = .outside →
    openAfter? 0 (mark .outside u) ≠ some 0

/-- One item of a list of arguments. Its last literal may be left open. -/
structure Item (t : List Char) : Prop where
  ne_nil : t ≠ []
  paired : Paired (mark .outside t)
  unbroken : Unbroken t

/-- Every character is looked at once. -/
theorem unbroken_iff {t : List Char} :
    Unbroken t ↔ ∀ i (h : i < t.length), Text.isBlank t[i] = true →
      run .outside (t.take i) = .outside → openAfter? 0 (mark .outside (t.take i)) ≠ some 0 := by
  constructor
  · intro h i hi
    exact h (t.take i) t[i] (t.drop (i + 1)) (by simp)
  · rintro h u c v rfl hc
    have hat := h u.length (by simp)
    rw [List.getElem_append_right le_rfl, List.take_left] at hat
    exact hat (by simpa using hc)

instance (t : List Char) : Decidable (Unbroken t) :=
  decidable_of_iff _ unbroken_iff.symm

theorem item_iff {t : List Char} :
    Item t ↔ t ≠ [] ∧ Paired (mark .outside t) ∧ Unbroken t :=
  ⟨fun h => ⟨h.ne_nil, h.paired, h.unbroken⟩, fun h => ⟨h.1, h.2.1, h.2.2⟩⟩

instance (t : List Char) : Decidable (Item t) :=
  decidable_of_iff _ item_iff.symm

theorem Unbroken.nil : Unbroken [] := by
  intro u c v h
  simp at h

variable {t u : List Char} {c : Char}

/-- A character that is no blank between arguments goes on with an item. -/
theorem Unbroken.concat (h : Unbroken t)
    (hc : Text.isBlank c = true → run .outside t = .outside →
      openAfter? 0 (mark .outside t) ≠ some 0) : Unbroken (t ++ [c]) := by
  intro u d v heq hd hrun
  rcases List.eq_nil_or_concat v with rfl | ⟨v, e, rfl⟩
  · obtain ⟨rfl, hlast⟩ := List.append_inj' heq rfl
    obtain rfl := (List.cons.inj hlast).1
    exact hc hd hrun
  · have hinit : t ++ [c] = u ++ d :: v ++ [e] := by simpa using heq
    exact h u d v (List.append_inj' hinit rfl).1 hd hrun

/-- An item has no blank at its ends. -/
theorem Item.tight (h : Item t) (hclosed : run .outside t = .outside) : Text.Tight t := by
  refine ⟨h.ne_nil, ?_, ?_⟩
  · obtain ⟨c, rest, rfl⟩ := List.exists_cons_of_ne_nil h.ne_nil
    by_contra hblank
    exact h.unbroken [] c rest rfl (by simpa [Text.startsBlank] using hblank) rfl rfl
  · obtain ⟨init, c, hinit⟩ := (List.eq_nil_or_concat t).resolve_left h.ne_nil
    obtain rfl : t = init ++ [c] := by rw [hinit, List.concat_eq_append]
    by_contra hlast
    have hblank : Text.isBlank c = true := by
      rw [List.reverse_append] at hlast
      exact Bool.not_eq_false _ ▸ hlast
    have hplain := Text.not_quote_of_blank hblank
    have hrun : run .outside init = .outside :=
      Quoted.run_outside_of_append (List.forall_mem_singleton.2 hplain) hclosed
    -- a blank opens and closes nothing, so no parenthesis is open before it
    have hpaired := Text.paired_iff.1 h.paired
    rw [Quoted.mark_append_of_outside hrun, Text.openAfter?_append] at hpaired
    obtain ⟨d, hd, hend⟩ := Option.bind_eq_some_iff.1 hpaired
    have hparens := Text.ne_parenthesis_of_blank hblank
    have hsame : openAfter? d [(c, true)] = some d :=
      Text.openAfter?_of_none (by simpa using hparens) d
    rw [Quoted.mark_cons_plain hplain, mark, hsame] at hend
    obtain rfl := Option.some.inj hend
    exact h.unbroken init c [] rfl hblank hrun hd

/-- The open parentheses after one more character of a text. -/
theorem openAfter?_concat {d next : Nat} (hd : openAfter? 0 (mark .outside t) = some d)
    (hnext : nextOpen? d (c, (run .outside t).isOutside) = some next) :
    openAfter? 0 (mark .outside (t ++ [c])) = some next := by
  rw [Quoted.mark_append, Text.openAfter?_append, hd]
  show openAfter? d [_] = some next
  rw [Text.openAfter?_cons, hnext]
  rfl

/-- The characters of an item are read into one argument. -/
theorem argumentsFrom_of_unbroken {d d' : Nat} (h : Unbroken (t ++ u))
    (hbefore : openAfter? 0 (mark .outside t) = some d)
    (hafter : openAfter? d (mark (run .outside t) u) = some d') (current : List Char)
    (rest : List Marked) :
    argumentsFrom d (t.reverse ++ current) (mark (run .outside t) u ++ rest) =
      argumentsFrom d' ((t ++ u).reverse ++ current) rest := by
  induction u generalizing t d with
  | nil =>
    obtain rfl := Option.some.inj hafter
    simp [mark]
  | cons c u ih =>
    rw [mark, Text.openAfter?_cons] at hafter
    obtain ⟨next, hnext, hmore⟩ := Option.bind_eq_some_iff.1 hafter
    have hjoins : ((run .outside t).isOutside && Text.isBlank c && decide (d = 0)) = false := by
      by_contra hsep
      simp only [Bool.not_eq_false, Bool.and_eq_true, decide_eq_true_eq] at hsep
      obtain ⟨⟨houtside, hblank⟩, rfl⟩ := hsep
      exact h t c u rfl hblank (Quoted.State.eq_outside houtside) hbefore
    have happend : t ++ c :: u = (t ++ [c]) ++ u := by simp
    have hrun : run .outside (t ++ [c]) = (run .outside t).next c := by simp
    have hread := openAfter?_concat hbefore hnext
    rw [happend] at h
    rw [mark, List.cons_append, Text.argumentsFrom_cons hnext hjoins, happend, ← hrun]
    rw [← hrun] at hmore
    rw [← ih h hread hmore]
    simp

/-- An item without an open literal is read as one argument. -/
theorem Item.argument (h : Item t) (hclosed : run .outside t = .outside) : Text.Argument t where
  tight := h.tight hclosed
  closed := hclosed
  read current rest := argumentsFrom_of_unbroken (t := []) h.unbroken rfl
    (Text.paired_iff.1 h.paired) current rest

/-! ### Joining -/

/-- The text consists of the items in their order, with any blanks before the first and after
the last one, and at least one blank between two of them. -/
inductive Spaced : List (List Char) → List Char → Prop where
  | blank (gap : Gap) : Spaced [] gap.text
  | last (before : Gap) (a : List Char) (after : Gap) :
      Spaced [a] (before.text ++ a ++ after.text)
  | cons (before : Gap) (a : List Char) (between : Blanks) {b : List Char}
      {args : List (List Char)} {t : List Char} (ht : Spaced (b :: args) t) :
      Spaced (a :: b :: args) (before.text ++ a ++ between.text ++ t)

variable {args : List (List Char)}

/-- A blank before a text separates nothing. -/
theorem arguments_gap (gap : Gap) (t : List Char) :
    Text.arguments (gap.text ++ t) = Text.arguments t := by
  obtain ⟨text, hblank⟩ := gap
  show Text.arguments (text ++ t) = _
  induction text with
  | nil => rfl
  | cons c text ih =>
    obtain ⟨hc, htext⟩ := List.forall_mem_cons.1 hblank
    have hplain := Text.not_quote_of_blank hc
    rw [List.cons_append, Text.arguments, Quoted.mark_cons_plain hplain,
      Text.argumentsFrom_blank hc, ← Text.arguments, ih htext]
    cases Text.arguments t with
    | error e => rfl
    | ok args => rfl

/-- Arguments that are joined are split again. -/
theorem Spaced.arguments_eq (h : Spaced args t) (hargs : ∀ a ∈ args, Text.Argument a) :
    Text.arguments t = .ok args := by
  induction h with
  | blank gap =>
    have hgap := arguments_gap gap []
    rwa [List.append_nil] at hgap
  | last before a after =>
    have ha := hargs a List.mem_cons_self
    rw [List.append_assoc, arguments_gap]
    obtain ⟨text, hblank⟩ := after
    cases text with
    | nil =>
      show Text.arguments (a ++ []) = _
      rw [List.append_nil, Text.arguments_single ha]
    | cons c text =>
      obtain ⟨hc, htext⟩ := List.forall_mem_cons.1 hblank
      have hrest := arguments_gap ⟨text, htext⟩ []
      rw [List.append_nil] at hrest
      rw [Text.arguments_argument ha hc, hrest]
      rfl
  | @cons before a between b args t _ ih =>
    obtain ⟨ha, hrest⟩ := List.forall_mem_cons.1 hargs
    obtain ⟨⟨text, hblank⟩, hne⟩ := between
    obtain ⟨c, text, rfl⟩ := List.exists_cons_of_ne_nil hne
    obtain ⟨hc, htext⟩ := List.forall_mem_cons.1 hblank
    have hgap := arguments_gap ⟨text, htext⟩ t
    rw [List.append_assoc, List.append_assoc, arguments_gap, List.cons_append,
      Text.arguments_argument ha hc, hgap, ih hrest]
    rfl

/-! ### Splitting -/

/-- One more blank before the items. -/
theorem Spaced.cons_blank (h : Spaced args t) (hc : Text.isBlank c = true) :
    Spaced args (c :: t) := by
  have hmore : ∀ gap : Gap, ∀ d ∈ c :: gap.text, Text.isBlank d = true :=
    fun gap => List.forall_mem_cons.2 ⟨hc, gap.blank⟩
  cases h with
  | blank gap => exact .blank ⟨c :: gap.text, hmore gap⟩
  | last before a after => exact .last ⟨c :: before.text, hmore before⟩ a after
  | cons before a between ht => exact .cons ⟨c :: before.text, hmore before⟩ a between ht

/-- An item before a blank and further items. -/
theorem Spaced.cons_item (h : Spaced args t) (hc : Text.isBlank c = true) (a : List Char) :
    Spaced (a :: args) (a ++ c :: t) := by
  cases h with
  | blank gap =>
    exact .last .empty a ⟨c :: gap.text, List.forall_mem_cons.2 ⟨hc, gap.blank⟩⟩
  | last before b after =>
    have hjoined := Spaced.cons .empty a ⟨⟨[c], List.forall_mem_singleton.2 hc⟩, by simp⟩
      (.last before b after)
    simpa [Gap.empty] using hjoined
  | cons before b between ht =>
    have hjoined := Spaced.cons .empty a ⟨⟨[c], List.forall_mem_singleton.2 hc⟩, by simp⟩
      (.cons before b between ht)
    simpa [Gap.empty] using hjoined

/-- What has been split: the items, of which only the last may leave a literal open, and the
blanks around them. -/
structure Split (t : List Char) (args : List (List Char)) : Prop where
  spaced : Spaced args t
  items : ∀ a ∈ args, Item a
  closed : ∀ a ∈ args.dropLast, run .outside a = .outside

/-- The characters `t` of an item that has begun, and the rest `u` of the text. -/
theorem split_of_argumentsFrom {d : Nat} (ht : Unbroken t)
    (hd : openAfter? 0 (mark .outside t) = some d)
    (h : argumentsFrom d t.reverse (mark (run .outside t) u) = .ok args) :
    Split (t ++ u) args := by
  induction u generalizing t d args with
  | nil =>
    rw [mark, argumentsFrom] at h
    split at h
    · cases h
    · next hzero =>
      obtain rfl : d = 0 := by omega
      obtain rfl := Except.ok.inj h
      by_cases hne : t = []
      · subst hne
        exact ⟨.blank .empty, by simp [Text.finished], by simp [Text.finished]⟩
      · have hfinished : Text.finished t.reverse = [t] := by simp [Text.finished, hne]
        have hspaced := Spaced.last .empty t .empty
        rw [hfinished]
        exact ⟨by simpa [Gap.empty] using hspaced,
          List.forall_mem_singleton.2 ⟨hne, Text.paired_iff.2 hd, ht⟩, by simp⟩
  | cons c u ih =>
    rw [mark] at h
    by_cases hsep : ((run .outside t).isOutside && Text.isBlank c && decide (d = 0)) = true
    · -- a separator: the item ends, and the rest is split on its own
      simp only [Bool.and_eq_true, decide_eq_true_eq] at hsep
      obtain ⟨⟨houtside, hc⟩, rfl⟩ := hsep
      have hrun := Quoted.State.eq_outside houtside
      rw [hrun, Quoted.next_plain (Text.not_quote_of_blank hc)] at h
      rw [show Quoted.State.outside.isOutside = true from rfl, Text.argumentsFrom_blank hc] at h
      obtain ⟨more, hmore, rfl⟩ := map_eq_ok.1 h
      have hrest : Split u more := ih (t := []) .nil rfl hmore
      by_cases hne : t = []
      · subst hne
        exact ⟨hrest.spaced.cons_blank hc, hrest.items, hrest.closed⟩
      · have hfinished : Text.finished t.reverse ++ more = t :: more := by
          simp [Text.finished, hne]
        rw [hfinished]
        refine ⟨hrest.spaced.cons_item hc t,
          List.forall_mem_cons.2 ⟨⟨hne, Text.paired_iff.2 hd, ht⟩, hrest.items⟩, ?_⟩
        intro a ha
        cases more with
        | nil => cases ha
        | cons b more =>
          rcases List.mem_cons.1 ha with rfl | ha
          · exact hrun
          · exact hrest.closed a ha
    · -- a character of the item
      have hjoins := Bool.eq_false_iff.2 hsep
      cases hnext : nextOpen? d (c, (run .outside t).isOutside) with
      | none =>
        rw [Text.argumentsFrom_closing hnext] at h
        cases h
      | some next =>
        rw [Text.argumentsFrom_cons hnext hjoins] at h
        have hread := openAfter?_concat hd hnext
        have hbroken : Unbroken (t ++ [c]) := by
          refine ht.concat fun hc hrun hzero => hsep ?_
          rw [hd] at hzero
          simp [hrun, hc, Option.some.inj hzero, Quoted.State.isOutside]
        have happend : t ++ c :: u = (t ++ [c]) ++ u := by simp
        rw [happend]
        refine ih hbroken hread ?_
        simpa using h

theorem splitArguments_eq_ok {t : List Char} :
    splitArguments t = .ok args ↔ Text.arguments t = .ok args := by
  rw [splitArguments]
  cases Text.arguments t with
  | error e => simp [Except.mapError]
  | ok args' => simp [Except.mapError]

/-- Reading the characters of a list comes to an end exactly if it closes all parentheses. -/
theorem exists_argumentsFrom_iff {d : Nat} (current : List Char) {t : List Marked} :
    (∃ args, argumentsFrom d current t = .ok args) ↔ openAfter? d t = some 0 := by
  induction t generalizing d current with
  | nil =>
    rw [argumentsFrom, Text.openAfter?, List.foldlM_nil]
    by_cases hd : 0 < d
    · rw [if_pos hd]
      constructor
      · rintro ⟨args, ⟨⟩⟩
      · intro h
        obtain rfl := Option.some.inj h
        exact absurd hd (lt_irrefl 0)
    · rw [if_neg hd, Nat.eq_zero_of_not_pos hd]
      exact ⟨fun _ => rfl, fun _ => ⟨_, rfl⟩⟩
  | cons m t ih =>
    obtain ⟨c, outside⟩ := m
    rw [Text.openAfter?_cons]
    by_cases hsep : (outside && Text.isBlank c && decide (d = 0)) = true
    · -- a separator is no parenthesis
      simp only [Bool.and_eq_true, decide_eq_true_eq] at hsep
      obtain ⟨⟨rfl, hc⟩, rfl⟩ := hsep
      obtain ⟨hopen, hclose⟩ := Text.ne_parenthesis_of_blank hc
      rw [Text.argumentsFrom_blank hc, Text.nextOpen?_other (by simpa using hopen)
        (by simpa using hclose), Option.bind_some, ← ih []]
      constructor
      · rintro ⟨args, h⟩
        obtain ⟨more, hmore, -⟩ := map_eq_ok.1 h
        exact ⟨more, hmore⟩
      · rintro ⟨more, hmore⟩
        exact ⟨_, map_eq_ok.2 ⟨more, hmore, rfl⟩⟩
    · cases hnext : nextOpen? d (c, outside) with
      | none =>
        rw [Text.argumentsFrom_closing hnext]
        constructor
        · rintro ⟨args, ⟨⟩⟩
        · rintro ⟨⟩
      | some next =>
        rw [Text.argumentsFrom_cons hnext (Bool.eq_false_iff.2 hsep)]
        exact ih _

/-- A text is not split exactly if its parentheses are not paired. -/
theorem splitArguments_fails_iff {t : List Char} :
    (∃ c, splitArguments t = .error c) ↔ ¬ Paired (mark .outside t) := by
  rw [Text.paired_iff, ← exists_argumentsFrom_iff [], splitArguments, Text.arguments]
  cases argumentsFrom 0 [] (mark .outside t) with
  | error e =>
    constructor
    · rintro - ⟨args, ⟨⟩⟩
    · exact fun _ => ⟨_, rfl⟩
  | ok args =>
    constructor
    · rintro ⟨c, ⟨⟩⟩
    · exact fun h => absurd ⟨args, rfl⟩ h

/-- **Splitting arguments inverts joining them.** Items that leave no literal open are split as
they were joined, whatever blanks stand between and around them. And whatever is split consists
of the arguments and of blanks around and between them, and the arguments are items, of which
only the last may leave a literal open. -/
theorem splitArguments_inverts_joining (t : List Char) (args : List (List Char)) :
    (Spaced args t → (∀ a ∈ args, Item a ∧ run .outside a = .outside) →
        splitArguments t = .ok args) ∧
      (splitArguments t = .ok args → Spaced args t ∧ (∀ a ∈ args, Item a) ∧
        ∀ a ∈ args.dropLast, run .outside a = .outside) := by
  rw [splitArguments_eq_ok]
  constructor
  · intro hspaced hargs
    exact hspaced.arguments_eq fun a ha => (hargs a ha).1.argument (hargs a ha).2
  · intro h
    obtain ⟨hspaced, hitems, hclosed⟩ := split_of_argumentsFrom (t := []) .nil rfl h
    exact ⟨hspaced, hitems, hclosed⟩

/-- Two arguments with a group, literals and blanks in them: the blank between the two is the
one after the group. -/
theorem split_joined_literals :
    splitArguments " \x22a (\x22(b 'c) d')  e( f )`g h`".toList =
      .ok ["\x22a (\x22(b 'c) d')".toList, "e( f )`g h`".toList] := by
  have hspaced : Spaced ["\x22a (\x22(b 'c) d')".toList, "e( f )`g h`".toList]
      " \x22a (\x22(b 'c) d')  e( f )`g h`".toList :=
    .cons Blanks.space.toGap _ Blanks.space (.last Blanks.space.toGap _ .empty)
  exact (splitArguments_inverts_joining _ _).1 hspaced (by decide)

end Expr

end LineScript
