import LineScript.Proofs.Expr.Flat

/-!
# The value of a formula's text

- `Formula.ReadAs`, `Formula.readAs_of_legible`: reading the text of a formula puts
  a placeholder in place of every group, and the values of the groups into the slots.
- `groupValue_eq`: a group that is one literal needs no case of its own.
- `evaluate_of_tight`, `evaluate_padded`: neither does an expression; blanks around it change
  nothing.
- `evaluate_formula`: the text of a formula has the value of the formula.
-/

namespace LineScript

namespace Expr

open Quoted (mark)

variable (lookup : Lookup)

/-! ### Reading a text -/

/-- Without parentheses the characters are read one after the other. -/
theorem readings_ungrouped {t : List Marked} (h : ∀ m ∈ t, Marked.groups m = false)
    (r : Reading) :
    t.foldlM (Reading.step lookup) r =
      .ok { r with current := (plain t).reverse ++ r.current } := by
  induction t generalizing r with
  | nil => rfl
  | cons m t ih =>
    have hm := h m (by simp)
    have hstep : r.step lookup m = .ok { r with current := m.1 :: r.current } := by
      simp only [Marked.groups] at hm
      rw [Reading.step]
      grind
    rw [List.foldlM_cons, hstep]
    show t.foldlM (Reading.step lookup) { r with current := m.1 :: r.current } = _
    rw [ih fun n hn => h n (by simp [hn])]
    simp [plain]

theorem ungrouped_of_blank {gap : List Char} (h : ∀ c ∈ gap, Text.isBlank c = true) :
    ∀ m ∈ mark .outside gap, Marked.groups m = false := by
  intro m hm
  rw [mark_of_blank h] at hm
  obtain ⟨c, hc, rfl⟩ := List.mem_map.1 hm
  exact not_groups_of_blank (h c hc)

theorem Infix.ungrouped_text (o : Infix) :
    ∀ m ∈ mark .outside o.text, Marked.groups m = false := by
  have hplain := isPlain_of_token o.denotes
  have hrun : Quoted.run .outside (o.before.text ++ o.token) = .outside := by
    rw [Quoted.run_append, run_of_blank o.before.blank, run_of_plain hplain]
  intro m hm
  rw [text, Quoted.mark_append_of_outside hrun,
    Quoted.mark_append_of_outside (run_of_blank o.before.blank)] at hm
  rcases List.mem_append.1 hm with hm | hm
  · rcases List.mem_append.1 hm with hm | hm
    · exact ungrouped_of_blank o.before.blank m hm
    · exact ungrouped_of_plain hplain m hm
  · exact ungrouped_of_blank o.after.blank m hm

theorem Sign.isQuote_text {sign : Option Sign} {c : Char} (h : c ∈ text sign) :
    Quoted.isQuote c = false := by
  cases sign with
  | none => cases h
  | some sign => cases sign <;> obtain rfl := List.mem_singleton.1 h <;> decide

/-! ### Literals -/

theorem Formula.legible_literal {k : Nat} {q : Char} {s : List Char}
    (hq : Quoted.isQuote q = true) (hs : Quoted.Closed q s) :
    (Formula.atom (k := k) .none (.string q s hq hs)).Legible := by
  intro h
  obtain rfl : q = '!' := (List.cons.inj h).1
  exact absurd hq (by decide)

/-- The value of a text that is one literal. -/
theorem flatValue_literal (slots : Slots) {t s : List Char} (h : Quoted.literal? t = some s) :
    flatValue lookup slots t = .ok (.string (String.ofList s)) := by
  obtain ⟨q, hq, hs, rfl⟩ := Quoted.literal?_eq_some_iff.1 h
  have hslots : slots.toList =
      [] ++ (Formula.atom (k := 0) .none (.string q s hq hs)).slotValues lookup ++ slots.toList :=
    rfl
  exact Formula.flatValue_flat lookup (Formula.legible_literal hq hs) hslots

/-- A group that is one literal needs no case of its own. -/
theorem groupValue_eq (slots : Slots) (content : List Char) :
    groupValue lookup slots content = flatValue lookup slots (Text.trim content) := by
  simp only [groupValue]
  cases h : Quoted.literal? (Text.trim content) with
  | none => rfl
  | some s => rw [flatValue_literal lookup slots h]

/-! ### Reading a formula -/

namespace Formula

variable {k : Nat}

theorem isQuote_sign {negations : Negations} {sign : Option Sign} {c : Char}
    (h : c ∈ negations.text ++ Sign.text sign) : Quoted.isQuote c = false := by
  rcases List.mem_append.1 h with h | h
  · exact Negations.isQuote_text h
  · exact Sign.isQuote_text h

theorem isQuote_opening {negations : Negations} {sign : Option Sign} {before : Gap} {c : Char}
    (h : c ∈ negations.text ++ Sign.text sign ++ '(' :: before.text) :
    Quoted.isQuote c = false := by
  rcases List.mem_append.1 h with h | h
  · exact isQuote_sign h
  · rcases List.mem_cons.1 h with rfl | h
    · decide
    · exact Text.not_quote_of_blank (before.blank c h)

/-- A formula leaves no literal open. -/
theorem run_text {e : Formula k} (h : e.Legible) : Quoted.run .outside e.text = .outside := by
  induction e with
  | atom negations a => exact (isOperand_atom negations a h).outside
  | group negations sign before inner after ih =>
    rw [text, Quoted.run_append, Quoted.run_append, Quoted.run_append,
      Quoted.run_plain fun _ => isQuote_opening, ih h, run_of_blank after.blank]
    rfl
  | binary o tier l r ihl ihr =>
    rw [text, Quoted.run_append, Quoted.run_append, ihl h.1, o.run_text, ihr h.2]

/-- Closing the group of a formula gives the formula's value. -/
theorem close_group {inner : Formula 0} (h : inner.Legible) {slots : Slots} {start : List Value}
    (hslots : slots.toList = start ++ inner.slotValues lookup) (before after : Gap)
    (current : List Char) (opened : List (List Char)) :
    Reading.close lookup
        ⟨(before.text ++ inner.flat start.length ++ after.text).reverse, current :: opened, slots⟩ =
      unlessUndefined (inner.plainUndefined lookup)
        ⟨(placeholder slots.size).reverse ++ current, opened,
          slots.push (inner.value lookup)⟩ := by
  have htight := tight_flat h start.length
  have hne : (inner.flat start.length).isEmpty = false := by simpa using htight.ne_nil
  have hslots' : slots.toList = start ++ inner.slotValues lookup ++ [] := by
    rw [hslots, List.append_nil]
  have hvalue := flatValue_flat lookup h hslots'
  simp only [Reading.close, List.reverse_reverse]
  rw [groupValue_eq, htight.trim_padded before.blank after.blank, hne, hvalue]
  exact unlessUndefined_map _ _ _

theorem mark_group (negations : Negations) (sign : Option Sign) (before : Gap)
    {inner : Formula 0} (h : inner.Legible) (after : Gap) :
    mark .outside (group (k := k) negations sign before inner after).text =
      mark .outside (negations.text ++ Sign.text sign) ++ ('(', true) ::
        (mark .outside before.text ++
          (mark .outside inner.text ++ (mark .outside after.text ++ [(')', true)]))) := by
  have htext : (group (k := k) negations sign before inner after).text =
      (negations.text ++ Sign.text sign) ++ '(' ::
        (before.text ++ (inner.text ++ (after.text ++ [')']))) := by
    simp [text]
  rw [htext, Quoted.mark_append_of_outside (Quoted.run_plain fun _ => isQuote_sign),
    Quoted.mark_cons_plain (by decide), Quoted.mark_append_of_outside (run_of_blank before.blank),
    Quoted.mark_append_of_outside (run_text h),
    Quoted.mark_append_of_outside (run_of_blank after.blank), Quoted.mark_cons_plain (by decide)]
  rfl

theorem ungrouped_sign (negations : Negations) (sign : Option Sign) :
    ∀ m ∈ mark .outside (negations.text ++ Sign.text sign), Marked.groups m = false := by
  intro m hm
  rw [Quoted.mark_plain fun _ => isQuote_sign] at hm
  obtain ⟨c, hc, rfl⟩ := List.mem_map.1 hm
  rcases List.mem_append.1 hc with hc | hc
  · rcases Negations.mem_text hc with rfl | hblank
    · decide
    · exact not_groups_of_blank hblank
  · cases sign with
    | none => cases hc
    | some sign => cases sign <;> obtain rfl := List.mem_singleton.1 hc <;> decide

/-- Reading the text of `e` puts a placeholder in place of every group, and the
values of the groups into the slots. The state before is arbitrary, as a formula
may stand in open groups and after closed ones. -/
def ReadAs (e : Formula k) : Prop :=
  ∀ r : Reading, (mark .outside e.text).foldlM (Reading.step lookup) r =
    unlessUndefined (e.groupUndefined lookup)
      ⟨(e.flat r.slots.size).reverse ++ r.current, r.opened,
        r.slots ++ (e.slotValues lookup).toArray⟩

theorem readAs_group (negations : Negations) (sign : Option Sign) (before : Gap)
    {inner : Formula 0} (h : inner.Legible) (hinner : ReadAs lookup inner) (after : Gap) :
    ReadAs lookup (group (k := k) negations sign before inner after) := by
  intro r
  rw [mark_group negations sign before h after, List.foldlM_append,
    readings_ungrouped lookup (ungrouped_sign negations sign), plain, Quoted.map_fst_mark]
  let current := (negations.text ++ Sign.text sign).reverse ++ r.current
  -- the opening parenthesis starts a text of its own
  show (('(', true) :: _).foldlM (Reading.step lookup) ⟨current, r.opened, r.slots⟩ = _
  rw [List.foldlM_cons]
  show List.foldlM (Reading.step lookup) ⟨[], current :: r.opened, r.slots⟩ _ = _
  rw [List.foldlM_append, readings_ungrouped lookup (ungrouped_of_blank before.blank), plain,
    Quoted.map_fst_mark]
  show List.foldlM (Reading.step lookup)
    ⟨before.text.reverse ++ [], current :: r.opened, r.slots⟩ _ = _
  rw [List.foldlM_append, hinner]
  refine unlessUndefined_bind ?_
  rw [List.foldlM_append, readings_ungrouped lookup (ungrouped_of_blank after.blank), plain,
    Quoted.map_fst_mark]
  -- the closing one gives its value to the next slot
  let slots := r.slots ++ (inner.slotValues lookup).toArray
  have hslots : slots.toList = r.slots.toList ++ inner.slotValues lookup := by simp [slots]
  have hclose := close_group lookup h hslots before after current r.opened
  have hcontent : after.text.reverse ++ ((inner.flat r.slots.size).reverse ++
      (before.text.reverse ++ [])) =
      (before.text ++ inner.flat r.slots.toList.length ++ after.text).reverse := by simp
  show (Reading.close lookup ⟨_, current :: r.opened, slots⟩ >>= pure) = _
  rw [bind_pure, hcontent, hclose]
  simp [slots, current, flat, slotValues, length_slotValues]

theorem readAs_binary (o : Infix) (tier : k ≤ o.op.tier) {l : Formula o.op.tier}
    {r : Formula (o.op.tier + 1)} (hlegible : l.Legible) (hl : ReadAs lookup l)
    (hr : ReadAs lookup r) : ReadAs lookup (binary o tier l r) := by
  intro reading
  have hrun : Quoted.run .outside (l.text ++ o.text) = .outside := by
    rw [Quoted.run_append, run_text hlegible, o.run_text]
  rw [text, Quoted.mark_append_of_outside hrun, Quoted.mark_append_of_outside (run_text hlegible),
    List.foldlM_append, List.foldlM_append, hl, bind_assoc]
  refine unlessUndefined_bind ?_
  -- the groups on the right are numbered after those on the left
  rw [readings_ungrouped lookup o.ungrouped_text, plain, Quoted.map_fst_mark]
  show List.foldlM (Reading.step lookup) ⟨_, _, _⟩ _ = _
  rw [hr]
  simp [flat, slotValues, length_slotValues]

theorem readAs_of_legible {e : Formula k} (h : e.Legible) : ReadAs lookup e := by
  induction e with
  | atom negations a =>
    intro r
    rw [text, readings_ungrouped lookup (isOperand_atom negations a h).ungrouped]
    simp [groupUndefined, unlessUndefined, flat, slotValues, plain, Quoted.map_fst_mark]
  | group negations sign before inner after ih =>
    exact readAs_group lookup negations sign before h (ih h) after
  | binary o tier l r ihl ihr => exact readAs_binary lookup o tier h.1 (ihl h.1) (ihr h.2)

end Formula

/-! ### Expressions -/

/-- The text with its groups replaced, for a formula. -/
theorem substitute_text {e : Formula 0} (h : e.Legible) :
    substitute lookup e.text =
      unlessUndefined (e.groupUndefined lookup) (e.flat 0, (e.slotValues lookup).toArray) := by
  rw [substitute, Formula.readAs_of_legible lookup h]
  refine unlessUndefined_bind_ok ?_
  simp [Reading.start, pure, Except.pure]

/-- The text of a formula has no blank at either end. -/
theorem Formula.tight_text {k : Nat} {e : Formula k} (h : e.Legible) : Text.Tight e.text := by
  induction e with
  | atom negations a => exact (isOperand_atom negations a h).tight
  | group negations sign before inner after ih =>
    have hopen : Text.Tight ['('] := .singleton (by decide)
    have hclose : Text.Tight [')'] := .singleton (by decide)
    have hgroup := hopen.append hclose (before.text ++ inner.text ++ after.text)
    simpa [text] using negations.tight_text (Sign.tight_text sign hgroup)
  | binary o tier l r ihl ihr => exact (ihl h.1).append (ihr h.2) o.text

/-- Reading a formula's text and evaluating what is left of it. -/
theorem substitute_flatValue {e : Formula 0} (h : e.Legible) :
    (substitute lookup e.text >>= fun p => flatValue lookup p.2 p.1) =
      unlessUndefined (e.undefined lookup) (e.value lookup) := by
  have hslots : (e.slotValues lookup).toArray.toList = [] ++ e.slotValues lookup ++ [] := by simp
  rw [substitute_text lookup h]
  exact unlessUndefined_bind (Formula.flatValue_flat lookup h hslots)

/-- An expression without blanks at its ends is read and then evaluated, also if it is one
literal. -/
theorem evaluate_of_tight {t : List Char} (ht : Text.Tight t) :
    evaluate lookup (String.ofList t) =
      substitute lookup t >>= fun p => flatValue lookup p.2 p.1 := by
  have hne : t.isEmpty = false := by simpa using ht.ne_nil
  simp only [evaluate, String.toList_ofList]
  rw [ht.trim, hne]
  cases hliteral : Quoted.literal? t with
  | none => rfl
  | some s =>
    obtain ⟨q, hq, hs, rfl⟩ := Quoted.literal?_eq_some_iff.1 hliteral
    exact (substitute_flatValue lookup (Formula.legible_literal (k := 0) hq hs)).symm

/-- Blanks around an expression change nothing. -/
theorem evaluate_padded {t : List Char} (ht : Text.Tight t) (lead trail : Gap) :
    evaluate lookup (String.ofList (lead.text ++ t ++ trail.text)) =
      evaluate lookup (String.ofList t) := by
  simp only [evaluate, String.toList_ofList]
  rw [ht.trim_padded lead.blank trail.blank, ht.trim]

/-- **The text of a formula has the value of the formula**, whatever the values of
names are. If names in it have no value, the first that is reached is the error. -/
theorem evaluate_formula (e : Formula 0) (h : e.Legible) (lead trail : Gap) :
    evaluate lookup (String.ofList (lead.text ++ e.text ++ trail.text)) =
      unlessUndefined (e.undefined lookup) (e.value lookup) := by
  have htight := Formula.tight_text h
  rw [evaluate_padded lookup htight, evaluate_of_tight lookup htight]
  exact substitute_flatValue lookup h

/-- The formula `!(x || "a") && 'b'`. -/
def negatedChoice : Formula 0 :=
  .binary ⟨.and, ['&', '&'], rfl, .space, .space⟩ (Nat.zero_le _)
    (.group (.run 0 .empty) none .empty
      (.binary ⟨.or, ['|', '|'], rfl, .space, .space⟩ (Nat.zero_le _)
        (.atom .none (.name ['x']
          ⟨⟨by decide, List.all_eq_true.1 (by decide), by decide, by decide⟩, rfl, rfl, rfl⟩))
        (.atom .none (.string '\x22' ['a'] rfl (.plain (by decide) (by decide) .nil))))
      .empty)
    (.atom .none (.string '\x27' ['b'] rfl (.plain (by decide) (by decide) .nil)))

/-- With an empty text for `x` the group has the value of its second operand, which
is true; so the negation is false, and decides the conjunction. -/
theorem evaluate_negatedChoice :
    negatedChoice.Legible ∧
      evaluate (fun _ => some (.string "")) "!(x || \x22a\x22) && \x27b\x27" =
        .ok (.boolean false) :=
  ⟨by decide, evaluate_formula (fun _ => some (.string "")) negatedChoice (by decide) .empty .empty⟩

/-- The name `=` with a negation directly before it. -/
def negatedEqualsSign : Formula 0 :=
  .atom (.run 0 .empty)
    (.name ['=']
      ⟨⟨by decide, List.all_eq_true.1 (by decide), by decide, by decide⟩, rfl, rfl, rfl⟩)

/-- Without `Legible` the text may have another reading: a negation directly before
the name `=` is an operator without operands, although the name has a value. -/
theorem evaluate_negatedEqualsSign :
    unlessUndefined (negatedEqualsSign.undefined fun _ => some (.boolean true))
        (negatedEqualsSign.value fun _ => some (.boolean true)) = .ok (.boolean false) ∧
      evaluate (fun _ => some (.boolean true)) (String.ofList negatedEqualsSign.text) =
        .error (.malformedExpression "missing operand") :=
  ⟨rfl, rfl⟩

end Expr

end LineScript
