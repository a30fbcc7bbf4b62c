import LineScript.Proofs.Expr.Evaluation
import LineScript.Proofs.Expr.Values
import LineScript.Proofs.Text.Parentheses

/-!
# Redundant parentheses

What stands in parentheses is read as it would be on its own: the characters before it wait,
and its groups get the same slots. At the closing parenthesis its value takes the next slot,
and the placeholder of that slot has this value.

- `Reading.onto`: a reading on top of another one.
- `readings_onto`: a text that closes no parenthesis of others is read alike on top of any
  reading.
- `Reading.Begun`: a reading whose outermost text starts with no blank.
- `evaluate_group`: a group has the value of its content.
- `evaluate_parenthesised`: parentheses around an expression change nothing.
-/

namespace LineScript

namespace Expr

open Quoted (mark)

variable (lookup : Lookup)

/-! ### Closing a group -/

/-- The value of a group with some content, which must not be blank. -/
def contentValue (slots : Slots) (content : List Char) : Except Cause Value :=
  if (Text.trim content).isEmpty then .error (.malformedExpression "empty parentheses")
  else groupValue lookup slots content

theorem close_eq (current before : List Char) (opened : List (List Char)) (slots : Slots) :
    Reading.close lookup ⟨current, before :: opened, slots⟩ =
      (contentValue lookup slots current.reverse).map fun v =>
        ⟨(placeholder slots.size).reverse ++ before, opened, slots.push v⟩ := by
  simp only [Reading.close, contentValue]
  split <;> rfl

/-! ### A reading on top of another one -/

/-- The texts of the open groups, the innermost first, with `base` before the text outside
all of them and the texts `outer` of further groups around that. -/
def groupsOnto (base : List Char) (outer : List (List Char)) :
    List Char → List (List Char) → List Char × List (List Char)
  | current, [] => (current ++ base, outer)
  | current, before :: opened =>
    (current, (groupsOnto base outer before opened).1 :: (groupsOnto base outer before opened).2)

/-- The reading with the characters `base` before it, inside groups with the texts `outer`. -/
def Reading.onto (base : List Char) (outer : List (List Char)) (r : Reading) : Reading :=
  ⟨(groupsOnto base outer r.current r.opened).1, (groupsOnto base outer r.current r.opened).2,
    r.slots⟩

section

variable {base : List Char} {outer : List (List Char)} {r r' : Reading} {m : Marked}

theorem groupsOnto_append (s current : List Char) (opened : List (List Char)) :
    groupsOnto base outer (s ++ current) opened =
      (s ++ (groupsOnto base outer current opened).1,
        (groupsOnto base outer current opened).2) := by
  cases opened with
  | nil => simp [groupsOnto]
  | cons before opened => rfl

/-- Reading a character opens or closes a group as the parentheses say. -/
theorem length_opened_step (h : r.step lookup m = .ok r') :
    Text.nextOpen? r.opened.length m = some r'.opened.length := by
  obtain ⟨current, opened, slots⟩ := r
  rw [Reading.step] at h
  rw [Text.nextOpen?]
  split at h
  · next hopen =>
    obtain rfl := Except.ok.inj h
    rw [if_pos hopen]
    rfl
  · next hopen =>
    rw [if_neg hopen]
    split at h
    · next hclose =>
      rw [if_pos hclose]
      cases opened with
      | nil => cases h
      | cons before opened =>
        rw [close_eq] at h
        obtain ⟨v, -, rfl⟩ := map_eq_ok.1 h
        simp
    · next hclose =>
      obtain rfl := Except.ok.inj h
      rw [if_neg hclose]

/-- What has been read decides how many groups are open. -/
theorem length_opened_of_readings {t : List Marked}
    (h : t.foldlM (Reading.step lookup) r = .ok r') :
    Text.openAfter? r.opened.length t = some r'.opened.length := by
  induction t generalizing r with
  | nil =>
    obtain rfl := Except.ok.inj h
    rfl
  | cons m t ih =>
    rw [List.foldlM_cons] at h
    obtain ⟨next, hnext, hrest⟩ := bind_eq_ok.1 h
    rw [Text.openAfter?_cons, length_opened_step lookup hnext]
    exact ih hrest

/-- A character that closes no group of others is read alike on top of any reading. -/
theorem step_onto (h : Text.nextOpen? r.opened.length m ≠ none) :
    (r.onto base outer).step lookup m = (r.step lookup m).map (Reading.onto base outer) := by
  obtain ⟨current, opened, slots⟩ := r
  rw [Reading.step, Reading.step]
  by_cases hopen : (m.2 && m.1 = '(') = true
  · rw [if_pos hopen, if_pos hopen]
    rfl
  · rw [if_neg hopen, if_neg hopen]
    by_cases hclose : (m.2 && m.1 = ')') = true
    · rw [if_pos hclose, if_pos hclose]
      cases opened with
      | nil => simp [Text.nextOpen?, hopen, hclose] at h
      | cons before opened =>
        -- the content of the innermost group is the same
        rw [close_eq, Reading.onto, groupsOnto, close_eq]
        cases contentValue lookup slots current.reverse with
        | error c => rfl
        | ok v => simp [Except.map, Reading.onto, groupsOnto_append]
    · rw [if_neg hclose, if_neg hclose]
      have hcons : groupsOnto base outer ([m.1] ++ current) opened = _ := groupsOnto_append _ _ _
      simp only [List.singleton_append] at hcons
      simp [Reading.onto, Except.map, hcons]

/-- A text that closes no group of others is read alike on top of any reading. -/
theorem readings_onto {t : List Marked} {d : Nat}
    (h : Text.openAfter? r.opened.length t = some d) :
    t.foldlM (Reading.step lookup) (r.onto base outer) =
      (t.foldlM (Reading.step lookup) r).map (Reading.onto base outer) := by
  induction t generalizing r with
  | nil => rfl
  | cons m t ih =>
    rw [Text.openAfter?_cons] at h
    have hm : Text.nextOpen? r.opened.length m ≠ none := by
      intro hnone
      rw [hnone] at h
      cases h
    rw [List.foldlM_cons, List.foldlM_cons, step_onto lookup hm]
    cases hstep : r.step lookup m with
    | error c => rfl
    | ok next =>
      rw [length_opened_step lookup hstep] at h
      exact ih h

end

/-! ### The ends of a text that has been read -/

/-- The characters outside all groups, given those of the innermost group and those before
each open parenthesis. -/
def outermost : List Char → List (List Char) → List Char
  | current, [] => current
  | _, before :: opened => outermost before opened

/-- A reading in which the text outside all groups starts with no blank. It is empty only
inside a group. -/
structure Reading.Begun (r : Reading) : Prop where
  nonempty : r.opened = [] → r.current ≠ []
  first : Text.startsBlank (outermost r.current r.opened).reverse = false

theorem startsBlank_placeholder (k : Nat) : Text.startsBlank (placeholder k) = false := rfl

theorem startsBlank_reverse_placeholder (k : Nat) (t : List Char) :
    Text.startsBlank ((placeholder k).reverse ++ t) = false := by
  simp [placeholder, Text.startsBlank]
  decide

theorem startsBlank_append_of {s t : List Char} (hs : Text.startsBlank s = false)
    (ht : Text.startsBlank t = false) : Text.startsBlank (s ++ t) = false := by
  cases s with
  | nil => exact ht
  | cons c s => exact hs

namespace Reading

variable {r r' : Reading} {m : Marked}

theorem Begun.step (hr : r.Begun) (h : r.step lookup m = .ok r') : r'.Begun := by
  obtain ⟨current, opened, slots⟩ := r
  obtain ⟨hne, hfirst⟩ := hr
  rw [Reading.step] at h
  split at h
  · -- the text outside all groups is the same
    obtain rfl := Except.ok.inj h
    exact ⟨by rintro ⟨⟩, hfirst⟩
  · split at h
    · cases opened with
      | nil => cases h
      | cons before opened =>
        rw [close_eq] at h
        obtain ⟨v, -, rfl⟩ := map_eq_ok.1 h
        cases opened with
        | nil =>
          have hbefore : Text.startsBlank before.reverse = false := hfirst
          refine ⟨fun _ => by simp [placeholder], ?_⟩
          rw [outermost, List.reverse_append, List.reverse_reverse]
          exact startsBlank_append_of hbefore (startsBlank_placeholder _)
        | cons outer opened => exact ⟨by rintro ⟨⟩, hfirst⟩
    · obtain rfl := Except.ok.inj h
      cases opened with
      | nil =>
        have hcurrent : Text.startsBlank current.reverse = false := hfirst
        refine ⟨fun _ => List.cons_ne_nil _ _, ?_⟩
        rw [outermost, List.reverse_cons, Text.startsBlank_append (by simpa using hne rfl)]
        exact hcurrent
      | cons before opened => exact ⟨by rintro ⟨⟩, hfirst⟩

theorem Begun.run {t : List Marked} (hr : r.Begun)
    (h : t.foldlM (Reading.step lookup) r = .ok r') : r'.Begun := by
  induction t generalizing r with
  | nil =>
    obtain rfl := Except.ok.inj h
    exact hr
  | cons m t ih =>
    rw [List.foldlM_cons] at h
    obtain ⟨next, hnext, hrest⟩ := bind_eq_ok.1 h
    exact ih (hr.step lookup hnext) hrest

/-- A first character that is no blank begins a reading. -/
theorem begun_first (hm : Text.isBlank m.1 = false) (h : start.step lookup m = .ok r) :
    r.Begun := by
  rw [Reading.step] at h
  split at h
  · obtain rfl := Except.ok.inj h
    exact ⟨by rintro ⟨⟩, rfl⟩
  · split at h
    · cases h
    · obtain rfl := Except.ok.inj h
      exact ⟨fun _ => List.cons_ne_nil _ _, hm⟩

/-- A last character that is no blank is the last one outside all groups, or the end of a
placeholder is. -/
theorem startsBlank_current (hm : Text.isBlank m.1 = false) (h : r.step lookup m = .ok r')
    (hopened : r'.opened = []) : Text.startsBlank r'.current = false := by
  obtain ⟨current, opened, slots⟩ := r
  rw [Reading.step] at h
  split at h
  · obtain rfl := Except.ok.inj h
    cases hopened
  · split at h
    · cases opened with
      | nil => cases h
      | cons before opened =>
        rw [close_eq] at h
        obtain ⟨v, -, rfl⟩ := map_eq_ok.1 h
        exact startsBlank_reverse_placeholder _ _
    · obtain rfl := Except.ok.inj h
      exact hm

end Reading

/-- Reading a text without blanks at its ends leaves none at the ends. -/
theorem tight_of_readings {t : List Char} (ht : Text.Tight t) {r : Reading}
    (h : (mark .outside t).foldlM (Reading.step lookup) Reading.start = .ok r)
    (hopened : r.opened = []) : Text.Tight r.current.reverse := by
  -- the first character begins the reading
  have hbegun : r.Begun := by
    obtain ⟨c, rest, rfl⟩ := List.exists_cons_of_ne_nil ht.ne_nil
    rw [mark, List.foldlM_cons] at h
    obtain ⟨next, hnext, hrest⟩ := bind_eq_ok.1 h
    have hc : Text.isBlank c = false := ht.first
    have hnextBegun : next.Begun := Reading.begun_first lookup (m := (c, _)) hc hnext
    exact hnextBegun.run lookup hrest
  have hfirst := hbegun.first
  rw [hopened, outermost] at hfirst
  refine ⟨by simpa using hbegun.nonempty hopened, hfirst, ?_⟩
  -- and the last one ends it
  rw [List.reverse_reverse]
  obtain ⟨rest, c, hrest⟩ := (List.eq_nil_or_concat t).resolve_left ht.ne_nil
  have hc : Text.isBlank c = false := by
    have hlast := ht.last
    rw [hrest, List.concat_eq_append, List.reverse_append] at hlast
    exact hlast
  rw [hrest, List.concat_eq_append, Quoted.mark_append, List.foldlM_append] at h
  obtain ⟨before, -, hstep⟩ := bind_eq_ok.1 h
  rw [mark, mark, List.foldlM_cons] at hstep
  obtain ⟨after, hafter, hend⟩ := bind_eq_ok.1 hstep
  obtain rfl := Except.ok.inj hend
  exact Reading.startsBlank_current lookup (m := (c, _)) hc hafter hopened

/-! ### The value of a group -/

theorem flatValue_placeholder {slots : Slots} {k : Nat} {v : Value} (hk : slots[k]? = some v) :
    flatValue lookup slots (placeholder k) = .ok v := by
  have hoperand : IsOperand (placeholder k) := Formula.isOperand_placeholder .none none k
  have hchain := Chain.ofText_operand hoperand (p := []) (q := []) (by simp) (by simp)
  rw [List.nil_append, List.append_nil] at hchain
  rw [flatValue_eq, hchain]
  exact operandValue_placeholder lookup slots .none none hk

/-- The opening parenthesis of a group and the blanks after it put its content on top of a
reading. -/
theorem readings_opening (before : Gap) (more : List Marked) :
    (('(', true) :: (mark .outside before.text ++ more)).foldlM (Reading.step lookup)
        Reading.start =
      more.foldlM (Reading.step lookup) (Reading.start.onto before.text.reverse [[]]) := by
  rw [List.foldlM_cons]
  show List.foldlM (Reading.step lookup) ⟨[], [[]], #[]⟩ (mark .outside before.text ++ more) = _
  rw [List.foldlM_append, readings_ungrouped lookup (ungrouped_of_blank before.blank), plain,
    Quoted.map_fst_mark, List.append_nil]
  rfl

/-- The blanks after a group's content and the closing parenthesis put the value of the
content into the next slot. -/
theorem readings_closing {content : List Char} (hcontent : Text.Tight content) (slots : Slots)
    (before after : Gap) :
    (mark .outside after.text ++ [(')', true)]).foldlM (Reading.step lookup)
        ⟨content.reverse ++ before.text.reverse, [[]], slots⟩ =
      (flatValue lookup slots content).map fun v =>
        ⟨(placeholder slots.size).reverse, [], slots.push v⟩ := by
  have hne : content.isEmpty = false := by simpa using hcontent.ne_nil
  have hvalue : contentValue lookup slots (before.text ++ content ++ after.text) =
      flatValue lookup slots content := by
    rw [contentValue, groupValue_eq, hcontent.trim_padded before.blank after.blank, hne]
    rfl
  rw [List.foldlM_append, readings_ungrouped lookup (ungrouped_of_blank after.blank), plain,
    Quoted.map_fst_mark]
  show (Reading.close lookup
    ⟨after.text.reverse ++ (content.reverse ++ before.text.reverse), [[]], slots⟩ >>= pure) = _
  have hreverse : (after.text.reverse ++ (content.reverse ++ before.text.reverse)).reverse =
      before.text ++ content ++ after.text := by simp
  rw [bind_pure, close_eq, hreverse, hvalue, List.append_nil]

/-- A group has the value of its content, and fails as its content does. -/
theorem evaluate_group {t : List Char} (ht : Text.Tight t) (hwhole : Text.Whole t)
    (before after : Gap) :
    evaluate lookup (String.ofList ('(' :: (before.text ++ t ++ after.text) ++ [')'])) =
      evaluate lookup (String.ofList t) := by
  have htight : Text.Tight ('(' :: (before.text ++ t ++ after.text) ++ [')']) := by
    have hopen : Text.Tight ['('] := .singleton (by decide)
    exact hopen.append (.singleton (by decide)) (before.text ++ t ++ after.text)
  have hmark : mark .outside ('(' :: (before.text ++ t ++ after.text) ++ [')']) =
      ('(', true) :: (mark .outside before.text ++
        (mark .outside t ++ (mark .outside after.text ++ [(')', true)]))) := by
    have hbefore := run_of_blank before.blank
    rw [List.cons_append, Quoted.mark_cons_plain (by decide), List.append_assoc, List.append_assoc,
      Quoted.mark_append_of_outside hbefore, Quoted.mark_append_of_outside hwhole.closed,
      Quoted.mark_append_of_outside (run_of_blank after.blank)]
    rfl
  have hbalanced : Text.openAfter? Reading.start.opened.length (mark .outside t) = some 0 :=
    hwhole.balanced
  rw [evaluate_of_tight lookup htight, evaluate_of_tight lookup ht, substitute, substitute, hmark,
    readings_opening, List.foldlM_append, readings_onto lookup hbalanced]
  cases hread : (mark .outside t).foldlM (Reading.step lookup) Reading.start with
  | error c => rfl
  | ok r =>
    -- no group of the content is left open
    have hopened : r.opened = [] := by
      have hlength := length_opened_of_readings lookup hread
      rw [hbalanced] at hlength
      exact List.length_eq_zero_iff.1 (Option.some.inj hlength).symm
    have hcontent := tight_of_readings lookup ht hread hopened
    obtain ⟨current, opened, slots⟩ := r
    obtain rfl : opened = [] := hopened
    have hclose := readings_closing lookup hcontent slots before after
    rw [List.reverse_reverse] at hclose
    show ((mark .outside after.text ++ [(')', true)]).foldlM (Reading.step lookup)
        ⟨current ++ before.text.reverse, [[]], slots⟩ >>= _) >>= _ =
      flatValue lookup slots current.reverse
    rw [hclose]
    cases hvalue : flatValue lookup slots current.reverse with
    | error c => rfl
    | ok v =>
      show flatValue lookup (slots.push v) (placeholder slots.size).reverse.reverse = _
      rw [List.reverse_reverse]
      exact flatValue_placeholder lookup (by simp)

/-! ### Blanks around an expression -/

theorem Gap.isPlain_text (gap : Gap) {c : Char} (hc : c ∈ gap.text) :
    Quoted.isQuote c = false ∧ c ≠ '(' ∧ c ≠ ')' := by
  have hblank := gap.blank c hc
  exact ⟨Text.not_quote_of_blank hblank, Text.ne_parenthesis_of_blank hblank⟩

theorem Gap.whole (gap : Gap) : Text.Whole gap.text :=
  .of_plain fun _ => gap.isPlain_text

/-- The blanks around a text, and the text between them. -/
theorem exists_gaps (t : List Char) :
    ∃ before after : Gap, t = before.text ++ Text.trim t ++ after.text := by
  obtain ⟨p, q, hp, hq, ht⟩ := Text.exists_padding t
  exact ⟨⟨p, hp⟩, ⟨q, hq⟩, ht⟩

theorem evaluate_trim (t : List Char) :
    evaluate lookup (String.ofList (Text.trim t)) = evaluate lookup (String.ofList t) := by
  simp only [evaluate, String.toList_ofList, Text.trim_trim]

/-- The blanks around a text open no literal and end none. -/
theorem run_trim {t : List Char} (h : Quoted.run .outside t = .outside) :
    Quoted.run .outside (Text.trim t) = .outside := by
  obtain ⟨before, after, ht⟩ := exists_gaps t
  rw [ht] at h
  have hstart := Quoted.run_outside_of_append (fun _ hc => (after.isPlain_text hc).1) h
  rwa [Quoted.run_append, run_of_blank before.blank] at hstart

theorem whole_trim {t : List Char} (h : Text.Whole t) : Text.Whole (Text.trim t) := by
  have hclosed := run_trim h.closed
  refine ⟨hclosed, ?_⟩
  obtain ⟨before, after, ht⟩ := exists_gaps t
  have hbalanced := h.balanced
  rw [ht, List.append_assoc, Quoted.mark_append_of_outside before.whole.closed,
    Quoted.mark_append_of_outside hclosed, Text.openAfter?_append, before.whole.balanced,
    Option.bind_some, Text.openAfter?_append] at hbalanced
  -- the blanks after the text leave open what it leaves open
  obtain ⟨d, hd, hafter⟩ := Option.bind_eq_some_iff.1 hbalanced
  rw [after.whole.openAfter?_eq] at hafter
  rwa [Option.some.inj hafter] at hd

theorem whole_of_trim {t : List Char} (h : Text.Whole (Text.trim t)) : Text.Whole t := by
  obtain ⟨before, after, ht⟩ := exists_gaps t
  rw [ht]
  exact (before.whole.append h).append after.whole

/-- An expression that has a value closes its parentheses. -/
theorem whole_of_evaluate {t : List Char} {v : Value} (ht : Text.Tight t)
    (hclosed : Quoted.run .outside t = .outside)
    (h : evaluate lookup (String.ofList t) = .ok v) : Text.Whole t := by
  refine ⟨hclosed, ?_⟩
  rw [evaluate_of_tight lookup ht] at h
  obtain ⟨⟨flat, slots⟩, hread, -⟩ := bind_eq_ok.1 h
  obtain ⟨r, hr, hend⟩ := bind_eq_ok.1 hread
  split at hend
  · next hopened =>
    have hlength := length_opened_of_readings lookup hr
    rw [List.isEmpty_iff.1 hopened] at hlength
    exact hlength
  · cases hend

/-! ### Pairs of parentheses -/

/-- A pair of parentheses, with the blanks before, inside and after it. -/
structure Pair where
  before : Gap
  opening : Gap
  closing : Gap
  after : Gap

namespace Pair

/-- A text in a pair of parentheses. -/
def around (p : Pair) (t : List Char) : List Char :=
  p.before.text ++ ('(' :: (p.opening.text ++ t ++ p.closing.text) ++ [')']) ++ p.after.text

variable (p : Pair) {t : List Char}

theorem tight_around (t : List Char) :
    Text.Tight ('(' :: (p.opening.text ++ t ++ p.closing.text) ++ [')']) := by
  have hopen : Text.Tight ['('] := .singleton (by decide)
  exact hopen.append (.singleton (by decide)) (p.opening.text ++ t ++ p.closing.text)

theorem trim_around (t : List Char) :
    Text.trim (p.around t) = '(' :: (p.opening.text ++ t ++ p.closing.text) ++ [')'] :=
  (p.tight_around t).trim_padded p.before.blank p.after.blank

theorem whole_around (h : Text.Whole t) : Text.Whole (p.around t) := by
  have hinner := (p.opening.whole.append h).append p.closing.whole
  exact (p.before.whole.append hinner.group).append p.after.whole

/-- A pair of parentheses around an expression does not change it. -/
theorem evaluate_around (h : Text.Whole t) (hne : Text.trim t ≠ []) :
    evaluate lookup (String.ofList (p.around t)) = evaluate lookup (String.ofList t) := by
  obtain ⟨before, after, ht⟩ := exists_gaps t
  -- the blanks around the expression belong to those inside the parentheses
  let opening : Gap := ⟨p.opening.text ++ before.text,
    List.forall_mem_append.2 ⟨p.opening.blank, before.blank⟩⟩
  let closing : Gap := ⟨after.text ++ p.closing.text,
    List.forall_mem_append.2 ⟨after.blank, p.closing.blank⟩⟩
  have hinner : p.opening.text ++ t ++ p.closing.text =
      opening.text ++ Text.trim t ++ closing.text := by
    conv_lhs => rw [ht]
    simp [opening, closing]
  rw [← evaluate_trim, p.trim_around, hinner,
    evaluate_group lookup (.of_trim hne) (whole_trim h), evaluate_trim]

/-- Pairs of parentheses around an expression do not change it. -/
theorem evaluate_foldr_around (h : Text.Whole t) (hne : Text.trim t ≠ []) (pairs : List Pair) :
    evaluate lookup (String.ofList (pairs.foldr around t)) =
      evaluate lookup (String.ofList t) := by
  suffices hall : Text.Whole (pairs.foldr around t) ∧ Text.trim (pairs.foldr around t) ≠ [] ∧
      evaluate lookup (String.ofList (pairs.foldr around t)) =
        evaluate lookup (String.ofList t) from hall.2.2
  -- what stands in parentheses can itself stand in parentheses
  induction pairs with
  | nil => exact ⟨h, hne, rfl⟩
  | cons p pairs ih =>
    obtain ⟨hwhole, hnonblank, heq⟩ := ih
    refine ⟨p.whole_around hwhole, ?_, ?_⟩
    · rw [List.foldr_cons, p.trim_around]
      exact (p.tight_around _).ne_nil
    · rw [List.foldr_cons, p.evaluate_around lookup hwhole hnonblank, heq]

end Pair

/-- **Redundant parentheses change nothing.** An expression that leaves no literal open has
the same value in any number of pairs of parentheses, with any blanks around and inside them,
and if its parentheses are balanced and it is not blank it fails with the same error. -/
theorem evaluate_parenthesised {e : List Char} (hclosed : Quoted.run .outside e = .outside)
    (pairs : List Pair) :
    (∀ v, evaluate lookup (String.ofList e) = .ok v →
      evaluate lookup (String.ofList (pairs.foldr Pair.around e)) = .ok v) ∧
    (∀ c, Text.trim e ≠ [] → Text.openAfter? 0 (mark .outside e) = some 0 →
      evaluate lookup (String.ofList e) = .error c →
      evaluate lookup (String.ofList (pairs.foldr Pair.around e)) = .error c) := by
  constructor
  · intro v hv
    have hne : Text.trim e ≠ [] := by
      intro hempty
      rw [← evaluate_trim, hempty] at hv
      cases hv
    have hwhole : Text.Whole (Text.trim e) := by
      rw [← evaluate_trim] at hv
      exact whole_of_evaluate lookup (.of_trim hne) (run_trim hclosed) hv
    rw [Pair.evaluate_foldr_around lookup (whole_of_trim hwhole) hne, hv]
  · intro c hne hbalanced hc
    rw [Pair.evaluate_foldr_around lookup ⟨hclosed, hbalanced⟩ hne, hc]

/-- A pair of parentheses with a space before it and one before the closing parenthesis. -/
def Pair.spaced : Pair :=
  ⟨Blanks.space.toGap, .empty, Blanks.space.toGap, .empty⟩

/-- An expression with a parenthesis in a literal and one with an error behind a group, each
in two pairs of parentheses. -/
theorem evaluate_parenthesised_twice :
    Quoted.run .outside "\x22(\x22 + (true)".toList = .outside ∧
      evaluate (fun _ => none) "\x22(\x22 + (true)" = .ok (.string "(true") ∧
      evaluate (fun _ => none) " ( (\x22(\x22 + (true) ) )" = .ok (.string "(true") ∧
      Quoted.run .outside "nope(true)".toList = .outside ∧
      Text.trim "nope(true)".toList ≠ [] ∧
      Text.openAfter? 0 (mark .outside "nope(true)".toList) = some 0 ∧
      evaluate (fun _ => none) "nope(true)" = .error (.undefinedVariable "nope(true)") ∧
      evaluate (fun _ => none) " ( (nope(true) ) )" =
        .error (.undefinedVariable "nope(true)") := by
  have hsum : evaluate (fun _ => none) "\x22(\x22 + (true)" = .ok (.string "(true") := rfl
  have hfails : evaluate (fun _ => none) "nope(true)" =
      .error (.undefinedVariable "nope(true)") := rfl
  refine ⟨rfl, hsum, ?_, rfl, by decide, by decide, hfails, ?_⟩
  · exact (evaluate_parenthesised (fun _ => none) (e := "\x22(\x22 + (true)".toList) rfl
      [.spaced, .spaced]).1 _ hsum
  · exact (evaluate_parenthesised (fun _ => none) (e := "nope(true)".toList) rfl
      [.spaced, .spaced]).2 _ (by decide) (by decide) hfails

end Expr

end LineScript
