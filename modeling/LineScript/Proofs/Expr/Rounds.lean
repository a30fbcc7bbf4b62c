import LineScript.Proofs.Expr.Characters
import LineScript.Proofs.Expr.Failures
import LineScript.Proofs.Expr.FirstGroup
import LineScript.Proofs.Expr.Groups
import LineScript.Proofs.Expr.Splitting

/-!
# Groups replaced one by one

A text is read once, with a stack of open groups. The same comes out when its groups are
replaced in rounds: each round looks for the first group that is closed, evaluates its content
as an expression, puts a placeholder in its place, and starts again from the beginning of the
text.

- `evaluateFrom`, `round`, `Rounds`: one round, and the rounds that have been made.
- `Rounds.openings_eq`, `Rounds.paired_iff`: a round takes one opening parenthesis away, and keeps
  the pairing of the others.
- `readings_rounds`: the reading that has come to some place has made the rounds up to there.
- `substitute_eq_ok`, `substitute_eq_error`: the rounds end with what the reading gives.
- `substitute_in_rounds`: the rounds end, and find the unbalanced texts.
-/

namespace LineScript

namespace Expr

open Quoted (mark run)
open Text (openAfter? nextOpen? Paired)

variable {s t : List Char}

/-! ### One round -/

section

variable (lookup : Lookup)

/-- The text with a placeholder for every group, after some groups have got their slots. -/
def substituteFrom (slots : Slots) (t : List Char) : Except Cause (List Char × Slots) := do
  let r ← (mark .outside t).foldlM (Reading.step lookup) ⟨[], [], slots⟩
  if r.opened.isEmpty then return (r.current.reverse, r.slots)
  else throw (.malformedExpression "unbalanced `(`")

/-- The value of an expression, after some groups have got their slots. -/
def evaluateFrom (slots : Slots) (text : List Char) : Except Cause Value :=
  let t := Text.trim text
  if t.isEmpty then .error (.malformedExpression "empty expression")
  else
    match Quoted.literal? t with
    | some s => .ok (.string (String.ofList s))
    | none => do
      let (flat, slots) ← substituteFrom lookup slots t
      flatValue lookup slots flat

/-- The text with the placeholder of slot `k` in place of the group. -/
def Group.replaced (g : Group) (k : Nat) : List Char :=
  g.before ++ placeholder k ++ g.after

/-- Replace the first group of a text. `none` when the text has no groups. -/
def round (p : List Char × Slots) : Except Cause (Option (List Char × Slots)) :=
  match firstGroup? p.1 with
  | .error c => .error c
  | .ok none => .ok none
  | .ok (some g) =>
    if (Text.trim g.content).isEmpty then .error (.malformedExpression "empty parentheses")
    else (evaluateFrom lookup p.2 g.content).map fun v =>
      some (g.replaced p.2.size, p.2.push v)

/-- From a text and its slots to another one, in a number of rounds. -/
inductive Rounds : Nat → List Char × Slots → List Char × Slots → Prop where
  | refl (p : List Char × Slots) : Rounds 0 p p
  | head {n : Nat} {p q r : List Char × Slots} (h : round lookup p = .ok (some q))
      (hrest : Rounds n q r) : Rounds (n + 1) p r

/-- A text without parentheses has no groups to replace. -/
theorem substituteFrom_ungrouped (h : Ungrouped t) (slots : Slots) :
    substituteFrom lookup slots t = .ok (t, slots) := by
  rw [substituteFrom, readings_ungrouped lookup (ungrouped_iff.1 h), plain, Quoted.map_fst_mark,
    List.append_nil]
  show Except.ok (t.reverse.reverse, slots) = _
  rw [List.reverse_reverse]

/-- The content of a group is evaluated as it stands, without its blanks. -/
theorem evaluateFrom_ungrouped (h : Ungrouped t) (slots : Slots) :
    (if (Text.trim t).isEmpty then .error (.malformedExpression "empty parentheses")
      else evaluateFrom lookup slots t) = contentValue lookup slots t := by
  have htrim := substituteFrom_ungrouped lookup (h.of_subset (mark_trim_subset t)) slots
  rw [contentValue]
  split
  · rfl
  · next hne =>
    simp only [evaluateFrom, if_neg hne, groupValue, htrim]
    rfl

variable {p q : List Char × Slots}

/-- A round does what the search finds. -/
theorem round_located {r : Except Cause (Option Group)} (h : Located t r) (slots : Slots) :
    round lookup (t, slots) = r >>= fun found => found.elim (.ok none) fun g =>
      (contentValue lookup slots g.content).map fun v =>
        some (g.replaced slots.size, slots.push v) := by
  simp only [round, h.firstGroup?_eq]
  cases h with
  | @group g hg =>
    show _ = (contentValue lookup slots g.content).map _
    rw [← evaluateFrom_ungrouped lookup hg.content]
    show (if (Text.trim g.content).isEmpty then _ else _) = _
    split <;> rfl
  | none => rfl
  | opening => rfl
  | closing => rfl

/-- A round that does not fail has found a group or none. -/
theorem located_of_round {slots : Slots} {next : Option (List Char × Slots)}
    (h : round lookup (t, slots) = .ok next) :
    ∃ found : Option Group, Located t (.ok found) ∧
      (found.elim (.ok none) fun g => (contentValue lookup slots g.content).map fun v =>
        some (g.replaced slots.size, slots.push v)) = .ok next := by
  obtain ⟨r, hr⟩ := exists_located t
  rw [round_located lookup hr] at h
  obtain ⟨found, rfl, hnext⟩ := bind_eq_ok.1 h
  exact ⟨found, hr, hnext⟩

/-- A round that replaces a group. -/
theorem exists_group_of_round (h : round lookup p = .ok (some q)) :
    ∃ g : Group, g.Innermost ∧ p.1 = g.text ∧ q.1 = g.replaced p.2.size := by
  obtain ⟨t, slots⟩ := p
  obtain ⟨found, hfound, hnext⟩ := located_of_round lookup h
  cases hfound with
  | none => cases hnext
  | @group g hg =>
    obtain ⟨v, -, hv⟩ := map_eq_ok.1 hnext
    obtain rfl := Option.some.inj hv
    exact ⟨g, hg, rfl, rfl⟩

/-- The rounds end at a text without groups. -/
theorem ungrouped_of_round (h : round lookup p = .ok none) : Ungrouped p.1 := by
  obtain ⟨t, slots⟩ := p
  obtain ⟨found, hfound, hnext⟩ := located_of_round lookup h
  cases hfound with
  | none hungrouped => exact hungrouped
  | group =>
    obtain ⟨v, -, hv⟩ := map_eq_ok.1 hnext
    cases hv

/-! ### What a round does to the parentheses -/

theorem Group.mark_replaced {g : Group} (h : g.Innermost) (k : Nat) :
    mark .outside (g.replaced k) = mark .outside g.before ++
      ((placeholder k).map (fun c => (c, true)) ++ mark .outside g.after) := by
  have hplain := isQuote_placeholder k
  rw [replaced, List.append_assoc, Quoted.mark_append_of_outside h.beforeClosed,
    Quoted.mark_append_of_outside (Quoted.run_plain hplain), Quoted.mark_plain hplain]

theorem ne_parenthesis_placeholder (k : Nat) :
    ∀ m ∈ (placeholder k).map fun c => (c, true), m ≠ ('(', true) ∧ m ≠ (')', true) := by
  intro m hm
  obtain ⟨c, hc, rfl⟩ := List.mem_map.1 hm
  have hmem : c ∈ Sign.text none ++ placeholder k := by simpa [Sign.text] using hc
  have hplain := (isPlain_iff.1 (isPlain_of_mem_placeholder none k c hmem).1).2.2
  simpa using hplain

section

variable {g : Group} (h : g.Innermost) (k : Nat)

include h

/-- The opening parenthesis of the group is gone. -/
theorem Group.openings_replaced : openings (g.replaced k) + 1 = openings g.text := by
  have hplaceholder : ('(', true) ∉ (placeholder k).map fun c => (c, true) :=
    fun hm => (ne_parenthesis_placeholder k _ hm).1 rfl
  rw [openings, openings, mark_replaced h, mark_text h]
  simp only [List.count_append, List.count_cons_self, List.count_eq_zero.2 hplaceholder,
    List.count_eq_zero.2 h.content.opening,
    List.count_cons_of_ne (show (')', true) ≠ ('(', true) by decide)]
  omega

/-- The other parentheses open and close as before. -/
theorem Group.openAfter?_replaced :
    openAfter? 0 (mark .outside (g.replaced k)) = openAfter? 0 (mark .outside g.text) := by
  have hclosing : ∀ depth, nextOpen? (depth + 1) (')', true) = some depth := fun _ => rfl
  have hopening : ∀ depth, nextOpen? depth ('(', true) = some (depth + 1) := fun _ => rfl
  rw [mark_replaced h, mark_text h, Text.openAfter?_append, Text.openAfter?_append,
    openAfter?_of_unclosed h.before]
  simp only [Option.bind_some, Text.openAfter?_append, Text.openAfter?_cons, hopening,
    Text.openAfter?_of_none (ne_parenthesis_placeholder k), h.content.openAfter?_eq, hclosing]

end

variable {lookup} {n : Nat}

/-- Every round takes an opening parenthesis away. -/
theorem Rounds.openings_eq (h : Rounds lookup n p q) : n + openings q.1 = openings p.1 := by
  induction h with
  | refl p => rw [Nat.zero_add]
  | @head n p q r hround _ ih =>
    obtain ⟨g, hg, hp, hq⟩ := exists_group_of_round lookup hround
    rw [hp, ← Group.openings_replaced hg p.2.size, ← hq, ← ih]
    omega

/-- The rounds keep the pairing of the parentheses. -/
theorem Rounds.paired_iff (h : Rounds lookup n p q) :
    Paired (mark .outside q.1) ↔ Paired (mark .outside p.1) := by
  induction h with
  | refl p => rfl
  | @head n p q r hround _ ih =>
    obtain ⟨g, hg, hp, hq⟩ := exists_group_of_round lookup hround
    rw [ih, Text.paired_iff, Text.paired_iff, hp, hq, Group.openAfter?_replaced hg]

/-- The rounds that can be made are determined, and so is where they end. -/
theorem Rounds.unique {m : Nat} {q' : List Char × Slots} (h : Rounds lookup n p q)
    (h' : Rounds lookup m p q') (hq : ∀ r, round lookup q ≠ .ok (some r))
    (hq' : ∀ r, round lookup q' ≠ .ok (some r)) : q = q' := by
  induction h generalizing m with
  | refl p =>
    cases h' with
    | refl => rfl
    | head hround _ => exact absurd hround (hq _)
  | head hround _ ih =>
    cases h' with
    | refl => exact absurd hround (hq' _)
    | head hround' hrest' =>
      rw [hround] at hround'
      obtain rfl := Option.some.inj (Except.ok.inj hround')
      exact ih hrest' hq

end

/-! ### What has been read -/

/-- The texts before each open parenthesis, the innermost first, with the parentheses. -/
def openText : List (List Char) → List Char
  | [] => []
  | before :: opened => openText opened ++ before.reverse ++ ['(']

/-- What has been read, with a placeholder for every group that is closed. -/
def Reading.text (r : Reading) : List Char :=
  openText r.opened ++ r.current.reverse

/-- No text between the open parentheses has a group. Each of them lies outside all literals, and
the scan of the innermost text has come to the state `st`. -/
structure Reading.Flat (st : Quoted.State) (r : Reading) : Prop where
  current : Ungrouped r.current.reverse
  state : run .outside r.current.reverse = st
  opened : ∀ before ∈ r.opened,
    Ungrouped before.reverse ∧ run .outside before.reverse = .outside

theorem Ungrouped.append (hs : Ungrouped s) (hrun : run .outside s = .outside)
    (ht : Ungrouped t) : Ungrouped (s ++ t) := by
  rw [ungrouped_iff, Quoted.mark_append_of_outside hrun]
  exact List.forall_mem_append.2 ⟨ungrouped_iff.1 hs, ungrouped_iff.1 ht⟩

theorem ungrouped_placeholder (k : Nat) : Ungrouped (placeholder k) := by
  have hne := ne_parenthesis_placeholder k
  rw [← Quoted.mark_plain (isQuote_placeholder k)] at hne
  exact ⟨fun hm => (hne _ hm).1 rfl, fun hm => (hne _ hm).2 rfl⟩

/-- The open parentheses lie outside all literals, and no group is closed among them. -/
theorem openText_unclosed {opened : List (List Char)}
    (h : ∀ before ∈ opened, Ungrouped before.reverse ∧ run .outside before.reverse = .outside) :
    Unclosed (openText opened) ∧ run .outside (openText opened) = .outside := by
  induction opened with
  | nil => exact ⟨by simp [Unclosed, openText, mark], rfl⟩
  | cons before opened ih =>
    obtain ⟨⟨hbefore, hrun⟩, hopened⟩ := List.forall_mem_cons.1 h
    obtain ⟨hunclosed, hopenedRun⟩ := ih hopened
    have happend : run .outside (openText opened ++ before.reverse) = .outside := by
      rw [Quoted.run_append, hopenedRun, hrun]
    constructor
    · rw [Unclosed, openText, Quoted.mark_append_of_outside happend,
        Quoted.mark_append_of_outside hopenedRun, List.mem_append, List.mem_append]
      rintro ((hm | hm) | hm)
      · exact hunclosed hm
      · exact hbefore.closing hm
      · simp [mark] at hm
    · rw [openText, Quoted.run_append, happend]
      rfl

namespace Reading.Flat

variable (lookup : Lookup) {st : Quoted.State} {r r' : Reading}

theorem start (slots : Slots) : Reading.Flat .outside ⟨[], [], slots⟩ :=
  ⟨⟨by simp [mark], by simp [Unclosed, mark]⟩, rfl, by simp⟩

/-- A closing parenthesis is read as the rounds replace the group that it ends. -/
theorem round_close (hr : Reading.Flat .outside r) (t : List Char) :
    round lookup (r.text ++ ')' :: t, r.slots) =
      (r.close lookup).map fun r' => some (r'.text ++ t, r'.slots) := by
  obtain ⟨current, opened, slots⟩ := r
  cases opened with
  | nil =>
    have hlocated := Located.closing hr.current hr.state t
    rw [Reading.text, openText, List.nil_append, round_located lookup hlocated]
    rfl
  | cons before opened =>
    obtain ⟨⟨hbefore, hrun⟩, hopened⟩ := List.forall_mem_cons.1 hr.opened
    obtain ⟨hunclosed, hopenedRun⟩ := openText_unclosed hopened
    let g : Group := ⟨openText opened ++ before.reverse, current.reverse, t⟩
    have hinnermost : g.Innermost := by
      refine ⟨?_, ?_, hr.current, hr.state⟩
      · rw [Unclosed, Quoted.mark_append_of_outside hopenedRun, List.mem_append]
        exact not_or.2 ⟨hunclosed, hbefore.closing⟩
      · rw [Quoted.run_append, hopenedRun, hrun]
    have htext : (⟨current, before :: opened, slots⟩ : Reading).text ++ ')' :: t = g.text := by
      simp [Reading.text, openText, Group.text, g]
    rw [htext, round_located lookup (.group hinnermost), close_eq]
    show (contentValue lookup slots current.reverse).map _ = _
    cases contentValue lookup slots current.reverse with
    | error c => rfl
    | ok v => simp [Except.map, Group.replaced, Reading.text, g]

theorem close (hr : Reading.Flat .outside r) (h : r.close lookup = .ok r') :
    Reading.Flat .outside r' := by
  obtain ⟨current, opened, slots⟩ := r
  cases opened with
  | nil => cases h
  | cons before opened =>
    rw [close_eq] at h
    obtain ⟨v, -, rfl⟩ := map_eq_ok.1 h
    obtain ⟨⟨hbefore, hrun⟩, hopened⟩ := List.forall_mem_cons.1 hr.opened
    refine ⟨?_, ?_, hopened⟩
    · rw [List.reverse_append, List.reverse_reverse]
      exact hbefore.append hrun (ungrouped_placeholder _)
    · rw [List.reverse_append, List.reverse_reverse, Quoted.run_append, hrun,
        Quoted.run_plain (isQuote_placeholder _)]

/-- A character that closes no group goes to the end of what has been read. -/
theorem step_open (hr : Reading.Flat st r) {c : Char} (hc : (c, st.isOutside) ≠ (')', true)) :
    ∃ r', r.step lookup (c, st.isOutside) = .ok r' ∧ Reading.Flat (st.next c) r' ∧
      r'.text = r.text ++ [c] ∧ r'.slots = r.slots := by
  by_cases hopen : (c, st.isOutside) = ('(', true)
  · obtain ⟨rfl, houtside⟩ := Prod.mk.inj hopen
    obtain rfl := Quoted.State.eq_outside houtside
    refine ⟨⟨[], r.current :: r.opened, r.slots⟩, rfl, ⟨?_, rfl, ?_⟩, ?_, rfl⟩
    · exact (start #[]).current
    · exact List.forall_mem_cons.2 ⟨⟨hr.current, hr.state⟩, hr.opened⟩
    · simp [Reading.text, openText]
  · refine ⟨⟨c :: r.current, r.opened, r.slots⟩, ?_, ⟨?_, ?_, hr.opened⟩, ?_, rfl⟩
    · rw [Reading.step, if_neg (by simpa [and_comm] using hopen),
        if_neg (by simpa [and_comm] using hc)]
    · rw [List.reverse_cons, ungrouped_iff, Quoted.mark_append, hr.state]
      refine List.forall_mem_append.2 ⟨ungrouped_iff.1 hr.current, ?_⟩
      rw [mark, mark, List.forall_mem_singleton, Marked.groups]
      grind
    · simp [hr.state]
    · simp [Reading.text]

theorem step (hr : Reading.Flat st r) {c : Char} (h : r.step lookup (c, st.isOutside) = .ok r') :
    Reading.Flat (st.next c) r' := by
  by_cases hclose : (c, st.isOutside) = (')', true)
  · obtain ⟨rfl, houtside⟩ := Prod.mk.inj hclose
    obtain rfl := Quoted.State.eq_outside houtside
    exact hr.close lookup h
  · obtain ⟨next, hnext, hflat, -⟩ := hr.step_open lookup hclose
    obtain rfl := Except.ok.inj (hnext.symm.trans h)
    exact hflat

end Reading.Flat

section

variable (lookup : Lookup) {st : Quoted.State} {r : Reading}

/-- Reading a text makes the rounds, up to the end of the text or up to the one that fails. -/
theorem readings_rounds (hr : Reading.Flat st r) (t : List Char) :
    (∀ r', (mark st t).foldlM (Reading.step lookup) r = .ok r' →
      Reading.Flat (run st t) r' ∧
        ∃ n, Rounds lookup n (r.text ++ t, r.slots) (r'.text, r'.slots)) ∧
    (∀ c, (mark st t).foldlM (Reading.step lookup) r = .error c →
      ∃ n p, Rounds lookup n (r.text ++ t, r.slots) p ∧ round lookup p = .error c) := by
  induction t generalizing st r with
  | nil =>
    rw [mark, List.foldlM_nil, List.append_nil]
    constructor
    · intro r' h
      obtain rfl := Except.ok.inj h
      exact ⟨hr, 0, .refl _⟩
    · rintro c ⟨⟩
  | cons c t ih =>
    rw [mark, List.foldlM_cons]
    by_cases hclose : (c, st.isOutside) = (')', true)
    · -- a group ends: this is a round
      obtain ⟨rfl, houtside⟩ := Prod.mk.inj hclose
      obtain rfl := Quoted.State.eq_outside houtside
      have hround := hr.round_close lookup t
      show (∀ r', r.close lookup >>= _ = .ok r' → _) ∧ ∀ c, r.close lookup >>= _ = .error c → _
      cases hstep : r.close lookup with
      | error e =>
        rw [hstep] at hround
        constructor
        · rintro r' ⟨⟩
        · intro c h
          obtain rfl := Except.error.inj h
          exact ⟨0, _, .refl _, hround⟩
      | ok next =>
        rw [hstep] at hround
        obtain ⟨hok, herror⟩ := ih (hr.close lookup hstep)
        constructor
        · intro r' h
          obtain ⟨hflat, n, hrounds⟩ := hok r' h
          exact ⟨hflat, n + 1, .head hround hrounds⟩
        · intro c h
          obtain ⟨n, p, hrounds, hp⟩ := herror c h
          exact ⟨n + 1, p, .head hround hrounds, hp⟩
    · obtain ⟨next, hstep, hflat, htext, hslots⟩ := hr.step_open lookup hclose
      obtain ⟨hok, herror⟩ := ih hflat
      rw [htext, hslots, List.append_assoc, List.singleton_append] at hok herror
      rw [hstep]
      exact ⟨hok, herror⟩

/-- At the end of the text no round is left, or a parenthesis is open. -/
theorem round_end (hr : Reading.Flat st r) :
    round lookup (r.text, r.slots) =
      if r.opened.isEmpty then .ok none else .error (.malformedExpression "unbalanced `(`") := by
  obtain ⟨current, opened, slots⟩ := r
  cases opened with
  | nil =>
    have hlocated := Located.none hr.current
    rw [Reading.text, openText, List.nil_append, round_located lookup hlocated]
    rfl
  | cons before opened =>
    obtain ⟨hunclosed, hrun⟩ := openText_unclosed hr.opened
    have hmark : mark .outside (openText (before :: opened) ++ current.reverse) =
        mark .outside (openText (before :: opened)) ++ mark .outside current.reverse :=
      Quoted.mark_append_of_outside hrun _
    have htext : Unclosed (openText (before :: opened) ++ current.reverse) := by
      rw [Unclosed, hmark, List.mem_append]
      exact not_or.2 ⟨hunclosed, hr.current.closing⟩
    have hopen : ('(', true) ∈ mark .outside (openText (before :: opened) ++ current.reverse) := by
      have hbefore : run .outside (openText opened ++ before.reverse) = .outside := by
        obtain ⟨⟨-, hbeforeRun⟩, hopened⟩ := List.forall_mem_cons.1 hr.opened
        rw [Quoted.run_append, (openText_unclosed hopened).2, hbeforeRun]
      rw [hmark, openText, Quoted.mark_append_of_outside hbefore]
      simp [mark, Quoted.State.isOutside]
    rw [Reading.text, round_located lookup (.opening htext hopen)]
    rfl

variable {t : List Char} {p : List Char × Slots} {c : Cause}

/-- The reading that gives a text has made rounds up to one that finds no group. -/
theorem rounds_of_substitute (h : substitute lookup t = .ok p) :
    ∃ n, Rounds lookup n (t, #[]) p ∧ round lookup p = .ok none := by
  obtain ⟨r, hr, hend⟩ := bind_eq_ok.1 h
  obtain ⟨hflat, n, hrounds⟩ := (readings_rounds lookup (.start #[]) t).1 r hr
  have hround := round_end lookup hflat
  split at hend
  · next hopened =>
    obtain rfl := Except.ok.inj hend
    have htext : r.text = r.current.reverse := by
      rw [Reading.text, List.isEmpty_iff.1 hopened]
      rfl
    rw [if_pos hopened, htext] at hround
    rw [htext] at hrounds
    exact ⟨n, hrounds, hround⟩
  · cases hend

/-- The reading that fails has made rounds up to one that fails in the same way. -/
theorem rounds_of_substitute_error (h : substitute lookup t = .error c) :
    ∃ n p, Rounds lookup n (t, #[]) p ∧ round lookup p = .error c := by
  obtain ⟨hok, herror⟩ := readings_rounds lookup (.start #[]) t
  obtain hread | ⟨r, hr, hend⟩ := bind_eq_error.1 h
  · exact herror c hread
  · obtain ⟨hflat, n, hrounds⟩ := hok r hr
    have hround := round_end lookup hflat
    split at hend
    · cases hend
    · next hopened =>
      obtain rfl := Except.error.inj hend
      rw [if_neg hopened] at hround
      exact ⟨n, _, hrounds, hround⟩

/-- The text without groups that the rounds come to is the one that is read. -/
theorem substitute_eq_ok : substitute lookup t = .ok p ↔
    ∃ n, Rounds lookup n (t, #[]) p ∧ round lookup p = .ok none := by
  constructor
  · exact rounds_of_substitute lookup
  · rintro ⟨n, hrounds, hend⟩
    cases h : substitute lookup t with
    | ok q =>
      obtain ⟨m, hrounds', hend'⟩ := rounds_of_substitute lookup h
      rw [hrounds'.unique hrounds (by simp [hend']) (by simp [hend])]
    | error c =>
      obtain ⟨m, q, hrounds', hend'⟩ := rounds_of_substitute_error lookup h
      rw [hrounds'.unique hrounds (by simp [hend']) (by simp [hend]), hend] at hend'
      cases hend'

/-- The rounds fail as the reading does. -/
theorem substitute_eq_error : substitute lookup t = .error c ↔
    ∃ n p, Rounds lookup n (t, #[]) p ∧ round lookup p = .error c := by
  constructor
  · exact rounds_of_substitute_error lookup
  · rintro ⟨n, p, hrounds, hend⟩
    cases h : substitute lookup t with
    | ok q =>
      obtain ⟨m, hrounds', hend'⟩ := rounds_of_substitute lookup h
      rw [hrounds'.unique hrounds (by simp [hend']) (by simp [hend]), hend] at hend'
      cases hend'
    | error e =>
      obtain ⟨m, q, hrounds', hend'⟩ := rounds_of_substitute_error lookup h
      rw [hrounds'.unique hrounds (by simp [hend']) (by simp [hend]), hend] at hend'
      rw [Except.error.inj hend']

end

/-! ### Balanced and unbalanced texts -/

/-- The errors of a text with a parenthesis that has no partner. -/
inductive IsUnbalanced : Cause → Prop where
  | opening : IsUnbalanced (.malformedExpression "unbalanced `(`")
  | closing : IsUnbalanced (.malformedExpression "unbalanced `)`")

theorem Ungrouped.paired (h : Ungrouped t) : Paired (mark .outside t) :=
  Text.paired_iff.2 (h.openAfter?_eq 0)

/-- Where the search fails the parentheses are not paired. -/
theorem not_paired_of_firstGroup? {c : Cause} (hfails : firstGroup? t = .error c) :
    IsUnbalanced c ∧ ¬ Paired (mark .outside t) := by
  rw [Text.paired_iff]
  cases firstGroup?_iff.1 hfails with
  | opening h hopen =>
    refine ⟨.opening, ?_⟩
    rw [openAfter?_of_unclosed h, Nat.zero_add, Option.some.injEq]
    exact (List.count_pos_iff.2 hopen).ne'
  | @closing s h hs u =>
    refine ⟨.closing, ?_⟩
    rw [Quoted.mark_append_of_outside hs, Quoted.mark_cons_plain (by decide),
      Text.openAfter?_append, h.openAfter?_eq]
    rintro ⟨⟩

section

variable (lookup : Lookup)

/-- The groups that the rounds come to are not blank, and all have values. -/
def GroupsSucceed (t : List Char) : Prop :=
  ∀ n p g, Rounds lookup n (t, #[]) p → firstGroup? p.1 = .ok (some g) →
    Text.trim g.content ≠ [] ∧ ∃ v, evaluateFrom lookup p.2 g.content = .ok v

/-- If no group fails, the rounds fail exactly on a text whose parentheses are not paired. -/
theorem substitute_unbalanced_iff (h : GroupsSucceed lookup t) :
    (∃ c, IsUnbalanced c ∧ substitute lookup t = .error c) ↔ ¬ Paired (mark .outside t) := by
  -- a round fails only where the search fails
  have hfails : ∀ c, substitute lookup t = .error c →
      IsUnbalanced c ∧ ¬ Paired (mark .outside t) := by
    intro c hc
    obtain ⟨n, p, hrounds, hround⟩ := rounds_of_substitute_error lookup hc
    cases hg : firstGroup? p.1 with
    | error e =>
      obtain ⟨he, hpaired⟩ := not_paired_of_firstGroup? hg
      rw [hrounds.paired_iff] at hpaired
      simp only [round, hg] at hround
      obtain rfl := Except.error.inj hround
      exact ⟨he, hpaired⟩
    | ok found =>
      cases found with
      | none =>
        simp only [round, hg] at hround
        cases hround
      | some g =>
        obtain ⟨hne, v, hv⟩ := h n p g hrounds hg
        simp only [round, hg, List.isEmpty_iff, if_neg hne, hv] at hround
        cases hround
  constructor
  · rintro ⟨c, -, hc⟩
    exact (hfails c hc).2
  · intro hpaired
    cases hs : substitute lookup t with
    | ok p =>
      obtain ⟨n, hrounds, hround⟩ := rounds_of_substitute lookup hs
      exact absurd (hrounds.paired_iff.1 (ungrouped_of_round lookup hround).paired) hpaired
    | error c => exact ⟨c, (hfails c hs).1, rfl⟩

/-- **Groups are replaced in rounds, and the rounds find the unbalanced texts.** Every group that
is found lies in the text with no parenthesis and no open literal in it, and its evaluation finds
no further group. There are at most as many rounds as opening parentheses. They end with the text
and the slots that the reading gives, and then no parenthesis is left, or with its error. If no
group fails, this error is that of an unbalanced text exactly if the parentheses are not paired,
which are the texts that are not split into arguments. -/
theorem substitute_in_rounds (t : List Char) :
    (∀ n p g, Rounds lookup n (t, #[]) p → firstGroup? p.1 = .ok (some g) →
      p.1 = g.text ∧ g.Innermost ∧ firstGroup? (Text.trim g.content) = .ok none ∧
        substituteFrom lookup p.2 (Text.trim g.content) = .ok (Text.trim g.content, p.2)) ∧
    (∀ n p, Rounds lookup n (t, #[]) p → n ≤ openings t) ∧
    (∀ p, substitute lookup t = .ok p ↔
      ∃ n, Rounds lookup n (t, #[]) p ∧ round lookup p = .ok none) ∧
    (∀ c, substitute lookup t = .error c ↔
      ∃ n p, Rounds lookup n (t, #[]) p ∧ round lookup p = .error c) ∧
    (∀ p, substitute lookup t = .ok p → Ungrouped p.1) ∧
    (GroupsSucceed lookup t →
      ((∃ c, IsUnbalanced c ∧ substitute lookup t = .error c) ↔
        ¬ Paired (mark .outside t))) ∧
    (¬ Paired (mark .outside t) ↔ ∃ c, splitArguments t = .error c) := by
  refine ⟨?_, ?_, fun p => substitute_eq_ok lookup, fun c => substitute_eq_error lookup, ?_,
    substitute_unbalanced_iff lookup, splitArguments_fails_iff.symm⟩
  · rintro n ⟨u, slots⟩ g - hg
    have hlocated : Located u (.ok (some g)) := firstGroup?_iff.1 hg
    cases hlocated with
    | group hinnermost =>
      have htrim := hinnermost.content.of_subset (mark_trim_subset g.content)
      exact ⟨rfl, hinnermost, (Located.none htrim).firstGroup?_eq,
        substituteFrom_ungrouped lookup htrim slots⟩
  · intro n p hrounds
    have hcount := hrounds.openings_eq
    show n ≤ openings (t, (#[] : Slots)).1
    omega
  · intro p hp
    obtain ⟨n, -, hround⟩ := rounds_of_substitute lookup hp
    exact ungrouped_of_round lookup hround

/-- A group is replaced before the search comes to a parenthesis that is left open. -/
theorem substitute_fails_after_group :
    GroupsSucceed (fun _ => none) "(true) (".toList ∧
      ¬ Paired (mark .outside "(true) (".toList) ∧
      ∃ c, IsUnbalanced c ∧ substitute (fun _ => none) "(true) (".toList = .error c := by
  have hgroup : firstGroup? "(true) (".toList =
      .ok (some ⟨[], "true".toList, " (".toList⟩) := rfl
  have hround : round (fun _ => none) ("(true) (".toList, #[]) =
      .ok (some ("\x010\x01 (".toList, #[.boolean true])) := rfl
  have hend : firstGroup? "\x010\x01 (".toList =
      .error (.malformedExpression "unbalanced `(`") := rfl
  have hsucceed : GroupsSucceed (fun _ => none) "(true) (".toList := by
    intro n p g hrounds hg
    cases hrounds with
    | refl =>
      rw [hgroup] at hg
      obtain rfl := Option.some.inj (Except.ok.inj hg)
      exact ⟨by decide, .boolean true, rfl⟩
    | head hfirst hrest =>
      rw [hround] at hfirst
      obtain rfl := Option.some.inj (Except.ok.inj hfirst)
      cases hrest with
      | refl =>
        rw [hend] at hg
        cases hg
      | head hsecond _ =>
        simp only [round, hend] at hsecond
        cases hsecond
  have hpaired : ¬ Paired (mark .outside "(true) (".toList) := by decide
  obtain ⟨-, -, -, -, -, hunbalanced, -⟩ :=
    substitute_in_rounds (fun _ => none) "(true) (".toList
  exact ⟨hsucceed, hpaired, (hunbalanced hsucceed).2 hpaired⟩

end

end Expr

end LineScript
