import LineScript.Proofs.Expr.Operand
import LineScript.Proofs.Expr.Values

/-!
# Control characters in the value of an expression

Numbers, constants and the host are shown without control characters. So the text
of a value has one only if it is written in the expression or comes with the value of
a name. While groups are replaced, the text is full of the marks of placeholders; but
these lie outside all literals, and no literal takes them over.

- `Chain.mark_operands_subset`: every character of an operand lies in the text, and in
  a literal of the operand only if in one of the text.
- `Value.inherited_lacks`: a control character that no value has gets into no value
  that is computed from them.
- `Reading.Bare`, `Reading.Bare.step`: a character is kept out of all literals while a
  text is read.
- `evaluate_lacks`: the text of a value has no control character of its own.
-/

namespace LineScript

namespace Expr

open Quoted (mark)

/-! ### Parts of a text -/

theorem mark_trim_subset (t : List Char) : mark .outside (Text.trim t) ⊆ mark .outside t := by
  have hstart : mark .outside (Text.trimStart t) ⊆ mark .outside t :=
    Quoted.mark_dropWhile_subset (fun _ => Text.not_quote_of_blank) t
  -- what is left after the blanks at the end are gone is a start of the text
  have hend : Text.trimStart t =
      Text.trim t ++ ((Text.trimStart t).reverse.takeWhile Text.isBlank).reverse := by
    rw [Text.trim, Text.trimEnd, ← List.reverse_append, List.takeWhile_append_dropWhile,
      List.reverse_reverse]
  refine List.Subset.trans ?_ hstart
  rw [hend, Quoted.mark_append]
  exact List.subset_append_left _ _

theorem mark_operandAtom_subset (operand : List Char) :
    mark .outside (operandAtom operand) ⊆ mark .outside operand := by
  have hbang : ∀ c, decide (c = '!') = true → Quoted.isQuote c = false := by
    intro c hc
    rw [of_decide_eq_true hc]
    decide
  calc mark .outside (operandAtom operand)
    _ ⊆ mark .outside ((Text.trim operand).dropWhile (· = '!')) :=
        Quoted.mark_dropWhile_subset (fun _ => Text.not_quote_of_blank) _
    _ ⊆ mark .outside (Text.trim operand) := Quoted.mark_dropWhile_subset hbang _
    _ ⊆ mark .outside operand := mark_trim_subset operand

theorem separates_of_mem_fields (t : List Marked) :
    ∀ p ∈ (fields t).2, Marked.separates p.1 = true := by
  induction t with
  | nil => simp [fields]
  | cons m t ih =>
    by_cases hm : m.separates = true
    · simpa [fields, hm] using ih
    · simpa [fields, hm] using ih

/-- A separator lies outside all literals and opens none, so a scan of the text after
it starts anew. -/
theorem mark_separator {st : Quoted.State} {t : List Char} {word : List Marked} {m : Marked}
    (hm : m.separates = true) (rest : List Marked) (hmark : mark st t = word ++ m :: rest) :
    ∃ u, t = plain word ++ m.1 :: u ∧ mark st (plain word) = word ∧
      Quoted.run st (plain word) = .outside ∧ mark .outside u = rest := by
  obtain ⟨c, outside⟩ := m
  obtain ⟨rfl, hc⟩ : outside = true ∧ Text.isBlank c = true := by
    simpa [Marked.separates] using hm
  obtain ⟨s, u, ht, rfl, hrun, hrest⟩ := Quoted.mark_cut (Text.not_quote_of_blank hc) hmark
  rw [plain, Quoted.map_fst_mark]
  exact ⟨u, ht, rfl, hrun, hrest⟩

namespace Chain

/-- The first operand is scanned from the state in which the words are, and every
further one from outside all literals, as an operator stands before it. -/
theorem mark_ofFields_subset {st : Quoted.State} {word : List Marked}
    {rest : List (Marked × List Marked)} {t : List Char} (hmark : mark st t = fieldsText word rest)
    (hrest : ∀ p ∈ rest, Marked.separates p.1 = true) :
    mark st (ofFields word rest).first ⊆ mark st t ∧
      ∀ p ∈ (ofFields word rest).rest, mark .outside p.2 ⊆ mark st t := by
  induction rest generalizing st word t with
  | nil =>
    have ht : plain word = t := by
      rw [← Quoted.map_fst_mark st t, hmark]
      simp [plain, fieldsText]
    rw [ofFields]
    split
    · simp [mark]
    · simp [ht]
  | cons p rest ih =>
    obtain ⟨m, next⟩ := p
    have hm : m.separates = true := hrest (m, next) (by simp)
    obtain ⟨u, rfl, -, hrun, hnext⟩ := mark_separator hm (fieldsText next rest) hmark
    obtain ⟨hfirst, hmore⟩ := ih hnext fun q hq => hrest q (by simp [hq])
    -- the text is marked word by word, and the next operand lies after the separator
    have hplain : Quoted.isQuote m.1 = false :=
      Text.not_quote_of_blank (Bool.and_eq_true_iff.1 hm).2
    have hcut : ∀ v, mark st (plain word ++ m.1 :: v) =
        mark st (plain word) ++ (m.1, true) :: mark .outside v := by
      intro v
      rw [Quoted.mark_append, hrun, Quoted.mark_cons_plain hplain]
    have htail : (m.1, true) :: mark .outside u ⊆ mark st (plain word ++ m.1 :: u) := by
      rw [hcut]
      exact List.subset_append_right _ _
    have hlater : ∀ q ∈ (ofFields next rest).rest,
        mark .outside q.2 ⊆ mark st (plain word ++ m.1 :: u) :=
      fun q hq => List.Subset.trans (hmore q hq) (List.subset_of_cons_subset htail)
    have hhead := List.cons_subset_cons (m.1, true) hfirst
    rw [ofFields]
    split
    · refine ⟨by simp [mark], List.forall_mem_cons.2 ⟨?_, hlater⟩⟩
      rw [Quoted.mark_cons_plain hplain]
      exact List.Subset.trans hhead htail
    · refine ⟨?_, hlater⟩
      rw [hcut, hcut]
      exact List.append_subset.2
        ⟨List.subset_append_left _ _, List.Subset.trans hhead (List.subset_append_right _ _)⟩

/-- Every character of an operand lies in the text, and in a literal of the operand
only if it lies in one of the text. -/
theorem mark_operands_subset {t operand : List Char}
    (h : operand ∈ (ofText t).tree.operands) : mark .outside operand ⊆ mark .outside t := by
  obtain ⟨hfirst, hrest⟩ := mark_ofFields_subset (fields_flatten (mark .outside t)).symm
    (separates_of_mem_fields _)
  rw [operands_tree] at h
  rcases List.mem_cons.1 h with rfl | h
  · exact hfirst
  · obtain ⟨p, hp, rfl⟩ := List.mem_map.1 h
    exact hrest p hp

end Chain

end Expr

/-! ### The texts of values -/

variable {c : Char}

/-- Values other than texts and functions are shown without control characters. -/
theorem Value.no_control_of_type {v : Value} (hfunction : v.type ≠ .function)
    (hstring : v.type ≠ .string) : ∀ d ∈ v.text.toList, 32 ≤ d.toNat := by
  have hword : ∀ word : List Char, word.all (fun d => 32 ≤ d.toNat) = true →
      ∀ d ∈ word, 32 ≤ d.toNat := by simp
  cases v with
  | undefined => exact hword "undefined".toList (by decide)
  | boolean b =>
    cases b with
    | false => exact hword "false".toList (by decide)
    | true => exact hword "true".toList (by decide)
  | std host => exact hword "[object std]".toList (by decide)
  | number x =>
    intro d hd
    rcases Number.isNumeral_iff.1 (Number.numeral_of_format x d hd) with
      h | h | h | rfl | rfl | rfl
    · omega
    · omega
    · omega
    · decide
    · decide
    · decide
  | string s => exact absurd rfl hstring
  | function f => exact absurd rfl hfunction

/-- A control character that no value has gets into no value computed from them. -/
theorem Value.inherited_lacks (hc : c.toNat < 32) :
    Value.Inherited fun v => c ∉ v.text.toList where
  made v hfunction hstring hmem := by
    have hle := Value.no_control_of_type hfunction hstring c hmem
    omega
  sum l r hl hr := by
    simp only [Value.text, String.toList_append, List.mem_append]
    exact not_or.2 ⟨hl, hr⟩

namespace Expr

open Quoted (mark)

/-! ### Operands and groups -/

variable (hc : c.toNat < 32) {lookup : Lookup}
  (hlookup : ∀ id v, lookup id = some v → c ∉ v.text.toList)

section

variable {slots : Slots} (hslots : ∀ v ∈ slots, c ∉ v.text.toList) {t : List Char} {v : Value}

include hc hlookup hslots

theorem flatValue_lacks (ht : Quoted.Bare c t) (h : flatValue lookup slots t = .ok v) :
    c ∉ v.text.toList := by
  refine treeValue_of (Value.inherited_lacks hc) hlookup hslots (fun operand ho s hs => ?_) h
  have hatom : Quoted.Bare c (operandAtom operand) :=
    (ht.of_subset (Chain.mark_operands_subset ho)).of_subset (mark_operandAtom_subset operand)
  simpa [Value.text] using hatom.not_mem_of_literal hs

theorem groupValue_lacks (ht : Quoted.Bare c t) (h : groupValue lookup slots t = .ok v) :
    c ∉ v.text.toList := by
  have htrim : Quoted.Bare c (Text.trim t) := ht.of_subset (mark_trim_subset t)
  simp only [groupValue] at h
  split at h
  · next s hs =>
    obtain rfl := Except.ok.inj h
    simpa [Value.text] using htrim.not_mem_of_literal hs
  · exact flatValue_lacks hc hlookup hslots htrim h

end

/-! ### Reading a text -/

/-- The character lies outside all literals of what has been read, and in no value
of a group. The scan of the innermost group has come to the state `st`; a parenthesis
opens only outside all literals. -/
structure Reading.Bare (c : Char) (st : Quoted.State) (r : Reading) : Prop where
  current : Quoted.Bare c r.current.reverse
  state : Quoted.run .outside r.current.reverse = st
  opened : ∀ before ∈ r.opened,
    Quoted.Bare c before.reverse ∧ Quoted.run .outside before.reverse = .outside
  slots : ∀ v ∈ r.slots, c ∉ v.text.toList

theorem isQuote_placeholder (n : Nat) : ∀ d ∈ placeholder n, Quoted.isQuote d = false := by
  intro d hd
  exact (isPlain_iff.1 (isPlain_of_mem_placeholder none n d (by simpa [Sign.text] using hd)).1).2.1

namespace Reading.Bare

variable {st : Quoted.State} {r r' : Reading}

theorem start : Reading.Bare c .outside Reading.start :=
  ⟨.of_not_mem (by simp [Reading.start]), rfl, by simp [Reading.start], by simp [Reading.start]⟩

include hc hlookup

theorem close (hr : Reading.Bare c .outside r) (h : r.close lookup = .ok r') :
    Reading.Bare c .outside r' := by
  simp only [Reading.close] at h
  split at h
  · cases h
  · next before opened hopened =>
    split at h
    · cases h
    · obtain ⟨v, hv, rfl⟩ := map_eq_ok.1 h
      obtain ⟨hbefore, hrun⟩ := hr.opened before (by simp [hopened])
      have hplain := isQuote_placeholder r.slots.size
      refine ⟨?_, ?_, fun b hb => hr.opened b (by simp [hopened, hb]), fun w hw => ?_⟩
      · simpa using hbefore.append hrun (.of_plain hplain)
      · simp [hrun, Quoted.run_plain hplain]
      · rcases Array.mem_push.1 hw with hw | rfl
        · exact hr.slots w hw
        · exact groupValue_lacks hc hlookup hr.slots hr.current hv

/-- Reading one more character, which is not the one that is kept out of literals
unless it lies outside them. -/
theorem step (hr : Reading.Bare c st r) {d : Char} (hd : (d, st.isOutside) ≠ (c, false))
    (h : r.step lookup (d, st.isOutside) = .ok r') : Reading.Bare c (st.next d) r' := by
  rw [Reading.step] at h
  split at h
  · next hopen =>
    -- an opening parenthesis
    simp only [Bool.and_eq_true, decide_eq_true_eq] at hopen
    obtain ⟨houtside, rfl⟩ := hopen
    obtain rfl := Quoted.State.eq_outside houtside
    obtain rfl := Except.ok.inj h
    refine ⟨.of_not_mem (by simp), rfl, ?_, hr.slots⟩
    exact List.forall_mem_cons.2 ⟨⟨hr.current, hr.state⟩, hr.opened⟩
  · split at h
    · next hclose =>
      -- a closing parenthesis
      simp only [Bool.and_eq_true, decide_eq_true_eq] at hclose
      obtain ⟨houtside, rfl⟩ := hclose
      obtain rfl := Quoted.State.eq_outside houtside
      exact hr.close hc hlookup h
    · obtain rfl := Except.ok.inj h
      refine ⟨?_, by simp [hr.state], hr.opened, hr.slots⟩
      rw [List.reverse_cons, Quoted.Bare, Quoted.mark_append, hr.state, List.mem_append]
      exact not_or.2 ⟨hr.current, by simpa [mark] using Ne.symm hd⟩

/-- Reading a text in which the character lies outside all literals only. -/
theorem run (hr : Reading.Bare c st r) {t : List Char} (ht : (c, false) ∉ mark st t)
    (h : (mark st t).foldlM (Reading.step lookup) r = .ok r') :
    Reading.Bare c (Quoted.run st t) r' := by
  induction t generalizing st r with
  | nil => exact Except.ok.inj h ▸ hr
  | cons d t ih =>
    rw [mark, List.foldlM_cons] at h
    rw [mark, List.mem_cons, not_or] at ht
    obtain ⟨r₁, hstep, hrest⟩ := bind_eq_ok.1 h
    exact ih (hr.step hc hlookup (Ne.symm ht.1) hstep) ht.2 hrest

end Reading.Bare

section

include hc hlookup

theorem substitute_bare {t flat : List Char} {slots : Slots} (ht : Quoted.Bare c t)
    (h : substitute lookup t = .ok (flat, slots)) :
    Quoted.Bare c flat ∧ ∀ v ∈ slots, c ∉ v.text.toList := by
  obtain ⟨r, hr, hflat⟩ := bind_eq_ok.1 h
  have hbare := Reading.Bare.start.run hc hlookup ht hr
  split at hflat
  · obtain ⟨rfl, rfl⟩ := Prod.mk.inj (Except.ok.inj hflat)
    exact ⟨hbare.current, hbare.slots⟩
  · cases hflat

/-- The text of the value of an expression has a control character only if the
expression has it, or the value of a name. -/
theorem evaluate_lacks {text : String} {v : Value} (htext : c ∉ text.toList)
    (h : evaluate lookup text = .ok v) : c ∉ v.text.toList := by
  have htrim : Quoted.Bare c (Text.trim text.toList) :=
    (Quoted.Bare.of_not_mem htext).of_subset (mark_trim_subset _)
  simp only [evaluate] at h
  split at h
  · cases h
  · split at h
    · next s hs =>
      obtain rfl := Except.ok.inj h
      simpa [Value.text] using htrim.not_mem_of_literal hs
    · obtain ⟨⟨flat, slots⟩, hread, hvalue⟩ := bind_eq_ok.1 h
      obtain ⟨hflat, hslots⟩ := substitute_bare hc hlookup htrim hread
      exact flatValue_lacks hc hlookup hslots hflat hvalue

end

end Expr

end LineScript
