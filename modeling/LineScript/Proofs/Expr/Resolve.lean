import LineScript.Proofs.Expr.Operand

/-!
# The value of one operand

- `operandValue_negations`: negations act on the value of what they stand before.
- `Slots.read?_placeholder`: a placeholder stands for the slot of its number.
- `Atom.operandValue_eq`, `operandValue_placeholder`: the value of an operand that
  is an atom, and of one that stands for a group.
-/

namespace LineScript

namespace Expr

variable {t core : List Char}

/-! ### Negations -/

/-- The blanks after the negations. -/
def Negations.gapText : Negations → List Char
  | none => []
  | run _ gap => gap.text

theorem Negations.dropWhile_text (n : Negations) (hcore : Solid core) :
    (n.text ++ core).dropWhile (· = '!') = n.gapText ++ core := by
  -- neither a blank nor the start of a solid text is one more negation
  have hstop : ∀ c, (n.gapText ++ core).head? = some c → decide (c = '!') = false := by
    intro c hc
    rw [decide_eq_false_iff_not]
    rintro rfl
    cases n with
    | none => exact hcore.head hc
    | run more gap =>
      have hblank := gap.blank
      rw [gapText] at hc
      cases hgap : gap.text with
      | nil => rw [hgap] at hc; exact hcore.head hc
      | cons d rest =>
        rw [hgap] at hc hblank
        obtain rfl : d = '!' := Option.some.inj hc
        exact absurd (hblank '!' (by simp)) (by decide)
  cases n with
  | none => exact Text.dropWhile_eq_self hstop
  | run more gap =>
    have hbangs : ∀ c ∈ List.replicate (more + 1) '!', decide (c = '!') = true := by
      intro c hc
      simpa using List.eq_of_mem_replicate hc
    rw [text, List.append_assoc, List.dropWhile_append_of_pos hbangs]
    exact Text.dropWhile_eq_self hstop

theorem Negations.length_text (n : Negations) (t : List Char) :
    (n.text ++ t).length - (n.gapText ++ t).length = n.count := by
  cases n with
  | none => simp [text, gapText, count]
  | run more gap => simp [text, gapText, count]

theorem Negations.trimStart_gapText (n : Negations) (hcore : Solid core) :
    Text.trimStart (n.gapText ++ core) = core := by
  refine Text.trimStart_padded ?_ hcore.tight.first
  cases n with
  | none => simp [gapText]
  | run more gap => exact gap.blank

variable (lookup : Lookup) (slots : Slots)

/-- Negations act on the value of what they stand before. -/
theorem operandValue_negations (n : Negations) (hcore : Solid core) :
    operandValue lookup slots (n.text ++ core) =
      (match Quoted.literal? core with
      | some s => .ok (.string (String.ofList s))
      | none =>
        if core.contains '!' then .error (.misplacedNegation (String.ofList (n.text ++ core)))
        else atomValue lookup slots core : Except Cause Value).map n.apply := by
  have hne : (n.text ++ core).isEmpty = false := by
    simpa using fun _ => hcore.tight.ne_nil
  have hcoreNe : core.isEmpty = false := by
    simpa using hcore.tight.ne_nil
  simp only [operandValue]
  rw [(n.tight_text hcore.tight).trim, n.dropWhile_text hcore, n.length_text,
    n.trimStart_gapText hcore, hne, hcoreNe]
  rfl

/-! ### Placeholders -/

theorem slotNumber?_digits (n : Nat) : slotNumber? (Number.digits n) = some n := by
  have hdigits : (Number.digits n).all Char.isDigit = true := by
    simpa using fun c hc => Number.isDigit_of_mem_digits hc
  have hne := Number.digits_ne_nil n
  rw [slotNumber?.eq_def]
  split
  · next ds hplus =>
    rw [hplus] at hdigits
    exact absurd (List.all_eq_true.1 hdigits '+' (by simp)) (by decide)
  · simp [hne, hdigits, Number.digitsValue_digits]

namespace Slots

/-- A placeholder stands for the slot of its number. -/
theorem read?_placeholder (n : Nat) : slots.read? (placeholder n) = slots[n]? := by
  rw [placeholder, List.cons_append, read?]
  simp [numbered?, slotNumber?_digits]

theorem read?_of_wordy (h : Wordy t) : slots.read? t = none := by
  cases t with
  | nil => rfl
  | cons c t =>
    have hc : c ≠ slotMark := by
      rintro rfl
      exact h.noMark (by simp)
    simp [read?, hc]

theorem read?_of_sign (sign : Sign) (t : List Char) :
    slots.read? (Sign.text (some sign) ++ t) = none := by
  cases sign <;> rfl

theorem readSigned?_placeholder (sign : Sign) (n : Nat) :
    slots.readSigned? (Sign.text (some sign) ++ placeholder n) =
      slots[n]?.map (Sign.apply (some sign)) := by
  have htrim : Text.trimStart (placeholder n) = placeholder n := Text.trimStart_of_head rfl
  cases sign <;>
    · simp only [Sign.text, List.cons_append, List.nil_append, readSigned?]
      rw [htrim, read?_placeholder]
      rfl

theorem readSigned?_of_wordy (h : Wordy t) : slots.readSigned? t = none := by
  cases t with
  | nil => rfl
  | cons c t =>
    -- what follows the sign starts with no mark
    have hread : slots.read? (Text.trimStart t) = none := by
      cases hrest : Text.trimStart t with
      | nil => rfl
      | cons d rest =>
        have hmem : d ∈ t := (List.dropWhile_sublist _).subset (by
          rw [← Text.trimStart, hrest]
          simp)
        have hd : d ≠ slotMark := by
          rintro rfl
          exact h.noMark (by simp [hmem])
        simp [read?, hd]
    simp [readSigned?, hread]

/-- A text without marks is shown as it is. -/
theorem render_of_wordy (h : Wordy t) : slots.render t = t := by
  have hpieces : Text.pieces (· = slotMark) t = [t] :=
    Text.pieces_of_forall fun c hc => decide_eq_false fun hmark => h.noMark (hmark ▸ hc)
  rw [render, hpieces]
  rfl

end Slots

/-! ### Atoms -/

theorem tight_of_wordy (h : Wordy t) : Text.Tight t :=
  .of_forall h.ne_nil fun c hc => (isPlain_iff.1 (h.plain c hc)).1

theorem constant?_of_number {x : Float} (h : Number.literalTrimmed? t = some x) :
    constant? t = none := by
  have hall : ∀ t ∈ constantWords, (Number.literalTrimmed? t).isNone = true := by decide
  cases hc : constant? t with
  | none => rfl
  | some v =>
    have hnone := hall t (mem_constantWords hc)
    rw [h] at hnone
    cases hnone

theorem atomValue_of_constant {v : Value} (h : constant? t = some v) :
    atomValue lookup slots t = .ok v := by
  rw [atomValue, slots.read?_of_wordy (wordy_of_constant h), h]

theorem atomValue_of_number {x : Float} (h : Number.literalTrimmed? t = some x) :
    atomValue lookup slots t = .ok (.number x) := by
  have hword := wordy_of_number h
  have hliteral : Number.literal? t = some x := by
    rw [Number.literal?, (tight_of_wordy hword).trim, h]
  rw [atomValue, slots.read?_of_wordy hword, constant?_of_number h, hliteral]

theorem atomValue_of_name (h : IsName t) :
    atomValue lookup slots t =
      unlessUndefined ((Atom.name t h).undefined lookup) ((Atom.name t h).value lookup) := by
  rw [atomValue, slots.read?_of_wordy h.toWordy, h.noConstant, h.noNumber,
    slots.readSigned?_of_wordy h.toWordy, slots.render_of_wordy h.toWordy]
  cases hlookup : lookup (String.ofList t) with
  | some v => simp [Atom.undefined, Atom.value, hlookup, unlessUndefined]
  | none => simp [Atom.undefined, hlookup, unlessUndefined]

theorem literal?_of_plain (h : ∀ c ∈ t, isPlain c = true) : Quoted.literal? t = none := by
  cases t with
  | nil => rfl
  | cons c t => exact Quoted.literal?_of_head (isPlain_iff.1 (h c (by simp))).2.1

/-- The value of an operand without quotes. -/
theorem operandValue_wordy (n : Negations) (hcore : Solid core) (hword : Wordy core) :
    operandValue lookup slots (n.text ++ core) = (atomValue lookup slots core).map n.apply := by
  have hbang : core.contains '!' = false := by
    simpa using hword.noNegation
  rw [operandValue_negations lookup slots n hcore,
    literal?_of_plain hword.plain, hbang]
  rfl

/-- The value of an operand that is an atom. -/
theorem Atom.operandValue_eq (n : Negations) (a : Atom) :
    operandValue lookup slots (n.text ++ a.text) =
      unlessUndefined (a.undefined lookup) (n.apply (a.value lookup)) := by
  -- every kind of atom is found by its own test, as all tests before it fail
  cases a with
  | string q content hquote hclosed =>
    rw [operandValue_negations lookup slots n (Atom.solid _), Atom.text,
      Quoted.literal?_of_closed hquote hclosed]
    rfl
  | number t x h =>
    have hsolid : Solid t := Atom.solid (.number t x h)
    show operandValue lookup slots (n.text ++ t) = _
    rw [operandValue_wordy lookup slots n hsolid (wordy_of_number h),
      atomValue_of_number lookup slots h]
    rfl
  | constant t v h =>
    have hsolid : Solid t := Atom.solid (.constant t v h)
    show operandValue lookup slots (n.text ++ t) = _
    rw [operandValue_wordy lookup slots n hsolid (wordy_of_constant h),
      atomValue_of_constant lookup slots h]
    rfl
  | name t h =>
    have hsolid : Solid t := Atom.solid (.name t h)
    show operandValue lookup slots (n.text ++ t) = _
    rw [operandValue_wordy lookup slots n hsolid h.toWordy, atomValue_of_name lookup slots h,
      unlessUndefined_map]

/-! ### Groups -/

theorem constant?_of_slotMark (h : slotMark ∈ t) : constant? t = none := by
  cases hc : constant? t with
  | none => rfl
  | some v => exact absurd h (wordy_of_constant hc).noMark

theorem atomValue_placeholder (sign : Option Sign) {k : Nat} {v : Value}
    (hk : slots[k]? = some v) :
    atomValue lookup slots (Sign.text sign ++ placeholder k) = .ok (Sign.apply sign v) := by
  have hmark := slotMark_mem_placeholder sign k
  cases sign with
  | none => simp [atomValue, Sign.text, Slots.read?_placeholder, hk, Sign.apply]
  | some sign =>
    have hnumber : Number.literal? (Sign.text (some sign) ++ placeholder k) = none := by
      rw [Number.literal?, (solid_placeholder (some sign) k).tight.trim]
      cases hx : Number.literalTrimmed? (Sign.text (some sign) ++ placeholder k) with
      | none => rfl
      | some x => exact absurd hmark (wordy_of_number hx).noMark
    rw [atomValue, Slots.read?_of_sign, constant?_of_slotMark hmark, hnumber,
      Slots.readSigned?_placeholder, hk]
    rfl

/-- The value of an operand that stands for a group. -/
theorem operandValue_placeholder (n : Negations) (sign : Option Sign) {k : Nat} {v : Value}
    (hk : slots[k]? = some v) :
    operandValue lookup slots (n.text ++ (Sign.text sign ++ placeholder k)) =
      .ok (n.apply (Sign.apply sign v)) := by
  have hchars := isPlain_of_mem_placeholder sign k
  have hbang : (Sign.text sign ++ placeholder k).contains '!' = false := by
    simpa using fun hmem => (hchars '!' hmem).2 rfl
  rw [operandValue_negations lookup slots n (solid_placeholder sign k),
    literal?_of_plain fun c hc => (hchars c hc).1, hbang]
  simp [atomValue_placeholder lookup slots sign hk]
  rfl

end Expr

end LineScript
