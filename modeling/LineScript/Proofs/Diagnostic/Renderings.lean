import LineScript.Diagnostic.Terminal

/-!
# The renderings of a diagnostic

A diagnostic is written in three ways: as plain text, on a terminal without colours, and
on a terminal with colours. The plain text has a line feed before each of its later
parts, a terminal has one after each part.

- `withoutStyles`: a text without its style sequences.
- `Uncolours`: two texts that differ in style sequences only, also in front of any other
  text. Texts without escape characters, styles and their concatenations are such.
- `Diagnostic.render_plain`: without colours a diagnostic is written as its plain text.
- `Diagnostic.uncolours_render`: with colours it has further style sequences only.
- `renderings_agree`: both, and what an emitter writes for a list of diagnostics.
-/

namespace LineScript

/-! ### Style sequences -/

/-- The character that starts a style sequence. -/
def escape : Char := '\x1b'

/-- Whether a character can be among the parameters of a style sequence. -/
def isStyleParameter (c : Char) : Bool :=
  c.isDigit || c = ';'

/-- What follows the style sequence at the start of a text: the escape character, a
bracket, parameters, and an `m`. -/
def afterStyle? : List Char → Option (List Char)
  | c :: '[' :: t =>
    if c = escape then
      match t.dropWhile isStyleParameter with
      | 'm' :: rest => some rest
      | _ => none
    else none
  | _ => none

theorem length_afterStyle? {t rest : List Char} (h : afterStyle? t = some rest) :
    rest.length < t.length := by
  unfold afterStyle? at h
  split at h
  · next c t =>
    split at h
    · split at h
      · next hdrop =>
        obtain rfl := Option.some.inj h
        have hle := (List.dropWhile_suffix isStyleParameter (l := t)).length_le
        rw [hdrop, List.length_cons] at hle
        simp only [List.length_cons]
        omega
      · cases h
    · cases h
  · cases h

/-- A text without its style sequences. -/
def withoutStyles : List Char → List Char
  | [] => []
  | c :: t =>
    match _h : afterStyle? (c :: t) with
    | some rest => withoutStyles rest
    | none => c :: withoutStyles t
termination_by t => t.length
decreasing_by
  · exact length_afterStyle? _h
  · exact Nat.lt_succ_self _

theorem withoutStyles_of_style {t rest : List Char} (h : afterStyle? t = some rest) :
    withoutStyles t = withoutStyles rest := by
  cases t with
  | nil => cases h
  | cons c t =>
    rw [withoutStyles]
    split
    · next rest' h' =>
      obtain rfl := Option.some.inj (h.symm.trans h')
      rfl
    · next h' =>
      rw [h] at h'
      cases h'

theorem withoutStyles_cons {c : Char} (hc : c ≠ escape) (t : List Char) :
    withoutStyles (c :: t) = c :: withoutStyles t := by
  have hnone : afterStyle? (c :: t) = none := by
    unfold afterStyle?
    split
    · next heq =>
      obtain ⟨rfl, -⟩ := List.cons.inj heq
      rw [if_neg hc]
    · rfl
  rw [withoutStyles]
  split
  · next h =>
    rw [hnone] at h
    cases h
  · rfl

/-! ### Texts that differ in style sequences -/

/-- Without its style sequences the one text is the other, whatever text follows. -/
def Uncolours (coloured plain : String) : Prop :=
  ∀ t, withoutStyles (coloured.toList ++ t) = plain.toList ++ withoutStyles t

namespace Uncolours

variable {s t s' t' : String}

theorem append (h : Uncolours s t) (h' : Uncolours s' t') : Uncolours (s ++ s') (t ++ t') := by
  intro rest
  rw [String.toList_append, String.toList_append, List.append_assoc, h, h', List.append_assoc]

/-- A text without escape characters stays as it is. -/
theorem of_not_mem (h : escape ∉ s.toList) : Uncolours s s := by
  intro rest
  generalize s.toList = cs at h
  induction cs with
  | nil => rfl
  | cons c cs ih =>
    obtain ⟨hc, hcs⟩ := not_or.1 fun hmem => h (List.mem_cons.2 hmem)
    rw [List.cons_append, withoutStyles_cons (Ne.symm hc), ih hcs, List.cons_append]

/-- The sequence that turns a style on is one. -/
theorem code (style : Style) : Uncolours style.code "" := by
  intro rest
  cases style <;> exact withoutStyles_of_style rfl

/-- The sequence that turns every style off is one. -/
theorem reset : Uncolours styleReset "" :=
  fun _ => withoutStyles_of_style rfl

/-- A text in a style is that text. -/
theorem paint (style : Style) (h : escape ∉ s.toList) :
    Uncolours (paint true style s) (paint false style s) := by
  have hpainted := ((code style).append (of_not_mem h)).append reset
  rwa [String.empty_append, String.append_empty] at hpainted

theorem join {α : Type} {l : List α} {f g : α → String} (h : ∀ a ∈ l, Uncolours (f a) (g a)) :
    Uncolours (String.join (l.map f)) (String.join (l.map g)) := by
  induction l with
  | nil => exact fun _ => rfl
  | cons a l ih =>
    rw [List.map_cons, List.map_cons, String.join_cons, String.join_cons]
    exact (h a List.mem_cons_self).append (ih fun b hb => h b (List.mem_cons_of_mem a hb))

end Uncolours

namespace Diagnostic

/-! ### With colours -/

/-- The texts of a diagnostic that come from elsewhere: its message, its path, its notes
and its advice. -/
def texts (d : Diagnostic) : List String :=
  d.message :: (d.location.path.toList ++ d.notes ++ d.help)

theorem escape_not_mem_code (code : ErrorCode) : escape ∉ ("[" ++ code.text ++ "]").toList := by
  cases code <;> decide

/-- A place is shown without escape characters if its path has none. -/
theorem escape_not_mem_location {l : Location} (h : ∀ path, l.path = some path → escape ∉ path.toList) :
    escape ∉ l.text.toList := by
  have hdigits : ∀ n : Nat, escape ∉ (toString n).toList := by
    intro n hmem
    rw [Nat.toString_eq_repr, Nat.repr_eq_ofList_toDigits, String.toList_ofList] at hmem
    exact absurd (Nat.isDigit_of_mem_toDigits (by decide) (by decide) hmem) (by decide)
  obtain ⟨path, line⟩ := l
  cases path with
  | none =>
    cases line with
    | none => decide
    | some n =>
      show escape ∉ ("line " ++ toString n).toList
      rw [String.toList_append, List.mem_append, not_or]
      exact ⟨by decide, hdigits n⟩
  | some path =>
    have hpath := h path rfl
    cases line with
    | none => exact hpath
    | some n =>
      show escape ∉ (path ++ ":" ++ toString n).toList
      rw [String.toList_append, String.toList_append, List.mem_append, List.mem_append, not_or,
        not_or]
      exact ⟨⟨hpath, by decide⟩, hdigits n⟩

/-- A line with a label in colours has further style sequences only. -/
theorem uncolours_labelled (style : Style) {label text : String} (hlabel : escape ∉ label.toList)
    (htext : escape ∉ text.toList) :
    Uncolours (labelled true style label text) (labelled false style label text) := by
  have hstart : Uncolours "  = " "  = " := .of_not_mem (by decide)
  have hcolon : Uncolours ": " ": " := .of_not_mem (by decide)
  have hfeed : Uncolours "\n" "\n" := .of_not_mem (by decide)
  unfold labelled
  exact (((hstart.append (.paint style hlabel)).append hcolon).append (.of_not_mem htext)).append
    hfeed

/-- With colours a diagnostic has further style sequences only. -/
theorem uncolours_render {d : Diagnostic} (h : ∀ s ∈ d.texts, escape ∉ s.toList) :
    Uncolours (d.render true) (d.render false) := by
  have hmessage : escape ∉ d.message.toList := h _ List.mem_cons_self
  have hpath : ∀ path, d.location.path = some path → escape ∉ path.toList := by
    intro path hpath
    exact h path (by simp [texts, hpath])
  have hnotes : ∀ s ∈ d.notes, escape ∉ s.toList := fun s hs => h s (by simp [texts, hs])
  have hhelp : ∀ s ∈ d.help, escape ∉ s.toList := fun s hs => h s (by simp [texts, hs])
  have hcolon : Uncolours ": " ": " := .of_not_mem (by decide)
  have hfeed : Uncolours "\n" "\n" := .of_not_mem (by decide)
  have hfirst := ((((Uncolours.paint (s := "error") .red (by decide)).append
    (.paint .bold (escape_not_mem_code d.code))).append hcolon).append
    (.of_not_mem hmessage)).append hfeed
  have hplace : Uncolours
      (if d.location.isKnown then "  --> " ++ paint true .blue d.location.text ++ "\n" else "")
      (if d.location.isKnown then "  --> " ++ paint false .blue d.location.text ++ "\n" else "") := by
    have harrow : Uncolours "  --> " "  --> " := .of_not_mem (by decide)
    split
    · exact (harrow.append (.paint .blue (escape_not_mem_location hpath))).append hfeed
    · exact fun _ => rfl
  unfold render
  exact (((hfirst.append hplace).append (.join fun s hs =>
    uncolours_labelled .cyan (by decide) (hnotes s hs))).append (.join fun s hs =>
    uncolours_labelled .green (by decide) (hhelp s hs))).append hfeed

/-! ### Without colours -/

/-- A line feed before all of some lines that end with one: it stands before each of them
instead, and the last one at the end. -/
theorem feed_join {α : Type} {f g : α → String} (h : ∀ a, "\n" ++ f a = g a ++ "\n")
    (l : List α) :
    "\n" ++ String.join (l.map f) = String.join (l.map g) ++ "\n" := by
  induction l with
  | nil => rfl
  | cons a l ih =>
    rw [List.map_cons, List.map_cons, String.join_cons, String.join_cons]
    calc "\n" ++ (f a ++ String.join (l.map f))
        = g a ++ ("\n" ++ String.join (l.map f)) := by
          rw [← String.append_assoc, h, String.append_assoc]
      _ = g a ++ String.join (l.map g) ++ "\n" := by rw [ih, String.append_assoc]

theorem feed_labelled (style : Style) (label text : String) :
    "\n" ++ labelled false style label text = "\n  = " ++ label ++ ": " ++ text ++ "\n" := by
  have hstart : "\n  = " = "\n" ++ "  = " := rfl
  rw [hstart]
  simp only [labelled, paint, Bool.false_eq_true, if_false, String.append_assoc]

/-- Without colours a diagnostic is written as its plain text and a blank line. -/
theorem render_plain (d : Diagnostic) : d.render false = d.text ++ "\n\n" := by
  let first := "error[" ++ d.code.text ++ "]: " ++ d.message
  let place := if d.location.isKnown then "\n  --> " ++ d.location.text else ""
  let placeLine := if d.location.isKnown then "  --> " ++ d.location.text ++ "\n" else ""
  let notes := String.join (d.notes.map ("\n  = note: " ++ ·))
  let noteLines := String.join (d.notes.map (labelled false .cyan "note"))
  let help := String.join (d.help.map ("\n  = help: " ++ ·))
  let helpLines := String.join (d.help.map (labelled false .green "help"))
  have hfirst : "error" ++ ("[" ++ d.code.text ++ "]") ++ ": " ++ d.message = first := by
    have hopen : "error[" = "error" ++ "[" := rfl
    have hclose : "]: " = "]" ++ ": " := rfl
    simp only [first, hopen, hclose, String.append_assoc]
  have hplace : "\n" ++ placeLine = place ++ "\n" := by
    have harrow : "\n  --> " = "\n" ++ "  --> " := rfl
    simp only [placeLine, place]
    split
    · simp only [harrow, String.append_assoc]
    · rfl
  have hnotes : "\n" ++ noteLines = notes ++ "\n" :=
    feed_join (feed_labelled .cyan "note") d.notes
  have hhelp : "\n" ++ helpLines = help ++ "\n" :=
    feed_join (feed_labelled .green "help") d.help
  -- the line feed behind the first line moves behind all others
  have hmove : ∀ {s lines t : String}, "\n" ++ lines = t ++ "\n" →
      s ++ "\n" ++ lines = s ++ t ++ "\n" := by
    intro s lines t h
    rw [String.append_assoc, h, String.append_assoc]
  calc d.render false
      = first ++ "\n" ++ placeLine ++ noteLines ++ helpLines ++ "\n" := by rw [← hfirst]; rfl
    _ = first ++ place ++ "\n" ++ noteLines ++ helpLines ++ "\n" := by rw [hmove hplace]
    _ = first ++ place ++ notes ++ "\n" ++ helpLines ++ "\n" := by rw [hmove hnotes]
    _ = first ++ place ++ notes ++ help ++ "\n" ++ "\n" := by rw [hmove hhelp]
    _ = d.text ++ "\n\n" := String.append_assoc

end Diagnostic

/-! ### Several diagnostics -/

/-- What an emitter has written after a list of diagnostics. -/
theorem Emitter.written_foldl_emit (e : Emitter) (ds : List Diagnostic) :
    (ds.foldl Emitter.emit e).written = e.written ++ String.join (ds.map (·.render e.colors)) := by
  induction ds generalizing e with
  | nil => exact String.append_empty.symm
  | cons d ds ih =>
    rw [List.foldl_cons, ih, List.map_cons, String.join_cons]
    exact String.append_assoc

/-- The renderings of a diagnostic agree. Without colours, a terminal shows its plain text
and a blank line. With colours, it shows the same and further style sequences, provided
that no text of the diagnostic has an escape character. So a list of diagnostics that is
emitted without colours is written as their plain texts with a blank line after each. -/
theorem renderings_agree :
    (∀ d : Diagnostic, d.render false = d.text ++ "\n\n") ∧
    (∀ d : Diagnostic, (∀ s ∈ d.texts, escape ∉ s.toList) →
      withoutStyles (d.render true).toList = (d.render false).toList) ∧
    ∀ ds : List Diagnostic, (ds.foldl Emitter.emit (.new false)).written =
      String.join (ds.map fun d => d.text ++ "\n\n") := by
  refine ⟨Diagnostic.render_plain, fun d h => ?_, fun ds => ?_⟩
  · have hrest := Diagnostic.uncolours_render h []
    rwa [List.append_nil, withoutStyles, List.append_nil] at hrest
  · rw [Emitter.written_foldl_emit]
    show "" ++ String.join (ds.map (·.render false)) = _
    rw [String.empty_append, funext Diagnostic.render_plain]

/-- A diagnostic with a place, a note and advice. -/
def undeclaredTotal : Diagnostic :=
  ⟨.e2001, "ReferenceError: total is not defined", ⟨some "sum.qc", some 12⟩,
    ["in sum called at line 20"], ["declare total before using it"]⟩

/-- Its coloured rendering is another one, and shows the same. -/
theorem undeclaredTotal_renderings :
    (∀ s ∈ undeclaredTotal.texts, escape ∉ s.toList) ∧
      undeclaredTotal.render true ≠ undeclaredTotal.render false ∧
      withoutStyles (undeclaredTotal.render true).toList =
        ("error[E2001]: ReferenceError: total is not defined\n  --> sum.qc:12\n" ++
          "  = note: in sum called at line 20\n  = help: declare total before using it\n\n").toList := by
  have htexts : ∀ s ∈ undeclaredTotal.texts, escape ∉ s.toList := by decide +kernel
  obtain ⟨-, hcoloured, -⟩ := renderings_agree
  refine ⟨htexts, by decide +kernel, ?_⟩
  rw [hcoloured undeclaredTotal htexts]
  decide +kernel

end LineScript
