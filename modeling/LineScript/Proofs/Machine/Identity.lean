import LineScript.Proofs.Expr.HandsOn
import LineScript.Proofs.Machine.HandedOn

/-!
# The identity of functions

Functions are compared by their identities. In a session no identity is given twice, over all
programs, so functions that are strictly equal are the same in every respect, and what is made
at two moments differs, also if it is written alike.

- `Continues`: a session goes on from one moment to another.
- `Config.Identified`: at a moment functions are told apart by their identities.
- `Session.exists_makes`: every function was made by a line of the session.
- `Session.holds_of_continues`: a function that is held later was held before, or its identity
  is newer.
- `function_identity`: what strict equality says of functions, and how they are handed on.
-/

namespace LineScript

/-! ### Later moments of a session -/

/-- A session goes on from one moment to the other, in steps and with further programs. -/
inductive Continues : Config → Config → Prop where
  | refl (c : Config) : Continues c c
  | step {c d : Config} (h : Continues c d) : Continues c d.step
  | next {c : Config} {m : Interpreter} {r : Except Stop Outcome}
      (h : Continues c (.ended [] r m.state)) (p : Program) : Continues c (m.start p)

theorem Continues.of_reaches {c d : Config} (h : Reaches c d) : Continues c d :=
  h.invariant (fun _ h => h.step) (.refl c)

/-- No identity is given back later. -/
theorem Continues.nextId_le {c d : Config} (h : Continues c d) :
    c.state.nextId ≤ d.state.nextId := by
  induction h with
  | refl => exact Nat.le_refl _
  | @step d _ ih => exact Nat.le_trans ih d.nextId_le_step
  | next _ p ih => exact ih

/-- When a program begins, the functions that are bound are held. -/
theorem Interpreter.holds_start_iff {m : Interpreter} {p : Program} {f : Function} :
    (m.start p).Holds f ↔ m.state.env.Binds f := by
  constructor
  · intro h
    cases h with
    | bound h => exact h
    | given h => cases h
    | printed h => exact Config.binds_of_printed h
  · intro h
    exact .bound h

/-! ### Functions are told apart -/

namespace Config

variable {c : Config} {f g : Function}

/-- A moment makes one function at most. -/
theorem Makes.unique (hf : c.Makes f) (hg : c.Makes g) : f = g := by
  cases hf with
  | line hi hdefines hmade =>
    cases hg with
    | line hi' hdefines' hmade' =>
      obtain rfl := Option.some.inj (hi.symm.trans hi')
      obtain rfl := Option.some.inj (hdefines.header.symm.trans hdefines'.header)
      have hsame := (Prod.mk.inj (hmade.symm.trans hmade')).1
      exact (Prod.mk.inj (Except.ok.inj hsame)).1

/-- The functions of a moment have identities that were given before, each its own. -/
structure Identified (c : Config) : Prop where
  below : ∀ f, c.Holds f → f.id < c.state.nextId
  unique : ∀ f g, c.Holds f → c.Holds g → f.id = g.id → f = g

/-- A function that a step makes has an identity of its own. -/
theorem Identified.step (honward : ∀ w ∈ c.outer, w.pending.Onward) (h : c.Identified) :
    c.step.Identified := by
  have hmakes : ∀ {f g}, c.Makes f → c.Holds g → f.id ≠ g.id := by
    intro f g hf hg
    have hlt := h.below g hg
    rw [← hf.id_eq] at hlt
    exact Ne.symm (Nat.ne_of_lt hlt)
  constructor
  · intro f hf
    obtain hf | hf := holds_step honward hf
    · exact Nat.lt_of_lt_of_le (h.below f hf) c.nextId_le_step
    · rw [hf.id_eq]
      exact hf.nextId_lt
  · intro f g hf hg hid
    obtain hf | hf := holds_step honward hf
    · obtain hg | hg := holds_step honward hg
      · exact h.unique f g hf hg hid
      · exact absurd hid.symm (hmakes hg hf)
    · obtain hg | hg := holds_step honward hg
      · exact absurd hid (hmakes hf hg)
      · exact hf.unique hg

end Config

namespace Session

variable {limit : Nat} {sink : Sink} {allowed : Config → Prop} {c d : Config} {f g : Function}

/-- The lines that wait at a moment of a session go on in their calls. -/
theorem onward (h : Session limit sink allowed c) : ∀ w ∈ c.outer, w.pending.Onward := by
  induction h with
  | first p => exact nofun
  | @step c _ _ ih => exact onward_step c ih
  | next _ p ih => exact nofun

/-- Before anything has run there are no functions. -/
theorem not_holds_first (p : Program) : ¬ ((Interpreter.new limit sink []).start p).Holds f := by
  intro hf
  have hnone : (Interpreter.initialState limit sink).env.AllValues
      (Value.OfFunction fun _ => False) :=
    Environment.allValues_initialState Value.ofFunction_of_type limit sink
  exact Environment.allValues_ofFunction_iff.1 hnone f (Interpreter.holds_start_iff.1 hf)

theorem identified (h : Session limit sink allowed c) : c.Identified := by
  induction h with
  | first p =>
    exact ⟨fun f hf => absurd hf (not_holds_first p), fun f g hf => absurd hf (not_holds_first p)⟩
  | step h _ ih => exact ih.step h.onward
  | @next m r _ p ih =>
    have hbound : ∀ f, (m.start p).Holds f → (Config.ended [] r m.state).Holds f :=
      fun f hf => .bound (Interpreter.holds_start_iff.1 hf)
    exact ⟨fun f hf => ih.below f (hbound f hf),
      fun f g hf hg => ih.unique f g (hbound f hf) (hbound g hg)⟩

/-- Every function that is held was made by a line of the session. -/
theorem exists_makes (h : Session limit sink allowed c) (hf : c.Holds f) :
    ∃ d, Session limit sink allowed d ∧ d.Makes f ∧ Continues d.step c := by
  induction h with
  | first p => exact absurd hf (not_holds_first p)
  | @step c h _ ih =>
    obtain hf | hf := Config.holds_step h.onward hf
    · obtain ⟨d, hd, hmakes, hcontinues⟩ := ih hf
      exact ⟨d, hd, hmakes, hcontinues.step⟩
    · exact ⟨c, h, hf, .refl _⟩
  | @next m r _ p ih =>
    obtain ⟨d, hd, hmakes, hcontinues⟩ := ih (.bound (Interpreter.holds_start_iff.1 hf))
    exact ⟨d, hd, hmakes, hcontinues.next p⟩

/-- A session goes on with all its later moments. -/
theorem of_continues (h : Session limit sink (fun _ => True) c) (hcontinues : Continues c d) :
    Session limit sink (fun _ => True) d := by
  induction hcontinues with
  | refl => exact h
  | step _ ih => exact ih.step trivial
  | next _ p ih => exact ih.next p

/-- A function that is held later was held before, or its identity was given since. -/
theorem holds_of_continues (h : Session limit sink (fun _ => True) c)
    (hcontinues : Continues c d) (hg : d.Holds g) : c.Holds g ∨ c.state.nextId ≤ g.id := by
  induction hcontinues with
  | refl => exact .inl hg
  | @step d hcontinues ih =>
    obtain hg | hg := Config.holds_step (h.of_continues hcontinues).onward hg
    · exact ih hg
    · rw [hg.id_eq]
      exact .inr hcontinues.nextId_le
  | next _ p ih => exact ih (.bound (Interpreter.holds_start_iff.1 hg))

/-- Functions of a session that have one identity are the same. -/
theorem eq_of_id_eq (h : Session limit sink (fun _ => True) c) (hcontinues : Continues c d)
    (hf : c.Holds f) (hg : d.Holds g) (hid : f.id = g.id) : f = g := by
  obtain hg | hnew := h.holds_of_continues hcontinues hg
  · exact h.identified.unique f g hf hg hid
  · have hold := h.identified.below f hf
    omega

end Session

theorem Value.strictEquals_function_iff {f g : Function} :
    (Value.function f).strictEquals (.function g) = true ↔ f.id = g.id :=
  beq_iff_eq

/-- **The identity of functions.** In a session, every function that is bound, given back or
printed was made by a line that defines it. Two such functions, of one moment or of two, are
strictly equal exactly if they are the same: in name, parameters and body. What lines make at
two moments is never strictly equal. A declaration, an assignment, a call and the return from
a call hand a function on unchanged, and the expressions that do so are those that have it as
their value: names, groups and logical operators. -/
theorem function_identity (limit : Nat) (sink : Sink) :
    (∀ c f, Session limit sink (fun _ => True) c → c.Holds f →
      ∃ d, Session limit sink (fun _ => True) d ∧ d.Makes f ∧ Continues d.step c) ∧
    (∀ c d f g, Session limit sink (fun _ => True) c → Continues c d → c.Holds f → d.Holds g →
      ((Value.function f).strictEquals (.function g) = true ↔ f = g)) ∧
    (∀ (c d : Config) f g, c.Makes f → Continues c.step d → d.Makes g →
      (Value.function f).strictEquals (.function g) = false) ∧
    (∀ c f scope id constant, Session limit sink (fun _ => True) c →
      c.HandsTo (.function f) scope id constant →
        c.step.state.env.find? scope id = some ⟨.function f, constant⟩) ∧
    (∀ b index i outer s f, Session limit sink (fun _ => True) (.running b index outer s) →
      Returning b index i s (.function f) → s.calls.calls ≠ [] →
        ∃ w rest u, callers outer = w :: rest ∧
          Leads (Config.running b index outer s).step
            (.ended (w :: rest) (.ok (.returned (.function f))) u)) ∧
    ∀ (lookup : Expr.Lookup) (e : Expr.Formula 0) (lead trail : Expr.Gap) f, e.Legible →
      (Expr.evaluate lookup (String.ofList (lead.text ++ e.text ++ trail.text)) =
        .ok (.function f) ↔ e.HandsOn lookup f) := by
  refine ⟨fun c f h hf => h.exists_makes hf, fun c d f g h hcontinues hf hg => ?_,
    fun c d f g hf hcontinues hg => ?_, fun c f scope id constant h hgives =>
      h.find?_of_handsTo hgives, fun b index i outer s f h hreturning hcalls =>
      h.leads_to_caller hreturning hcalls, fun lookup e lead trail f h =>
      Expr.Formula.evaluate_eq_function_iff h lead trail⟩
  · rw [Value.strictEquals_function_iff]
    constructor
    · exact h.eq_of_id_eq hcontinues hf hg
    · rintro rfl
      rfl
  · -- the identity that is next at the later moment is greater
    have hlt : f.id < g.id := by
      rw [hf.id_eq, hg.id_eq]
      exact Nat.lt_of_lt_of_le hf.nextId_lt hcontinues.nextId_le
    exact beq_false_of_ne (Nat.ne_of_lt hlt)

/-! ### A function that is made twice -/

/-- A function that makes a function of the same text in every call, and two calls of it. -/
def madeTwice : List Instruction :=
  [⟨"FUNC make", 1⟩, ⟨"FUNC inner x", 2⟩, ⟨"END", 3⟩, ⟨"RET (inner) || true", 4⟩, ⟨"END", 5⟩,
    ⟨"DECLARE a = CALL make", 6⟩, ⟨"DECLARE b = CALL make", 7⟩]

/-- The function that `madeTwice` calls. -/
def maker : Function :=
  ⟨0, some "make", [], [⟨"FUNC inner x", 2⟩, ⟨"END", 3⟩, ⟨"RET (inner) || true", 4⟩]⟩

/-- The functions that its calls make. -/
def innerFunction (id : Nat) : Function :=
  ⟨id, some "inner", ["x"], []⟩

/-- The binding of such a function. -/
def innerBinding (name : String) (id : Nat) : String × Binding :=
  (name, ⟨.function (innerFunction id), false⟩)

/-- The root frame of `madeTwice` with more names. -/
def makerRoot (names : Bindings) : Frame :=
  ⟨names ++ [("make", ⟨.function maker, false⟩), ("std", ⟨.std 0, true⟩)], none⟩

/-- A line of `madeTwice` that waits for a call. -/
def makerCaller (index : Nat) (name : Char) : Suspended :=
  ⟨.root madeTwice 0, index, index + 1, .call maker 1 0 (some ⟨[name], false⟩) .next⟩

/-- A state within a call that a line of `madeTwice` makes. -/
def makerState (names own : Bindings) (line steps nextId : Nat) : State where
  env := ⟨#[makerRoot names, ⟨own, some 0⟩]⟩
  calls := ⟨[⟨"make", some line⟩], 10⟩
  sink := .silent
  clock := ⟨#[], steps⟩
  nextId := nextId

/-- The first call makes a function. -/
def firstMaking : Config :=
  .running (.root maker.body 1) 0 [makerCaller 5 'a'] (makerState [] [] 6 2 1)

/-- The first call returns it. -/
def firstReturning : Config :=
  .running (.root maker.body 1) 2 [makerCaller 5 'a']
    (makerState [] [innerBinding "inner" 1] 6 3 2)

/-- The body of the first call has ended. -/
def firstReturned : Config :=
  .ended [makerCaller 5 'a'] (.ok (.returned (.function (innerFunction 1))))
    (makerState [] [innerBinding "inner" 1] 6 4 2)

/-- The second call makes a function. -/
def secondMaking : Config :=
  .running (.root maker.body 1) 0 [makerCaller 6 'b'] (makerState [innerBinding "a" 1] [] 7 5 2)

/-- The body of the second call has ended. -/
def secondReturned : Config :=
  .ended [makerCaller 6 'b'] (.ok (.returned (.function (innerFunction 2))))
    (makerState [innerBinding "a" 1] [innerBinding "inner" 2] 7 7 3)

/-- Both functions are bound. -/
def bothBound : Config :=
  .running (.root madeTwice 0) 7 []
    ⟨⟨#[makerRoot [innerBinding "a" 1, innerBinding "b" 2]]⟩, ⟨[], 10⟩, .silent, ⟨#[], 7⟩, 3⟩

/-- The formula `(inner) || true`. -/
def innerOrTrue : Expr.Formula 0 :=
  .binary ⟨.or, "||".toList, rfl, .space, .space⟩ (Nat.zero_le _)
    (.group .none none .empty
      (.atom .none (.name "inner".toList
        ⟨⟨by decide, List.all_eq_true.1 (by decide), by decide, by decide⟩, rfl, rfl, rfl⟩))
      .empty)
    (.atom .none (.constant "true".toList (.boolean true) rfl))

/-- The calls of `madeTwice` make functions that are written alike, and they are not strictly
equal. Each is strictly equal to itself from where it is returned, through a group and a
disjunction, to where it is bound. -/
theorem madeTwice_identity :
    (∃ d : Config, d.Makes (innerFunction 1) ∧ Continues d.step bothBound) ∧
    firstMaking.Makes (innerFunction 1) ∧ Continues firstMaking.step secondMaking ∧
    secondMaking.Makes (innerFunction 2) ∧
    (Value.function (innerFunction 1)).strictEquals (.function (innerFunction 2)) = false ∧
    firstReturned.Holds (innerFunction 1) ∧ Continues firstReturned bothBound ∧
    bothBound.Holds (innerFunction 1) ∧ bothBound.Holds (innerFunction 2) ∧
    (Value.function (innerFunction 1)).strictEquals (.function (innerFunction 1)) = true ∧
    firstReturned.HandsTo (.function (innerFunction 1)) 0 "a" false ∧
    firstReturned.step.state.env.find? 0 "a" = some ⟨.function (innerFunction 1), false⟩ ∧
    (∃ u, Leads firstReturning.step
      (.ended [makerCaller 5 'a'] (.ok (.returned (.function (innerFunction 1)))) u)) ∧
    innerOrTrue.Legible ∧
    Expr.evaluate (firstReturning.state.lookup 1) "(inner) || true" =
      .ok (.function (innerFunction 1)) := by
  obtain ⟨hmade, hequal, hdiffer, hgiven, hreturned, hexpr⟩ := function_identity 10 .silent
  -- the moments of the session
  have hfirst : Reaches ((Interpreter.new 10 .silent []).start ⟨madeTwice⟩) firstMaking := ⟨3, rfl⟩
  have hreturning : Reaches firstMaking.step firstReturning := ⟨1, rfl⟩
  have hended : Reaches firstReturning firstReturned := ⟨2, rfl⟩
  have hsecond : Reaches firstReturned secondMaking := ⟨3, rfl⟩
  have hended' : Reaches secondMaking secondReturned := ⟨4, rfl⟩
  have hlast : Reaches secondReturned bothBound := ⟨2, rfl⟩
  have hbound := hsecond.trans (hended'.trans hlast)
  have h₁ : Session 10 .silent (fun _ => True) firstMaking := (Session.first _).of_reaches hfirst
  have h₂ : Session 10 .silent (fun _ => True) firstReturning :=
    (h₁.step trivial).of_reaches hreturning
  have h₃ : Session 10 .silent (fun _ => True) firstReturned := h₂.of_reaches hended
  have h₄ : Session 10 .silent (fun _ => True) bothBound := h₃.of_reaches hbound
  -- both functions come from the same text
  have hdefines : Instruction.Defines ⟨"FUNC inner x", 2⟩ "inner x".toList := ⟨rfl, nofun⟩
  have hmakes : firstMaking.Makes (innerFunction 1) := .line rfl hdefines rfl
  have hmakes' : secondMaking.Makes (innerFunction 2) := .line rfl hdefines rfl
  have hcontinues : Continues firstMaking.step secondMaking :=
    .of_reaches (hreturning.trans (hended.trans hsecond))
  have hholds : firstReturned.Holds (innerFunction 1) := .given rfl
  have hholds₁ : bothBound.Holds (innerFunction 1) := .bound ⟨0, "a", false, by decide⟩
  have hholds₂ : bothBound.Holds (innerFunction 2) := .bound ⟨0, "b", false, by decide⟩
  have hgives : firstReturned.HandsTo (.function (innerFunction 1)) 0 "a" false :=
    @Config.HandsTo.result _ (makerCaller 5 'a') [] _ maker 1 0 ⟨['a'], false⟩ .next rfl
      fun _ => nofun
  have hlegible : innerOrTrue.Legible := by decide
  have hvalue := (hexpr (firstReturning.state.lookup 1) innerOrTrue .empty .empty
    (innerFunction 1) hlegible).2 (.orLeft rfl (.group rfl (.name rfl rfl)) rfl)
  obtain ⟨d, -, hd, hdcontinues⟩ := hmade _ _ h₄ hholds₁
  obtain ⟨w, rest, u, hcallers, hleads⟩ :=
    hreturned _ _ ⟨"RET (inner) || true", 4⟩ _ _ (innerFunction 1) h₂ ⟨rfl, rfl, hvalue⟩ nofun
  obtain ⟨rfl, rfl⟩ := List.cons.inj hcallers
  exact ⟨⟨d, hd, hdcontinues⟩, hmakes, hcontinues, hmakes',
    hdiffer _ _ _ _ hmakes hcontinues hmakes', hholds, .of_reaches hbound, hholds₁, hholds₂,
    (hequal _ _ _ _ h₃ (.of_reaches hbound) hholds hholds₁).2 rfl, hgives,
    hgiven _ _ _ _ _ h₃ hgives, ⟨u, hleads⟩, hlegible, hvalue⟩

end LineScript
