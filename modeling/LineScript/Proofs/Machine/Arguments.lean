import LineScript.Proofs.Expr.Groups
import LineScript.Proofs.Keyword.Standard
import LineScript.Proofs.Machine.Scopes
import LineScript.Proofs.Text.Arguments

/-!
# Arguments of calls

A call evaluates one argument for each parameter, in the scope of the caller, before
anything is made for the call. Then the parameters are bound in a new frame, each to the
value at its position.

- `argumentValues_apply`: the values of the arguments, undefined for those that are missing.
- `Environment.own?_bindAll`: of several bindings of a name, the last one stays.
- `callLine`: the line that calls a function by name with expressions in parentheses.
- `BodyBegins`: the state in which the body of a called function begins.
- `dispatch_callLine`: what such a line does up to the body.
-/

namespace LineScript

/-! ### The values of the arguments -/

/-- The first `n` values at least: undefined takes the place of those that are missing. -/
def padded (n : Nat) (values : List Value) : List Value :=
  values ++ List.replicate (n - values.length) .undefined

theorem padded_cons (n : Nat) (v : Value) (values : List Value) :
    padded (n + 1) (v :: values) = v :: padded n values := by
  simp [padded]

theorem getElem?_padded {n j : Nat} (hj : j < n) (values : List Value) :
    (padded n values)[j]? = some (values[j]?.getD .undefined) := by
  rw [padded, List.getElem?_append]
  split
  · next hlt => simp [hlt]
  · next hge =>
    have hrest : j - values.length < n - values.length := by omega
    rw [List.getElem?_replicate, if_pos hrest, List.getElem?_eq_none (Nat.not_lt.1 hge)]
    rfl

/-- One argument is evaluated for each parameter, in order and in the scope of the caller; the
state stays as it is. -/
theorem argumentValues_apply (caller : ScopeId) (params args : List String) (s : State) :
    argumentValues caller params args s =
      Exec.ofExcept (((args.take params.length).mapM (Expr.evaluate (s.lookup caller))).map
        (padded params.length)) s := by
  induction params generalizing args with
  | nil => rfl
  | cons param params ih =>
    cases args with
    | nil =>
      have hrest := ih []
      rw [List.take_nil] at hrest
      exact Exec.bind_of_ok hrest
    | cons arg args =>
      rw [argumentValues, Exec.bind_apply, Exec.evaluate, List.length_cons, List.take_succ_cons,
        List.mapM_cons]
      cases Expr.evaluate (s.lookup caller) arg with
      | error cause => rfl
      | ok v =>
        show (argumentValues caller params args >>= _) s = _
        rw [Exec.bind_apply, ih]
        cases (args.take params.length).mapM (Expr.evaluate (s.lookup caller)) with
        | error cause => rfl
        | ok values =>
          show _ = Exec.ofExcept (.ok (padded (params.length + 1) (v :: values))) s
          rw [padded_cons]
          rfl

/-! ### Binding the parameters -/

namespace Environment

variable (env : Environment) {scope : ScopeId}

/-- A name that is not among the bound ones stays as it is. -/
theorem own?_bindAll_of_not_mem (ps : List (String × Value)) {id : String}
    (hid : ∀ p ∈ ps, p.1 ≠ id) : (env.bindAll scope ps).own? scope id = env.own? scope id := by
  induction ps generalizing env with
  | nil => rfl
  | cons p ps ih =>
    obtain ⟨hp, hps⟩ := List.forall_mem_cons.1 hid
    exact (ih _ hps).trans (own?_declare_of_ne env (.inr (Ne.symm hp)) _)

/-- Of several bindings of a name, the last one stays. -/
theorem own?_bindAll (hlive : scope < env.depth) (ps : List (String × Value)) {j : Nat}
    {id : String} {v : Value} (hj : ps[j]? = some (id, v))
    (hlast : ∀ k p, j < k → ps[k]? = some p → p.1 ≠ id) :
    (env.bindAll scope ps).own? scope id = some ⟨v, false⟩ := by
  induction ps generalizing env j with
  | nil => cases hj
  | cons p ps ih =>
    cases j with
    | zero =>
      obtain rfl := Option.some.inj hj
      have hrest : ∀ q ∈ ps, q.1 ≠ id := by
        intro q hq
        obtain ⟨k, hk⟩ := List.mem_iff_getElem?.1 hq
        exact hlast (k + 1) q (Nat.succ_pos k) hk
      exact (own?_bindAll_of_not_mem _ ps hrest).trans (own?_declare_self env hlive id _)
    | succ j =>
      refine ih (env.declare scope p.1 ⟨p.2, false⟩) (by rwa [depth_declare]) hj ?_
      intro k q hk hq
      exact hlast (k + 1) q (Nat.succ_lt_succ hk) hq

end Environment

/-! ### The line of a call -/

/-- The line that calls the function `name` with the expressions `es`, each in parentheses. -/
def callLine (name : String) (es : List (List Char)) (line : Nat) : Instruction :=
  ⟨String.ofList (callKeyword.toList ++ ' ' :: Text.separated name.toList (es.map Text.grouped)),
    line⟩

section

variable {name : String} {es : List (List Char)}

theorem keyword_callLine (line : Nat) : (callLine name es line).keyword = callKeyword := by
  rw [Instruction.keyword, callLine, String.toList_ofList]
  rfl

theorem argument_of_name (hname : isIdentifier name.toList = true)
    (hplain : ∀ c ∈ name.toList, Quoted.isQuote c = false ∧ c ≠ '(' ∧ c ≠ ')') :
    Text.Argument name.toList := by
  simp only [isIdentifier, Bool.and_eq_true, Bool.not_eq_true', List.isEmpty_eq_false_iff,
    List.any_eq_false, Bool.not_eq_true] at hname
  exact .word hname.1 fun c hc => ⟨hname.2 c hc, hplain c hc⟩

theorem operandChars_callLine (hname : Text.Argument name.toList)
    (hes : ∀ e ∈ es, Text.Whole e) (line : Nat) :
    (callLine name es line).operandChars =
      Text.separated name.toList (es.map Text.grouped) := by
  have hgroups : ∀ t ∈ es.map Text.grouped, Text.Tight t := by
    intro t ht
    obtain ⟨e, he, rfl⟩ := List.mem_map.1 ht
    exact (Text.Argument.group (hes e he)).tight
  have hpadded := (Text.tight_separated hname.tight hgroups).trim_padded (p := [' ']) (q := [])
    (List.forall_mem_singleton.2 rfl) (by simp)
  rw [List.append_nil] at hpadded
  rw [Instruction.operandChars, callLine, String.toList_ofList]
  exact hpadded

/-- The operand of the line is the name and the expressions in parentheses. -/
theorem splitArguments_callLine (hname : Text.Argument name.toList)
    (hes : ∀ e ∈ es, Text.Whole e) (line : Nat) :
    Expr.splitArguments (callLine name es line).operandChars =
      .ok (name.toList :: es.map Text.grouped) := by
  have hgroups : ∀ t ∈ es.map Text.grouped, Text.Argument t := by
    intro t ht
    obtain ⟨e, he, rfl⟩ := List.mem_map.1 ht
    exact .group (hes e he)
  rw [operandChars_callLine hname hes, Expr.splitArguments,
    Text.arguments_separated hname hgroups]
  rfl

/-- An expression in parentheses has the value of the expression. -/
theorem evaluate_grouped (lookup : Expr.Lookup) {e : List Char} (hne : Text.trim e ≠ [])
    (hwhole : Text.Whole e) :
    Expr.evaluate lookup (String.ofList (Text.grouped e)) =
      Expr.evaluate lookup (String.ofList e) := by
  have haround := Expr.Pair.evaluate_around lookup ⟨.empty, .empty, .empty, .empty⟩ hwhole hne
  simpa [Expr.Pair.around, Expr.Gap.empty, Text.grouped] using haround

theorem mapM_evaluate_grouped (lookup : Expr.Lookup) (n : Nat)
    (hes : ∀ e ∈ es, Text.trim e ≠ [] ∧ Text.Whole e) :
    (((es.map Text.grouped).map String.ofList).take n).mapM (Expr.evaluate lookup) =
      (es.take n).mapM fun e => Expr.evaluate lookup (String.ofList e) := by
  induction es generalizing n with
  | nil => simp
  | cons e es ih =>
    obtain ⟨⟨hne, hwhole⟩, hes⟩ := List.forall_mem_cons.1 hes
    cases n with
    | zero => rfl
    | succ n =>
      simp only [List.map_cons, List.take_succ_cons, List.mapM_cons, evaluate_grouped lookup hne
        hwhole, ih n hes]

end

/-! ### Up to the body -/

/-- The state `t` in which the body of `f` begins when a line of the scope `caller` calls it in
the state `s` with the values `values`: one more call, and one more frame, a child of `caller`
in which every parameter is a variable with the value at its last position, or undefined. -/
structure BodyBegins (s : State) (caller : ScopeId) (f : Function) (line : Nat)
    (values : List Value) (t : State) : Prop where
  depth : t.env.depth = s.env.depth + 1
  parent : t.env.parent? s.env.depth = some caller
  parents : ∀ k < s.env.depth, t.env.parent? k = s.env.parent? k
  others : ∀ k, k ≠ s.env.depth → t.env.bindings k = s.env.bindings k
  bound : ∀ j id, f.params[j]? = some id → (∀ k : Nat, j < k → f.params[k]? ≠ some id) →
    t.env.own? s.env.depth id = some ⟨values[j]?.getD .undefined, false⟩
  unbound : ∀ id, id ∉ f.params → t.env.own? s.env.depth id = none
  calls : t.calls = ⟨⟨f.label, some line⟩ :: s.calls.calls, s.calls.limit⟩
  clock : t.clock = s.clock.tick
  sink : t.sink = s.sink
  nextId : t.nextId = s.nextId

/-- The state in which a call enters the body. -/
def State.entered (s : State) (caller : ScopeId) (f : Function) (line : Nat)
    (values : List Value) : State :=
  { s with
    calls := ⟨⟨f.label, some line⟩ :: s.calls.calls, s.calls.limit⟩
    env := (s.env.child caller).2.bindAll s.env.depth
      (f.params.zip (padded f.params.length values)) }

theorem bodyBegins_entered (s : State) (caller : ScopeId) (f : Function) (line : Nat)
    (values : List Value) :
    BodyBegins s caller f line values (s.ticked.entered caller f line values) := by
  let ps := f.params.zip (padded f.params.length values)
  have hlength : (padded f.params.length values).length ≥ f.params.length := by
    simp only [padded, List.length_append, List.length_replicate]
    omega
  have hnames : ps.map Prod.fst = f.params := List.map_fst_zip hlength
  have hparents : ((s.env.child caller).2.bindAll s.env.depth ps).parents =
      s.env.parents ++ [some caller] := by
    rw [Environment.parents_bindAll, Environment.parents_child]
  have hempty : ∀ id, (s.env.child caller).2.own? s.env.depth id = none := by
    intro id
    rw [Environment.own?, Environment.bindings_child]
    exact s.env.own?_of_not_live (Nat.le_refl _) id
  have hlive : s.env.depth < (s.env.child caller).2.depth := by
    rw [Environment.depth_child]
    exact Nat.lt_succ_self _
  exact {
    depth := by
      have hlengths := congrArg List.length hparents
      rw [Environment.length_parents, List.length_append, Environment.length_parents] at hlengths
      exact hlengths
    parent := Environment.parent?_newest hparents
    parents := fun k hk => Environment.parent?_below hparents hk
    others := fun k hk =>
      (Environment.bindings_bindAll_of_ne _ hk ps).trans (s.env.bindings_child caller k)
    bound := by
      intro j id hj hlast
      have hj' : ps[j]? = some (id, values[j]?.getD .undefined) := by
        obtain ⟨hlt, -⟩ := List.getElem?_eq_some_iff.1 hj
        exact List.getElem?_zip_eq_some.2 ⟨hj, getElem?_padded hlt values⟩
      refine Environment.own?_bindAll _ hlive ps hj' fun k p hk hp hid => hlast k hk ?_
      rw [← hnames, List.getElem?_map, hp, ← hid]
      rfl
    unbound := by
      intro id hid
      refine (Environment.own?_bindAll_of_not_mem _ ps fun p hp hpid => hid ?_).trans (hempty id)
      rw [← hnames, ← hpid]
      exact List.mem_map_of_mem hp
    calls := rfl
    clock := rfl
    sink := rfl
    nextId := rfl }

/-- A call line of a function that is bound evaluates the arguments and enters the call. -/
theorem beginLine_callLine {s : State} {b : Block} {f : Function} {constant : Bool}
    {name : String} {es : List (List Char)} (hname : Text.Argument name.toList)
    (hcallee : inlineHeader? name.toList = none)
    (hf : s.env.find? b.scope name = some ⟨.function f, constant⟩)
    (hes : ∀ e ∈ es, Text.trim e ≠ [] ∧ Text.Whole e) (index line : Nat) :
    beginLine standardTable b index (callLine name es line) s =
      (do
        let values ← Exec.ofExcept ((es.take f.params.length).mapM fun e =>
          Expr.evaluate (s.lookup b.scope) (String.ofList e))
        enterCall ⟨b, index, (callLine name es line).operand, line⟩ f
          (padded f.params.length values) none .next : Exec Entry) s.ticked := by
  let inv : Invocation := ⟨b, index, (callLine name es line).operand, line⟩
  have hfind : standardTable.find? (callLine name es line).keyword = some (.builtin .call) := by
    rw [keyword_callLine, find?_standardTable]
    exact ⟨.call, by decide, rfl⟩
  have hbegin : beginLine standardTable b index (callLine name es line) s =
      beginCall inv inv.operand.toList none s.ticked := by
    have htick : Exec.tick s = (.ok (), s.ticked) := rfl
    simp only [beginLine, hfind, Handler.begin, Builtin.begin]
    rw [Exec.bind_of_ok htick]
    rfl
  have hsplit : Expr.splitArguments inv.operand.toList =
      .ok (name.toList :: es.map Text.grouped) := by
    rw [← splitArguments_callLine hname (fun e he => (hes e he).2) line]
    exact congrArg Expr.splitArguments (Instruction.toList_operand _)
  -- the clock does not matter to what a name is bound to
  have hresolve : resolveCallee inv name.toList s.ticked = (.ok (f, .next), s.ticked) := by
    have hlookup : lookupFunction inv.scope name s.ticked = (.ok f, s.ticked) := by
      have hbound : s.ticked.env.find? inv.scope name = some ⟨.function f, constant⟩ := hf
      simp only [lookupFunction, Exec.bind_apply, Exec.get, hbound]
      rfl
    rw [resolveCallee, hcallee, String.ofList_toList]
    exact Exec.bind_of_ok hlookup
  rw [hbegin, beginCall, hsplit, Exec.ofExcept_ok, pure_bind]
  show (resolveCallee inv name.toList >>= _) s.ticked = _
  rw [Exec.bind_of_ok hresolve]
  show (argumentValues inv.scope f.params ((es.map Text.grouped).map String.ofList) >>= _)
    s.ticked = _
  have hscope : s.ticked.lookup inv.scope = s.lookup b.scope := rfl
  rw [Exec.bind_apply, Exec.bind_apply, argumentValues_apply, mapM_evaluate_grouped _ _ hes,
    hscope]
  cases (es.take f.params.length).mapM fun e =>
    Expr.evaluate (s.lookup b.scope) (String.ofList e) with
  | error cause => rfl
  | ok values => rfl

/-- **Calls bind arguments by position.** A line that calls, by its name, a function with `m`
parameters evaluates the first `m` of the expressions, in order and in the scope of the line.
Of the others it takes no notice. If one of the expressions fails, the call fails with the
first such error and nothing has been made for it; if the limit of nested calls is reached,
likewise. Otherwise the body begins in a child of the scope, with the values of the
expressions bound to the parameters by position. -/
theorem dispatch_callLine {s : State} {b : Block} {f : Function} {constant : Bool}
    {name : String} {es : List (List Char)} (hname : isIdentifier name.toList = true)
    (hplain : ∀ c ∈ name.toList, Quoted.isQuote c = false ∧ c ≠ '(' ∧ c ≠ ')')
    (hf : s.env.find? b.scope name = some ⟨.function f, constant⟩)
    (hes : ∀ e ∈ es, Text.trim e ≠ [] ∧ Text.Whole e) (index line : Nat) :
    (∀ cause, ((es.take f.params.length).mapM fun e =>
        Expr.evaluate (s.lookup b.scope) (String.ofList e)) = .error cause →
      ∀ runner, dispatch standardTable runner b index (callLine name es line) s =
        (.error (.failed (.ofCause cause)), s.ticked)) ∧
    (∀ values, ((es.take f.params.length).mapM fun e =>
        Expr.evaluate (s.lookup b.scope) (String.ofList e)) = .ok values →
      (s.calls.limit ≤ s.calls.depth →
        ∀ runner, dispatch standardTable runner b index (callLine name es line) s =
          (.error (.failed (.ofCause (.callDepthExceeded s.calls.limit))), s.ticked)) ∧
      (s.calls.depth < s.calls.limit →
        ∃ t, BodyBegins s b.scope f line values t ∧
          ∀ runner, dispatch standardTable runner b index (callLine name es line) s =
            Entry.complete runner (.opens (.root f.body s.env.depth)
              (.call f s.env.depth b.scope none .next)) t)) := by
  have hcallee : inlineHeader? name.toList = none := by
    cases htext : name.toList with
    | nil => rfl
    | cons c rest =>
      have hc : c ≠ '(' := (hplain c (by simp [htext])).2.1
      rw [inlineHeader?]
      rintro rest ⟨⟩
      exact hc rfl
  have hbegin := beginLine_callLine (argument_of_name hname hplain) hcallee hf hes index line
  refine ⟨fun cause hvalues runner => ?_, fun values hvalues => ⟨fun hlimit runner => ?_,
    fun hlimit => ⟨s.ticked.entered b.scope f line values,
      bodyBegins_entered s b.scope f line values, fun runner => ?_⟩⟩⟩
  · rw [hvalues] at hbegin
    rw [dispatch_eq, Exec.bind_of_error hbegin]
  · have hpush : s.ticked.calls.push ⟨f.label, some line⟩ =
        .error (.callDepthExceeded s.calls.limit) :=
      CallStack.push_eq_error_iff.2 ⟨hlimit, rfl⟩
    rw [hvalues, Exec.ofExcept_ok, pure_bind, enterCall, hpush] at hbegin
    rw [dispatch_eq, Exec.bind_of_error hbegin]
  · have hpush : s.ticked.calls.push ⟨f.label, some line⟩ =
        .ok ⟨⟨f.label, some line⟩ :: s.calls.calls, s.calls.limit⟩ :=
      CallStack.push_eq_ok_iff.2 ⟨hlimit, rfl⟩
    rw [hvalues, Exec.ofExcept_ok, pure_bind, enterCall, hpush] at hbegin
    rw [dispatch_eq, Exec.bind_of_ok hbegin]
    rfl

/-- A function whose first and last parameters have one name. -/
def pairFunction : Function :=
  ⟨0, some "pair", ["x", "y", "x"], []⟩

/-- A state in which `pair` is the only name of a script, and one call may be active. -/
def pairState : State :=
  let s := Interpreter.initialState 1 .silent
  { s with env := s.env.declare Environment.root "pair" ⟨.function pairFunction, false⟩ }

/-- With four expressions the last one, which would fail, is not evaluated, and the repeated
name has the third value; with the failing one in front the call fails. -/
theorem dispatch_callLine_pair :
    isIdentifier "pair".toList = true ∧
      (∀ c ∈ "pair".toList, Quoted.isQuote c = false ∧ c ≠ '(' ∧ c ≠ ')') ∧
      pairState.env.find? Environment.root "pair" = some ⟨.function pairFunction, false⟩ ∧
      (∀ e ∈ ["true".toList, "\x22(\x22".toList, "!true".toList, "missing".toList],
        Text.trim e ≠ [] ∧ Text.Whole e) ∧
      (∃ t, t.env.own? 1 "x" = some ⟨.boolean false, false⟩ ∧
        t.env.own? 1 "y" = some ⟨.string "(", false⟩ ∧
        ∀ runner, dispatch standardTable runner (.root [] Environment.root) 0
          (callLine "pair" ["true".toList, "\x22(\x22".toList, "!true".toList, "missing".toList] 7)
          pairState =
            Entry.complete runner (.opens (.root [] 1)
              (.call pairFunction 1 Environment.root none .next)) t) ∧
      ∀ runner, dispatch standardTable runner (.root [] Environment.root) 0
        (callLine "pair" ["missing".toList, "true".toList] 7) pairState =
          (.error (.failed (.ofCause (.undefinedVariable "missing"))), pairState.ticked) := by
  have hplain : ∀ c ∈ "pair".toList, Quoted.isQuote c = false ∧ c ≠ '(' ∧ c ≠ ')' := by
    simp [Quoted.isQuote]
  have hes : ∀ e ∈ ["true".toList, "\x22(\x22".toList, "!true".toList, "missing".toList],
      Text.trim e ≠ [] ∧ Text.Whole e := by
    simp only [List.forall_mem_cons, List.not_mem_nil, false_imp_iff, implies_true, and_true]
    exact ⟨⟨by decide, rfl, rfl⟩, ⟨by decide, rfl, rfl⟩, ⟨by decide, rfl, rfl⟩, by decide, rfl, rfl⟩
  have hfails : ∀ e ∈ ["missing".toList, "true".toList], Text.trim e ≠ [] ∧ Text.Whole e := by
    simp only [List.forall_mem_cons, List.not_mem_nil, false_imp_iff, implies_true, and_true]
    exact ⟨⟨by decide, rfl, rfl⟩, by decide, rfl, rfl⟩
  -- no parameter follows the third one, and only that one the second
  have hx : ∀ k : Nat, 2 < k → pairFunction.params[k]? ≠ some "x" := by
    intro k hk h
    obtain ⟨hlt, -⟩ := List.getElem?_eq_some_iff.1 h
    exact absurd hlt (Nat.not_lt.2 hk)
  have hy : ∀ k : Nat, 1 < k → pairFunction.params[k]? ≠ some "y" := by
    intro k hk h
    obtain ⟨hlt, -⟩ := List.getElem?_eq_some_iff.1 h
    obtain rfl : k = 2 := Nat.le_antisymm (Nat.le_of_lt_succ hlt) hk
    exact absurd h (by decide)
  refine ⟨by decide, hplain, rfl, hes, ?_, ?_⟩
  · obtain ⟨t, hbegins, hrun⟩ := ((dispatch_callLine (s := pairState)
      (b := .root [] Environment.root) (f := pairFunction) (by decide) hplain rfl hes 0 7).2
      [.boolean true, .string "(", .boolean false] rfl).2 (by decide)
    exact ⟨t, hbegins.bound 2 "x" rfl hx, hbegins.bound 1 "y" rfl hy, hrun⟩
  · exact (dispatch_callLine (s := pairState) (b := .root [] Environment.root)
      (f := pairFunction) (by decide) hplain rfl hfails 0 7).1 _ rfl

end LineScript
