import LineScript.Proofs.Machine.Sessions

/-!
# Runs are confined to the chain of their scope

A block may bind names in its own scope and give variables of the frames above it
new values. It touches no other frame, and the frames of its branches and calls are
gone when these have ended.

- `Environment.Confined`: what a block may do to the bindings of the frames.
- `Opens.confined_close`: a block within a line is confined when its line is.
- `confined_runRelation`: every run of a block is confined.
- `Opens.owner?_resume`: what is seen after a block within a line.
- `runBlock_confined_to_chain`: both for every run.
-/

namespace LineScript

namespace Environment

/-- What a block of `scope` may do to the bindings of the frames. -/
structure Confined (scope : ScopeId) (env env' : Environment) : Prop where
  /-- The live frames are the same ones, each with its parent. -/
  parents : env'.parents = env.parents
  /-- A frame that is neither the scope nor above it keeps all its bindings. -/
  outside : ∀ k, k ≠ scope → ¬env.Ancestor scope k → env'.bindings k = env.bindings k
  /-- A frame above binds exactly the names that it bound before. -/
  names : ∀ k, env.Ancestor scope k → ∀ id, (env'.own? k id).isSome = (env.own? k id).isSome
  /-- A constant of a frame above stays as it is. -/
  constants : ∀ k, env.Ancestor scope k → ∀ id b, env.own? k id = some b → b.constant = true →
    env'.own? k id = some b
  /-- The scope binds all names that it bound before. -/
  grows : ∀ id, (env.own? scope id).isSome → (env'.own? scope id).isSome

namespace Confined

variable {scope : ScopeId} {env env' env'' : Environment}

theorem refl (scope : ScopeId) (env : Environment) : Confined scope env env where
  parents := rfl
  outside _ _ _ := rfl
  names _ _ _ := rfl
  constants _ _ _ _ h _ := h
  grows _ h := h

theorem trans (h : Confined scope env env') (h' : Confined scope env' env'') :
    Confined scope env env'' := by
  have habove : ∀ {k}, env.Ancestor scope k → env'.Ancestor scope k := .of_parents h.parents
  constructor
  · exact h'.parents.trans h.parents
  · intro k hk ha
    have ha' : ¬env'.Ancestor scope k := fun h' => ha (.of_parents h.parents.symm h')
    rw [h'.outside k hk ha', h.outside k hk ha]
  · intro k ha id
    rw [h'.names k (habove ha), h.names k ha]
  · intro k ha id b hb hconstant
    exact h'.constants k (habove ha) id b (h.constants k ha id b hb hconstant) hconstant
  · intro id hb
    exact h'.grows id (h.grows id hb)

/-- A declaration in the scope touches only the scope. -/
theorem declare (hr : env.Ranked) (scope : ScopeId) (id : String) (b : Binding) :
    Confined scope env (env.declare scope id b) := by
  have habove : ∀ {k}, env.Ancestor scope k → k ≠ scope := fun ha => Nat.ne_of_lt (ha.lt hr)
  constructor
  · exact parents_declare env scope id b
  · intro k hk _
    exact bindings_declare_of_ne env hk id b
  · intro k ha id'
    rw [own?_declare_of_ne env (.inl (habove ha))]
  · intro k ha id' b' hb' _
    rwa [own?_declare_of_ne env (.inl (habove ha))]
  · intro id' hb'
    exact isSome_own?_declare env id id' b hb'

/-- Giving a variable that is seen from the scope another value touches only the frame
that binds it, and there only that variable. -/
theorem rebind {id : String} {f : Binding → Binding} {old : Binding}
    (hold : env.find? scope id = some old) (hvariable : old.constant = false)
    (h : env.rebind? scope id f = some env') : Confined scope env env' := by
  obtain ⟨owner, old', howner, hown, hfind, rfl⟩ := rebind?_eq_some h
  obtain rfl : old' = old := Option.some.inj (hfind.symm.trans hold)
  obtain ⟨-, hchain⟩ := owner?_cases howner
  have hnames : ∀ k id', (env.own? k id').isSome →
      ((env.declare owner id (f old')).own? k id').isSome :=
    fun k id' hb => isSome_own?_declare env id id' _ hb
  constructor
  · exact parents_declare env owner id _
  · intro k hk ha
    have hne : k ≠ owner := by
      rintro rfl
      exact hchain.elim hk ha
    exact bindings_declare_of_ne env hne id _
  · intro k ha id'
    by_cases hsame : k = owner ∧ id' = id
    · obtain ⟨rfl, rfl⟩ := hsame
      rw [hown, own?_declare_self env (lt_depth_of_own? env hown)]
      rfl
    · rw [own?_declare_of_ne env (Classical.not_and_iff_not_or_not.1 hsame)]
  · intro k ha id' b hb hconstant
    by_cases hsame : k = owner ∧ id' = id
    · -- the name that is written is a variable
      obtain ⟨rfl, rfl⟩ := hsame
      obtain rfl := Option.some.inj (hb.symm.trans hown)
      rw [hvariable] at hconstant
      cases hconstant
    · rwa [own?_declare_of_ne env (Classical.not_and_iff_not_or_not.1 hsame)]
  · exact hnames scope

/-- Every other frame than the scope binds the same names as before. -/
theorem isSome_own? (h : Confined scope env env') {k : ScopeId} (hk : k ≠ scope) (id : String) :
    (env'.own? k id).isSome = (env.own? k id).isSome := by
  by_cases ha : env.Ancestor scope k
  · exact h.names k ha id
  · rw [own?, own?, h.outside k hk ha]

end Confined

end Environment

open Environment

/-! ### The block of a line -/

section

variable {inv : Invocation} {s t u : State} {inner : Block} {p : Pending}

/-- Entering a block binds names in its new frame only. -/
theorem Opens.bindings_eq (ho : Opens inv s inner p t) {k : ScopeId} (hk : k ≠ inner.scope) :
    t.env.bindings k = s.env.bindings k := by
  rw [ho.stacks.1] at hk
  cases ho with
  | branch => exact bindings_child s.env _ k
  | call => exact (bindings_bindAll_of_ne _ hk _).trans (bindings_child s.env _ k)

/-- Closing a block releases the frames that were made since it was entered. -/
theorem Opens.env_close (ho : Opens inv s inner p t) :
    (p.close u).env = u.env.release inner.scope := by
  cases ho with
  | branch | call => rfl

/-- When the block of a line is confined to the chain of its own scope, then from
before it was entered until it is closed the line is confined to its chain. -/
theorem Opens.confined_close (ho : Opens inv s inner p t) (hr : s.env.Ranked)
    (hlive : inv.scope < s.env.depth) (h : Confined inner.scope t.env u.env) :
    Confined inv.scope s.env (p.close u).env := by
  obtain ⟨hinner, htop⟩ := ho.stacks
  have hparents := ho.parents_close (Nat.zero_lt_of_lt hlive) h.parents
  have hdepth : (p.close u).env.depth = s.env.depth := depth_of_parents hparents
  -- the frames from before the block are kept, and entering it has not touched them
  have hkept : ∀ k < s.env.depth, (p.close u).env.bindings k = u.env.bindings k := by
    intro k hk
    rw [ho.env_close, hinner]
    exact bindings_release _ (Nat.lt_of_lt_of_le hk (Nat.le_max_left _ _))
  have hentered : ∀ k < s.env.depth, t.env.bindings k = s.env.bindings k := by
    intro k hk
    exact ho.bindings_eq (hinner ▸ Nat.ne_of_lt hk)
  have hown : ∀ k < s.env.depth, ∀ id, (p.close u).env.own? k id = u.env.own? k id ∧
      t.env.own? k id = s.env.own? k id := by
    intro k hk id
    rw [own?, own?, own?, own?, hkept k hk, hentered k hk]
    exact ⟨rfl, rfl⟩
  -- above the block are the line's scope and all that is above it
  have habove : ∀ k, k = inv.scope ∨ s.env.Ancestor inv.scope k ↔
      t.env.Ancestor inner.scope k := by
    intro k
    rw [hinner]
    exact ⟨ancestor_newest htop, of_ancestor_newest htop hr hlive⟩
  have hbelow : ∀ {k}, s.env.Ancestor inv.scope k → k < s.env.depth :=
    fun ha => Nat.lt_trans (ha.lt hr) hlive
  constructor
  · exact hparents
  · intro k hk ha
    by_cases hlt : k < s.env.depth
    · have ha' : ¬t.env.Ancestor inner.scope k :=
        fun h => ((habove k).2 h).elim hk ha
      rw [hkept k hlt, h.outside k (hinner ▸ Nat.ne_of_lt hlt) ha', hentered k hlt]
    · have hdead : s.env.depth ≤ k := Nat.not_lt.1 hlt
      rw [bindings_of_not_live _ hdead, bindings_of_not_live _ (hdepth ▸ hdead)]
  · intro k ha id
    obtain ⟨hu, ht⟩ := hown k (hbelow ha) id
    rw [hu, h.names k ((habove k).1 (.inr ha)), ht]
  · intro k ha id b hb hconstant
    obtain ⟨hu, ht⟩ := hown k (hbelow ha) id
    rw [hu]
    exact h.constants k ((habove k).1 (.inr ha)) id b (ht.trans hb) hconstant
  · intro id hb
    obtain ⟨hu, ht⟩ := hown inv.scope hlive id
    rw [hu, h.names inv.scope ((habove _).1 (.inl rfl)), ht]
    exact hb

end

/-! ### Every run -/

/-- A block of a live scope keeps the environment one that can come about, and is
confined to the chain of the scope. -/
def KeepsConfined (scope : ScopeId) (env env' : Environment) : Prop :=
  env.Reachable → scope < env.depth → env'.Reachable ∧ Confined scope env env'

theorem KeepsConfined.steady (scope : ScopeId) :
    Steady scope fun s t => KeepsConfined scope s.env t.env := by
  refine .ofEnv (fun env h _ => ⟨h, .refl scope env⟩) ?_ ?_ ?_
  · intro env env' env'' h h' hr hlive
    obtain ⟨hr', hconfined⟩ := h hr hlive
    have hlive' : scope < env'.depth := by rwa [depth_of_parents hconfined.parents]
    obtain ⟨hr'', hconfined'⟩ := h' hr' hlive'
    exact ⟨hr'', hconfined.trans hconfined'⟩
  · intro env id b hr _
    exact ⟨hr.declare scope id b, .declare hr.ranked scope id b⟩
  · intro env env' id f b hold hvariable henv hr _
    exact ⟨hr.rebind? henv, .rebind hold hvariable henv⟩

theorem confined_runRelation : RunRelation fun scope s t => KeepsConfined scope s.env t.env where
  steady := KeepsConfined.steady
  block := by
    intro inv s t u inner p ho h hr hlive
    obtain ⟨hr', hconfined⟩ := h (ho.reachable hlive hr) ho.scope_lt
    exact ⟨p.reachable_close hr', ho.confined_close hr.ranked hlive hconfined⟩

/-! ### What is seen after a block -/

/-- A declaration changes nothing about where another name is bound. -/
theorem Environment.owner?_declare_of_ne {env : Environment} (hr : env.Ranked) (scope : ScopeId)
    {id id' : String} (h : id' ≠ id) (b : Binding) {k : ScopeId} (hlive : k < env.depth) :
    (env.declare scope id b).owner? k id' = env.owner? k id' := by
  refine owner?_congr hr (Nat.le_refl _) (Nat.le_of_eq (depth_declare env scope id b).symm) ?_ ?_
    hlive
  · intro k _
    exact parent?_of_parents (parents_declare env scope id b) k
  · intro k _
    rw [own?_declare_of_ne env (.inr h)]

/-- When a confined block is closed, every name is bound where it was when the block
began, as seen from any frame that was there before. -/
theorem Opens.owner?_close {inv : Invocation} {s t u : State} {inner : Block} {p : Pending}
    (ho : Opens inv s inner p t) (hr : s.env.Reachable) (hlive : inv.scope < s.env.depth)
    (h : Confined inner.scope t.env u.env) {k : ScopeId} (hk : k < s.env.depth) (id : String) :
    (p.close u).env.owner? k id = t.env.owner? k id := by
  obtain ⟨hinner, htop⟩ := ho.stacks
  have hparents := ho.parents_close (Nat.zero_lt_of_lt hlive) h.parents
  have hdepth : t.env.depth = s.env.depth + 1 := by
    rw [← length_parents, htop]
    simp
  refine owner?_congr (ho.reachable hlive hr).ranked (hdepth ▸ Nat.le_succ _) ?_ ?_ ?_ hk
  · exact Nat.le_of_eq (depth_of_parents hparents).symm
  · intro k hk
    rw [parent?_of_parents hparents, parent?_below htop hk]
  · intro k hk
    have hne : k ≠ inner.scope := hinner ▸ Nat.ne_of_lt hk
    rw [own?, ho.env_close, bindings_release _ (Nat.lt_of_lt_of_le (hinner ▸ hk)
      (Nat.le_max_left _ _)), ← own?, h.isSome_own? hne]

/-- After a line whose block was confined, the frame of the block is not live, and every
name apart from the target of a declaration is bound where it was when the block began. -/
theorem Opens.owner?_resume {inv : Invocation} {s t u : State} {inner : Block} {p : Pending}
    (ho : Opens inv s inner p t) (hr : s.env.Reachable) (hlive : inv.scope < s.env.depth)
    (h : Confined inner.scope t.env u.env) (hu : u.env.Reachable) (r : Except Stop Outcome) :
    (p.resume r u).2.env.isLive inner.scope = false ∧
      ∀ k id, k < s.env.depth → (∀ target, p.target? = some target → id ≠ String.ofList target.id) →
        (p.resume r u).2.env.owner? k id = t.env.owner? k id := by
  have hclosed := ho.confined_close hr.ranked hlive h
  have hdepth : (p.close u).env.depth = s.env.depth := depth_of_parents hclosed.parents
  have hbound := ho.resume_bound r u
  constructor
  · have hresumed := hbound.sameStacks.depth
    rw [isLive, hresumed, hdepth, ho.stacks.1]
    exact decide_eq_false (Nat.lt_irrefl _)
  · intro k id hk hid
    rw [← ho.owner?_close hr hlive h hk id]
    generalize (p.resume r u).2 = v at hbound ⊢
    cases hbound with
    | nothing => rfl
    | bound ht _ =>
      exact owner?_declare_of_ne (p.reachable_close hu).ranked inv.scope (hid _ ht) _ (hdepth ▸ hk)

/-- **Runs are confined to the chain of their scope.** When a block is run in a live
scope of an environment that can come about, then however the run ends every frame
that is neither the scope nor above it has the bindings that it had, the frames above
bind the names that they bound and keep their constants, and the scope binds no fewer
names. After a line with a block, the frame of the block is not live, and apart from
the target of a declaration every name is seen from where it was seen when the block
began. All lines of a session are in such scopes. -/
theorem runBlock_confined_to_chain :
    (∀ (fuel : Nat) (b : Block) (s t : State) (r : Except Stop Outcome),
      s.env.Reachable → s.env.isLive b.scope = true →
        runBlock standardTable fuel b 0 s = (r, t) → Confined b.scope s.env t.env) ∧
    (∀ (fuel : Nat) (b : Block) (index : Nat) (i : Instruction) (s t u : State) (inner : Block)
      (p : Pending) (r : Except Stop Outcome),
      s.env.Reachable → s.env.isLive b.scope = true →
        beginLine standardTable b index i s = (.ok (.opens inner p), t) →
        runBlock standardTable fuel inner 0 t = (r, u) →
          dispatch standardTable (nestedRunner standardTable fuel) b index i s = p.resume r u ∧
          (p.resume r u).2.env.isLive inner.scope = false ∧
          ∀ k id, s.env.isLive k = true →
            (∀ target, i.declared? = some target → id ≠ String.ofList target.id) →
              (p.resume r u).2.env.owner? k id = t.env.owner? k id) ∧
    (∀ (limit : Nat) (sink : Sink) (b : Block) (index : Nat) (outer : List Suspended) (s : State),
      Session limit sink (fun _ => True) (.running b index outer s) →
        s.env.Reachable ∧ s.env.isLive b.scope = true) := by
  have hrun : ∀ (fuel : Nat) (b : Block) (s t : State) (r : Except Stop Outcome),
      runBlock standardTable fuel b 0 s = (r, t) → KeepsConfined b.scope s.env t.env := by
    intro fuel b s t r h
    have hkeeps := runBlock_related confined_runRelation fuel b 0 s
    rwa [h] at hkeeps
  refine ⟨?_, ?_, ?_⟩
  · intro fuel b s t r hr hlive h
    exact (hrun fuel b s t r h hr (of_decide_eq_true hlive)).2
  · intro fuel b index i s t u inner p r hr hlive hbegin h
    have hbegun := beginLine_does b index i s
    rw [hbegin] at hbegun
    cases hbegun with
    | @opens _ _ s' _ hdoes ho htarget =>
      -- what the line does itself comes before it enters the block
      have hst := hdoes.sameStacks
      obtain ⟨hr', -⟩ := (KeepsConfined.steady b.scope).does hdoes hr (of_decide_eq_true hlive)
      have hlive' : b.scope < s'.env.depth := hst.depth ▸ of_decide_eq_true hlive
      obtain ⟨hu, hconfined⟩ := hrun fuel inner t u r h (ho.reachable hlive' hr') ho.scope_lt
      obtain ⟨hgone, hseen⟩ := ho.owner?_resume hr' hlive' hconfined hu r
      rw [htarget] at hseen
      refine ⟨?_, hgone, ?_⟩
      · rw [dispatch_of_begun, hbegin]
        simp only [nestedRunner, h]
      · intro k id hk hid
        exact hseen k id (hst.depth ▸ of_decide_eq_true hk) hid
  · intro limit sink b index outer s h
    exact ⟨h.reachable, h.scope_live⟩

/-- The root frame binds the variable `x`, beside the host object. Of its two children
the first one binds a constant of the same name. -/
def twoChildren : State :=
  { Interpreter.initialState 10 .silent with
    env := (((((Interpreter.initialState 10 .silent).env.declare root "x"
      ⟨.boolean false, false⟩).child root).2.declare 1 "x" ⟨.std 0, true⟩).child root).2 }

/-- A branch that defines a function and calls it; the function assigns to `x`. -/
def assigningCall : List Instruction :=
  [⟨"IF true", 1⟩, ⟨"FUNC f a", 2⟩, ⟨"ASSIGN x true", 3⟩, ⟨"END", 4⟩, ⟨"CALL f", 5⟩, ⟨"END", 6⟩]

/-- The state in which the branch of `assigningCall` begins, in the second child. -/
def branchBegins : State :=
  { twoChildren with env := (twoChildren.env.child 2).2, clock := twoChildren.clock.tick }

/-- From the second child `assigningCall` reaches the variable of the root frame, and
not the constant of the first child. The function is not seen after the branch. -/
theorem assigningCall_confined :
    twoChildren.env.Reachable ∧ twoChildren.env.isLive 2 = true ∧
    (∃ t, runBlock standardTable 20 (.root assigningCall 2) 0 twoChildren = (.ok .completed, t) ∧
      Confined 2 twoChildren.env t.env ∧
      t.env.own? root "x" = some ⟨.boolean true, false⟩ ∧
      t.env.own? 1 "x" = some ⟨.std 0, true⟩) ∧
    (∃ u, beginLine standardTable (.root assigningCall 2) 0 ⟨"IF true", 1⟩ twoChildren =
        (.ok (.opens ((Block.root assigningCall 2).branch 1 5 3) (.branch 3 6)), branchBegins) ∧
      runBlock standardTable 20 ((Block.root assigningCall 2).branch 1 5 3) 0 branchBegins =
        (.ok .completed, u) ∧
      u.env.owner? 3 "f" = some 3 ∧
      ((Pending.branch 3 6).resume (.ok .completed) u).2.env.owner? 2 "f" = none) ∧
    ∃ s, Session 10 .silent (fun _ => True) (.running (.root assigningCall root) 0 [] s) ∧
      s.env.isLive root = true := by
  obtain ⟨hconfined, hline, hsession⟩ := runBlock_confined_to_chain
  have hreach : twoChildren.env.Reachable := by
    have hroot := (Reachable.initialState 10 .silent).declare root "x" ⟨.boolean false, false⟩
    exact ((hroot.child Nat.one_pos).declare 1 "x" _).child Nat.two_pos
  have hlive : twoChildren.env.isLive 2 = true := rfl
  have hbegins : beginLine standardTable (.root assigningCall 2) 0 ⟨"IF true", 1⟩ twoChildren =
      (.ok (.opens ((Block.root assigningCall 2).branch 1 5 3) (.branch 3 6)), branchBegins) := rfl
  -- the two runs are evaluated; what they leave are instances of the theorem
  obtain ⟨t, hrun, hx⟩ : ∃ t, runBlock standardTable 20 (.root assigningCall 2) 0 twoChildren =
      (.ok .completed, t) ∧ t.env.own? root "x" = some ⟨.boolean true, false⟩ := by
    have hdone : (runBlock standardTable 20 (.root assigningCall 2) 0 twoChildren).1 =
        .ok .completed := rfl
    exact ⟨_, Prod.ext hdone rfl, rfl⟩
  obtain ⟨u, hbranch, hf⟩ : ∃ u, runBlock standardTable 20
      ((Block.root assigningCall 2).branch 1 5 3) 0 branchBegins = (.ok .completed, u) ∧
        u.env.owner? 3 "f" = some 3 := by
    have hdone : (runBlock standardTable 20 ((Block.root assigningCall 2).branch 1 5 3) 0
        branchBegins).1 = .ok .completed := rfl
    exact ⟨_, Prod.ext hdone rfl, rfl⟩
  have hchain := hconfined 20 _ _ t _ hreach hlive hrun
  obtain ⟨-, -, hseen⟩ := hline 20 _ 0 _ _ _ u _ _ _ hreach hlive hbegins hbranch
  refine ⟨hreach, hlive, ⟨t, hrun, hchain, hx, ?_⟩, ⟨u, hbegins, hbranch, hf, ?_⟩, ?_⟩
  · -- the scope and the other frame are both children of the root
    have haside : ¬twoChildren.env.Ancestor 2 1 := by
      intro h
      cases h with
      | parent h => cases h
      | next h h' =>
        obtain rfl := Option.some.inj h
        cases h' with
        | parent h => cases h
        | next h _ => cases h
    rw [own?, hchain.outside 1 (by decide) haside]
    rfl
  · have hother : ∀ target, Instruction.declared? ⟨"IF true", 1⟩ = some target →
        "f" ≠ String.ofList target.id := by
      intro target htarget
      cases htarget
    rw [hseen 2 "f" rfl hother]
    rfl
  · exact ⟨_, .first ⟨assigningCall⟩, (hsession 10 .silent _ 0 [] _ (.first ⟨assigningCall⟩)).2⟩

end LineScript
