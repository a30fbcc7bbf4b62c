import LineScript.Proofs.Machine.Stacks

/-!
# Frames and the names that are seen from them

A name is seen from a frame when the frame or one of its ancestors binds it. So what
is seen from where follows from the parents of the frames and the names that each
frame binds itself.

- `Environment.own?`: the binding of a name in one frame, and what each operation
  does to it.
- `Environment.Ancestor`: the frames above a frame.
- `Environment.Ranked`, `Reachable`: a parent is older than its children, in every
  environment that can come about.
- `Environment.owner?_cases`, `owner?_congr`: where a seen name is bound.
- `Environment.strays_eq_false`: a search from a live frame goes through live frames.
-/

namespace LineScript

/-! ### One frame -/

namespace Bindings

theorem find?_cons (id k : String) (c : Binding) (rest : Bindings) :
    find? id ((k, c) :: rest) = if id = k then some c else find? id rest := by
  rw [find?, List.lookup_cons]
  by_cases h : id = k
  · rw [if_pos h, beq_iff_eq.2 h]
  · rw [if_neg h, beq_eq_false_iff_ne.2 h]
    rfl

/-- An insertion binds the one name, and leaves every other one as it is. -/
theorem find?_insert (id : String) (b : Binding) (bs : Bindings) (id' : String) :
    (insert id b bs).find? id' = if id' = id then some b else bs.find? id' := by
  induction bs with
  | nil => exact find?_cons id' id b []
  | cons p rest ih =>
    obtain ⟨k, c⟩ := p
    rw [insert]
    split
    · exact find?_cons id' id b _
    · split
      · next hk =>
        rw [find?_cons, find?_cons, hk]
        split
        · rfl
        · rfl
      · next hk =>
        rw [find?_cons, find?_cons, ih]
        by_cases h : id' = k
        · rw [if_pos h, if_pos h, if_neg (h ▸ Ne.symm hk)]
        · rw [if_neg h, if_neg h]

end Bindings

namespace Environment

/-- The binding of a name in a frame itself. -/
def own? (env : Environment) (scope : ScopeId) (id : String) : Option Binding :=
  (env.bindings scope).find? id

section

variable (env : Environment)

theorem bindings_of_not_live {scope : ScopeId} (h : env.depth ≤ scope) :
    env.bindings scope = [] := by
  rw [bindings, Array.getElem?_eq_none h]
  rfl

theorem own?_of_not_live {scope : ScopeId} (h : env.depth ≤ scope) (id : String) :
    env.own? scope id = none := by
  rw [own?, bindings_of_not_live env h]
  rfl

/-- A frame that binds a name is live. -/
theorem lt_depth_of_own? {scope : ScopeId} {id : String} {b : Binding}
    (h : env.own? scope id = some b) : scope < env.depth := by
  by_cases hlive : scope < env.depth
  · exact hlive
  · rw [own?_of_not_live env (Nat.not_lt.1 hlive)] at h
    cases h

/-! ### What the operations do to one frame -/

theorem bindings_modify_of_ne {scope k : ScopeId} (h : k ≠ scope) (f : Bindings → Bindings) :
    (env.modify scope f).bindings k = env.bindings k := by
  rw [bindings, modify, Array.getElem?_modify, if_neg h.symm]
  rfl

theorem bindings_modify_self {scope : ScopeId} (h : scope < env.depth) (f : Bindings → Bindings) :
    (env.modify scope f).bindings scope = f (env.bindings scope) := by
  rw [bindings, bindings, modify, Array.getElem?_modify, if_pos rfl, Array.getElem?_eq_getElem h]
  rfl

theorem bindings_declare_of_ne {scope k : ScopeId} (h : k ≠ scope) (id : String) (b : Binding) :
    (env.declare scope id b).bindings k = env.bindings k :=
  bindings_modify_of_ne env h _

theorem own?_declare_self {scope : ScopeId} (h : scope < env.depth) (id : String) (b : Binding) :
    (env.declare scope id b).own? scope id = some b := by
  rw [own?, declare, bindings_modify_self env h, Bindings.find?_insert, if_pos rfl]

/-- A declaration touches no other name, and no other frame. -/
theorem own?_declare_of_ne {scope k : ScopeId} {id id' : String} (h : k ≠ scope ∨ id' ≠ id)
    (b : Binding) : (env.declare scope id b).own? k id' = env.own? k id' := by
  by_cases hk : k = scope
  · subst hk
    have hid : id' ≠ id := h.resolve_left (· rfl)
    by_cases hlive : k < env.depth
    · rw [own?, declare, bindings_modify_self env hlive, Bindings.find?_insert, if_neg hid]
      rfl
    · have hdead : env.depth ≤ k := Nat.not_lt.1 hlive
      rw [own?_of_not_live _ hdead, own?_of_not_live _ (by rwa [depth_declare])]
  · rw [own?, bindings_declare_of_ne env hk]
    rfl

/-- A binding after a declaration is the one before it, or the declared one. -/
theorem own?_declare_cases (scope k : ScopeId) (id id' : String) (b : Binding) :
    (env.declare scope id b).own? k id' = env.own? k id' ∨
      k = scope ∧ id' = id ∧ (env.declare scope id b).own? k id' = some b := by
  by_cases hsame : k = scope ∧ id' = id
  · obtain ⟨rfl, rfl⟩ := hsame
    by_cases hlive : k < env.depth
    · exact .inr ⟨rfl, rfl, own?_declare_self env hlive id' b⟩
    · have hdead : env.depth ≤ k := Nat.not_lt.1 hlive
      rw [own?_of_not_live env hdead, own?_of_not_live _ (by rwa [depth_declare])]
      exact .inl rfl
  · exact .inl (own?_declare_of_ne env (Classical.not_and_iff_not_or_not.1 hsame) b)

/-- Nothing that is bound becomes unbound by a declaration. -/
theorem isSome_own?_declare {scope k : ScopeId} (id id' : String) (b : Binding)
    (h : (env.own? k id').isSome) : ((env.declare scope id b).own? k id').isSome := by
  by_cases hsame : k = scope ∧ id' = id
  · obtain ⟨rfl, rfl⟩ := hsame
    obtain ⟨old, hold⟩ := Option.isSome_iff_exists.1 h
    rw [own?_declare_self env (lt_depth_of_own? env hold)]
    rfl
  · rwa [own?_declare_of_ne env (Classical.not_and_iff_not_or_not.1 hsame)]

theorem bindings_bindAll_of_ne {scope k : ScopeId} (h : k ≠ scope) (ps : List (String × Value)) :
    (env.bindAll scope ps).bindings k = env.bindings k := by
  induction ps generalizing env with
  | nil => rfl
  | cons p ps ih => exact (ih _).trans (bindings_declare_of_ne env h _ _)

/-- Parameters are variables. -/
theorem own?_bindAll_cases (scope k : ScopeId) (id : String) (ps : List (String × Value)) :
    (env.bindAll scope ps).own? k id = env.own? k id ∨
      k = scope ∧ ∃ v, (env.bindAll scope ps).own? k id = some ⟨v, false⟩ := by
  induction ps generalizing env with
  | nil => exact .inl rfl
  | cons p ps ih =>
    rcases ih (env.declare scope p.1 ⟨p.2, false⟩) with h | h
    · rcases own?_declare_cases env scope k p.1 id ⟨p.2, false⟩ with h' | ⟨hk, -, h'⟩
      · exact .inl (h.trans h')
      · exact .inr ⟨hk, p.2, h.trans h'⟩
    · exact .inr h

/-- A new frame binds nothing, so it changes the bindings of no frame. -/
@[simp] theorem bindings_child (parent k : ScopeId) :
    (env.child parent).2.bindings k = env.bindings k := by
  rw [bindings, bindings, child, Array.getElem?_push]
  split
  · next hk =>
    have hdead : env.frames[k]? = none := by
      rw [hk]
      exact Array.getElem?_eq_none (Nat.le_refl _)
    rw [hdead]
    rfl
  · rfl

theorem bindings_release {d k : Nat} (h : k < max d 1) :
    (env.release d).bindings k = env.bindings k := by
  rw [bindings, bindings, ← Array.getElem?_toList, ← Array.getElem?_toList, release,
    Array.toList_shrink, List.getElem?_take, if_pos h]

theorem own?_release {d k : Nat} (h : k < (env.release d).depth) (id : String) :
    (env.release d).own? k id = env.own? k id := by
  rw [depth_release] at h
  rw [own?, own?, bindings_release env (Nat.lt_of_lt_of_le h (Nat.min_le_left _ _))]

end

/-! ### Parents and ancestors -/

/-- The frames above a frame: its parent, the parent of that, and so on. -/
inductive Ancestor (env : Environment) : ScopeId → ScopeId → Prop where
  | parent {scope up : ScopeId} (h : env.parent? scope = some up) : Ancestor env scope up
  | next {scope mid up : ScopeId} (h : env.parent? scope = some mid)
      (h' : Ancestor env mid up) : Ancestor env scope up

/-- Every parent was there before its children. -/
def Ranked (env : Environment) : Prop :=
  ∀ ⦃scope up : ScopeId⦄, env.parent? scope = some up → up < scope

variable {env env' : Environment} {scope k up : ScopeId}

theorem parent?_of_parents (h : env'.parents = env.parents) (scope : ScopeId) :
    env'.parent? scope = env.parent? scope := by
  rw [parent?_eq, h, ← parent?_eq]

/-- The root of a chain has no parent; any other frame of it is live. -/
theorem lt_depth_of_parent? (h : env.parent? scope = some up) : scope < env.depth := by
  by_cases hlive : scope < env.depth
  · exact hlive
  · rw [parent?, Array.getElem?_eq_none (Nat.not_lt.1 hlive)] at h
    cases h

theorem Ancestor.lt (hr : env.Ranked) (h : env.Ancestor scope up) : up < scope := by
  induction h with
  | parent h => exact hr h
  | next h _ ih => exact Nat.lt_trans ih (hr h)

theorem Ancestor.of_parents (h : env'.parents = env.parents) (ha : env.Ancestor scope up) :
    env'.Ancestor scope up := by
  induction ha with
  | parent hp => exact .parent ((parent?_of_parents h _).trans hp)
  | next hp _ ih => exact .next ((parent?_of_parents h _).trans hp) ih

/-! ### A frame on top -/

section

variable {top : ScopeId} (h : env'.parents = env.parents ++ [some top])

include h

theorem parent?_below (hlive : scope < env.depth) : env'.parent? scope = env.parent? scope := by
  have hlt : scope < env.parents.length := by rwa [length_parents]
  rw [parent?_eq, parent?_eq, h, List.getElem?_append_left hlt]

theorem parent?_newest : env'.parent? env.depth = some top := by
  have hle : env.parents.length ≤ env.depth := Nat.le_of_eq (length_parents env)
  rw [parent?_eq, h, List.getElem?_append_right hle, length_parents, Nat.sub_self]
  rfl

/-- The frame on which a new one stands, and all above, are above the new one. -/
theorem ancestor_newest (ha : up = top ∨ env.Ancestor top up) :
    env'.Ancestor env.depth up := by
  have hbelow : ∀ {scope up}, env.Ancestor scope up → env'.Ancestor scope up := by
    intro scope up ha
    induction ha with
    | parent hp => exact .parent ((parent?_below h (lt_depth_of_parent? hp)).trans hp)
    | next hp _ ih => exact .next ((parent?_below h (lt_depth_of_parent? hp)).trans hp) ih
  rcases ha with rfl | ha
  · exact .parent (parent?_newest h)
  · exact .next (parent?_newest h) (hbelow ha)

/-- No other frames are above the new one. -/
theorem of_ancestor_newest (hr : env.Ranked) (hlive : top < env.depth)
    (ha : env'.Ancestor env.depth up) : up = top ∨ env.Ancestor top up := by
  have hbelow : ∀ {scope up}, env'.Ancestor scope up → scope < env.depth →
      env.Ancestor scope up := by
    intro scope up ha
    induction ha with
    | parent hp =>
      intro hscope
      exact .parent ((parent?_below h hscope).symm.trans hp)
    | next hp _ ih =>
      intro hscope
      have hp := (parent?_below h hscope).symm.trans hp
      exact .next hp (ih (Nat.lt_trans (hr hp) hscope))
  cases ha with
  | parent hp =>
    rw [parent?_newest h] at hp
    exact .inl (Option.some.inj hp).symm
  | next hp ha =>
    rw [parent?_newest h] at hp
    obtain rfl := Option.some.inj hp
    exact .inr (hbelow ha hlive)

end

/-! ### What is seen from a frame -/

/-- A frame sees what it binds itself, and else what its parent sees. -/
theorem ownerAmong_succ (env : Environment) (id : String) (n : Nat) (scope : ScopeId) :
    env.ownerAmong id (n + 1) scope =
      if (env.own? scope id).isSome then some scope
      else (env.parent? scope).bind (env.ownerAmong id n) := by
  rw [ownerAmong, own?, bindings, parent?]
  cases env.frames[scope]? with
  | none => rfl
  | some frame =>
    simp only [Option.map_some, Option.getD_some, Option.bind_some]
    cases frame.parent with
    | none => rfl
    | some up => rfl

theorem ownerAmong_cases {id : String} {n : Nat} {owner : ScopeId}
    (h : env.ownerAmong id n scope = some owner) :
    (env.own? owner id).isSome ∧ (owner = scope ∨ env.Ancestor scope owner) := by
  induction n generalizing scope with
  | zero => cases h
  | succ n ih =>
    rw [ownerAmong_succ] at h
    split at h
    · next hown =>
      obtain rfl := Option.some.inj h
      exact ⟨hown, .inl rfl⟩
    · obtain ⟨up, hup, h⟩ := Option.bind_eq_some_iff.1 h
      obtain ⟨hown, rfl | ha⟩ := ih h
      · exact ⟨hown, .inr (.parent hup)⟩
      · exact ⟨hown, .inr (.next hup ha)⟩

/-- A name that is seen from a frame is bound there or in an ancestor. -/
theorem owner?_cases {id : String} {owner : ScopeId} (h : env.owner? scope id = some owner) :
    (env.own? owner id).isSome ∧ (owner = scope ∨ env.Ancestor scope owner) :=
  ownerAmong_cases h

/-- The number of frames is enough to come to the root: any larger one does as well. -/
theorem ownerAmong_enough (hr : env.Ranked) {id : String} {m n : Nat} (hm : scope < m)
    (hn : scope < n) : env.ownerAmong id m scope = env.ownerAmong id n scope := by
  induction m generalizing n scope with
  | zero => exact absurd hm (Nat.not_lt_zero _)
  | succ m ih =>
    cases n with
    | zero => exact absurd hn (Nat.not_lt_zero _)
    | succ n =>
      rw [ownerAmong_succ, ownerAmong_succ]
      split
      · rfl
      · cases hp : env.parent? scope with
        | none => rfl
        | some up =>
          have hup := hr hp
          exact ih (Nat.lt_of_lt_of_le hup (Nat.le_of_lt_succ hm))
            (Nat.lt_of_lt_of_le hup (Nat.le_of_lt_succ hn))

/-- From a live frame a search goes through live frames only. -/
theorem strays_eq_false (hr : env.Ranked) (hlive : scope < env.depth) (id : String) :
    env.strays scope id = false := by
  have hamong : ∀ n scope, scope < env.depth → env.straysAmong id n scope = false := by
    intro n
    induction n with
    | zero => exact fun _ _ => rfl
    | succ n ih =>
      intro scope hlive
      have hisLive : env.isLive scope = true := decide_eq_true hlive
      rw [straysAmong, hisLive]
      cases ((env.bindings scope).find? id).isSome with
      | true => rfl
      | false =>
        cases hp : env.parent? scope with
        | none => rfl
        | some up => exact ih up (Nat.lt_trans (hr hp) hlive)
  exact hamong _ scope hlive

/-- Two environments that agree below a frame number, on the parents of frames and
on which frames bind a name, agree on where that name is bound as seen from there. -/
theorem owner?_congr (hr : env.Ranked) {d : Nat} (hd : d ≤ env.depth) (hd' : d ≤ env'.depth)
    (hparents : ∀ k < d, env'.parent? k = env.parent? k) {id : String}
    (hnames : ∀ k < d, (env'.own? k id).isSome = (env.own? k id).isSome) (hscope : scope < d) :
    env'.owner? scope id = env.owner? scope id := by
  have hsame : ∀ n, ∀ scope < d, env'.ownerAmong id n scope = env.ownerAmong id n scope := by
    intro n
    induction n with
    | zero => exact fun _ _ => rfl
    | succ n ih =>
      intro scope hscope
      rw [ownerAmong_succ, ownerAmong_succ, hnames scope hscope, hparents scope hscope]
      cases hp : env.parent? scope with
      | none => rfl
      | some up => rw [Option.bind_some, Option.bind_some, ih up (Nat.lt_trans (hr hp) hscope)]
  rw [owner?, hsame _ scope hscope, owner?]
  exact ownerAmong_enough hr (Nat.lt_of_lt_of_le hscope hd') (Nat.lt_of_lt_of_le hscope hd)

/-- Giving a seen name another value is a declaration in the frame that binds it. -/
theorem rebind?_eq_some {id : String} {f : Binding → Binding}
    (h : env.rebind? scope id f = some env') :
    ∃ owner old, env.owner? scope id = some owner ∧ env.own? owner id = some old ∧
      env.find? scope id = some old ∧ env' = env.declare owner id (f old) := by
  rw [rebind?] at h
  split at h
  · cases h
  · next owner howner =>
    split at h
    · cases h
    · next old hold =>
      refine ⟨owner, old, howner, hold, ?_, (Option.some.inj h).symm⟩
      rw [find?_eq, howner]
      exact hold

/-! ### Environments that can come about -/

/-- The environments that the operations make of a new one, with children of live
frames only. -/
inductive Reachable : Environment → Prop where
  | new : Reachable new
  | child {env : Environment} {parent : ScopeId} (h : Reachable env)
      (hlive : parent < env.depth) : Reachable (env.child parent).2
  | declare {env : Environment} (h : Reachable env) (scope : ScopeId) (id : String)
      (b : Binding) : Reachable (env.declare scope id b)
  | release {env : Environment} (h : Reachable env) (d : Nat) : Reachable (env.release d)

namespace Reachable

/-- In an environment that can come about, every parent was there before its children. -/
theorem ranked (h : Reachable env) : env.Ranked := by
  induction h with
  | new =>
    intro scope up hp
    cases scope with
    | zero => cases hp
    | succ n => cases hp
  | @child env parent h hlive ih =>
    intro scope up hp
    have hlt := lt_depth_of_parent? hp
    rw [depth_child] at hlt
    rcases Nat.lt_or_eq_of_le (Nat.le_of_lt_succ hlt) with hscope | rfl
    · rw [parent?_below (parents_child env parent) hscope] at hp
      exact ih hp
    · rw [parent?_newest (parents_child env parent)] at hp
      obtain rfl := Option.some.inj hp
      exact hlive
  | declare h scope id b ih =>
    intro scope' up hp
    rw [parent?_of_parents (parents_declare _ scope id b)] at hp
    exact ih hp
  | @release env h d ih =>
    intro scope up hp
    rw [parent?_eq, parents_release] at hp
    by_cases hscope : scope < max d 1
    · rw [List.getElem?_take, if_pos hscope, ← parent?_eq] at hp
      exact ih hp
    · rw [List.getElem?_take, if_neg hscope] at hp
      cases hp

theorem bindAll (h : Reachable env) (scope : ScopeId) (ps : List (String × Value)) :
    Reachable (env.bindAll scope ps) := by
  induction ps generalizing env with
  | nil => exact h
  | cons p ps ih => exact ih (h.declare scope _ _)

theorem rebind? (h : Reachable env) {id : String} {f : Binding → Binding}
    (henv : env.rebind? scope id f = some env') : Reachable env' := by
  obtain ⟨owner, old, -, -, -, rfl⟩ := rebind?_eq_some henv
  exact h.declare _ _ _

/-- Before anything has run, only the host object is bound. -/
theorem initialState (limit : Nat) (sink : Sink) :
    Reachable (Interpreter.initialState limit sink).env :=
  .declare .new _ _ _

end Reachable

end Environment

end LineScript
