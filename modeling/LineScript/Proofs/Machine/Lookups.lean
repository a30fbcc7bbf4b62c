import LineScript.Proofs.Machine.Scopes
import Mathlib.Logic.Relation

/-!
# Lookups after an operation

A name is looked up along the chain of frames from a frame to the root. What each
operation on an environment changes of the lookups, from every frame at once.

- `Environment.Chain`: the frames that a lookup goes through.
- `Chain.owner?_eq`, `Chain.find?_eq`: a lookup finds the first binding of the chain.
- `find?_declare`, `find?_rebind?`: what is seen from any frame after a declaration in
  one frame, and after a write to a name that is seen from one frame.
- `Raised`: an environment with more frames on top, and what is seen below them.
- `Environment.Operates`: one operation with live frames as its arguments.
- `lookup_laws`: the laws of all environments that the operations make.
-/

namespace LineScript

namespace Environment

variable {env env' : Environment} {scope : ScopeId}

/-! ### The frames of a lookup -/

/-- The frames that a lookup goes through: the frame itself, its parent, and so on
up to the root. -/
inductive Chain (env : Environment) : ScopeId → List ScopeId → Prop where
  | root {scope : ScopeId} (hlive : scope < env.depth) (h : env.parent? scope = none) :
      Chain env scope [scope]
  | next {scope up : ScopeId} {chain : List ScopeId} (h : env.parent? scope = some up)
      (above : Chain env up chain) : Chain env scope (scope :: chain)

theorem exists_chain (hr : env.Ranked) (hlive : scope < env.depth) :
    ∃ chain, env.Chain scope chain := by
  induction scope using Nat.strongRecOn with
  | _ scope ih =>
    cases hp : env.parent? scope with
    | none => exact ⟨_, .root hlive hp⟩
    | some up =>
      obtain ⟨chain, hchain⟩ := ih up (hr hp) (Nat.lt_trans (hr hp) hlive)
      exact ⟨_, .next hp hchain⟩

namespace Chain

variable {chain : List ScopeId}

theorem of_parents (hparents : env'.parents = env.parents) (h : env.Chain scope chain) :
    env'.Chain scope chain := by
  induction h with
  | root hlive hp =>
    exact .root ((depth_of_parents hparents).symm ▸ hlive)
      ((parent?_of_parents hparents _).trans hp)
  | next hp _ ih => exact .next ((parent?_of_parents hparents _).trans hp) ih

end Chain

/-- The number of frames never cuts a lookup short: it goes on at the parent. -/
theorem owner?_step (hr : env.Ranked) (hlive : scope < env.depth) (id : String) :
    env.owner? scope id =
      if (env.own? scope id).isSome then some scope
      else (env.parent? scope).bind fun up => env.owner? up id := by
  obtain ⟨n, hn⟩ : ∃ n, env.depth = n + 1 := Nat.exists_eq_add_one.2 (Nat.zero_lt_of_lt hlive)
  rw [owner?, hn, ownerAmong_succ]
  cases hp : env.parent? scope with
  | none => rfl
  | some up =>
    have hup : up < n := by
      rw [hn] at hlive
      exact Nat.lt_of_lt_of_le (hr hp) (Nat.le_of_lt_succ hlive)
    have hsame : env.ownerAmong id n up = env.owner? up id :=
      ownerAmong_enough hr hup (Nat.lt_trans (hr hp) hlive)
    rw [Option.bind_some, Option.bind_some, hsame]

namespace Chain

variable {chain : List ScopeId}

/-- A name is seen where the first frame of the chain binds it. -/
theorem owner?_eq (hr : env.Ranked) (h : env.Chain scope chain) (id : String) :
    env.owner? scope id = chain.find? fun k => (env.own? k id).isSome := by
  induction h with
  | root hlive hp =>
    rw [owner?_step hr hlive, hp, List.find?_cons]
    cases (env.own? _ id).isSome <;> rfl
  | @next scope up chain hp above ih =>
    rw [owner?_step hr (lt_depth_of_parent? hp), hp, List.find?_cons, Option.bind_some, ih]
    cases (env.own? scope id).isSome <;> rfl

/-- What is found under a name is the first binding of it in the chain. -/
theorem find?_eq (hr : env.Ranked) (h : env.Chain scope chain) (id : String) :
    env.find? scope id = chain.findSome? fun k => env.own? k id := by
  rw [Environment.find?_eq, h.owner?_eq hr id]
  clear h
  induction chain with
  | nil => rfl
  | cons k chain ih =>
    rw [List.find?_cons, List.findSome?_cons]
    cases hown : env.own? k id with
    | none => exact ih
    | some b => exact hown

end Chain

/-! ### Declarations and writes -/

theorem own?_declare (hlive : scope < env.depth) (id : String) (b : Binding) (k : ScopeId)
    (id' : String) :
    (env.declare scope id b).own? k id' =
      if k = scope ∧ id' = id then some b else env.own? k id' := by
  split
  · next h =>
    obtain ⟨rfl, rfl⟩ := h
    exact own?_declare_self env hlive id' b
  · next h => exact own?_declare_of_ne env (Classical.not_and_iff_not_or_not.1 h) b

/-- Frame `scope` is in the chain, and no frame before it binds the name. -/
def First (env : Environment) (chain : List ScopeId) (scope : ScopeId) (id : String) : Prop :=
  scope ∈ chain ∧ ∀ k ∈ chain.takeWhile (· ≠ scope), env.own? k id = none

/-- A declaration is seen from a frame when the frame that it is made in comes first
of those that bind the name. Every other lookup finds what it did before. -/
theorem find?_declare (hr : env.Ranked) (hlive : scope < env.depth) {t : ScopeId}
    {chain : List ScopeId} (h : env.Chain t chain) (id id' : String) (b : Binding) :
    (id' = id ∧ env.First chain scope id → (env.declare scope id b).find? t id' = some b) ∧
    (¬(id' = id ∧ env.First chain scope id) →
      (env.declare scope id b).find? t id' = env.find? t id') := by
  have hr' : (env.declare scope id b).Ranked := fun k up hp =>
    hr ((parent?_of_parents (parents_declare env scope id b) k).symm.trans hp)
  rw [(h.of_parents (parents_declare env scope id b)).find?_eq hr', h.find?_eq hr]
  simp only [own?_declare hlive]
  clear h
  by_cases hid : id' = id
  · subst hid
    simp only [First, and_true, true_and]
    induction chain with
    | nil => simp
    | cons k chain ih =>
      by_cases hk : k = scope
      · simp [hk]
      · cases hown : env.own? k id' with
        | none => simpa [hk, Ne.symm hk, hown] using ih
        | some c => simp [hk, hown]
  · simp [hid]

/-- A write to a name that is seen from `scope` is seen from those frames that see the
name where `scope` does, and changes no other lookup. -/
theorem find?_rebind? (hr : env.Ranked) {id : String} {f : Binding → Binding}
    (h : env.rebind? scope id f = some env') {t : ScopeId} (hlive : t < env.depth)
    (id' : String) :
    (id' = id ∧ env.owner? t id = env.owner? scope id →
      ∃ b, env.find? t id' = some b ∧ env'.find? t id' = some (f b)) ∧
    (¬(id' = id ∧ env.owner? t id = env.owner? scope id) →
      env'.find? t id' = env.find? t id') := by
  obtain ⟨owner, old, howner, hold, -, rfl⟩ := rebind?_eq_some h
  have hbound := lt_depth_of_own? env hold
  have hown := own?_declare hbound id (f old)
  -- the name is bound there already, so every name is seen where it was
  have hsame : (env.declare owner id (f old)).owner? t id' = env.owner? t id' := by
    refine owner?_congr hr (Nat.le_refl _) (Nat.le_of_eq (depth_declare ..).symm)
      (fun k _ => parent?_of_parents (parents_declare env owner id (f old)) k) (fun k _ => ?_) hlive
    rw [hown]
    split
    · next hk => rw [hk.1, hk.2, hold]; rfl
    · rfl
  rw [find?_eq, find?_eq, hsame, howner]
  constructor
  · rintro ⟨rfl, ht⟩
    rw [ht]
    exact ⟨old, hold, own?_declare_self env hbound id' (f old)⟩
  · intro hne
    cases ht : env.owner? t id' with
    | none => rfl
    | some o =>
      refine (hown o id').trans (if_neg ?_)
      rintro ⟨rfl, rfl⟩
      exact hne ⟨rfl, ht⟩

theorem rebind?_eq_none_iff (hr : env.Ranked) {chain : List ScopeId} (h : env.Chain scope chain)
    (id : String) (f : Binding → Binding) :
    env.rebind? scope id f = none ↔ ∀ k ∈ chain, env.own? k id = none := by
  have howner : env.owner? scope id = none ↔ ∀ k ∈ chain, env.own? k id = none := by
    rw [h.owner?_eq hr, List.find?_eq_none]
    simp only [Option.not_isSome_iff_eq_none]
  rw [← howner, rebind?]
  cases ho : env.owner? scope id with
  | none => simp
  | some owner =>
    obtain ⟨b, hb⟩ := Option.isSome_iff_exists.1 (owner?_cases ho).1
    have hb : (env.bindings owner).find? id = some b := hb
    simp [hb]

/-! ### Frames on top -/

/-- The first `d` frames of an environment are the same in another one, which has at
least these. -/
structure Raised (d : Nat) (env env' : Environment) : Prop where
  le : d ≤ env.depth
  le' : d ≤ env'.depth
  parent? : ∀ k < d, env'.parent? k = env.parent? k
  own? : ∀ k < d, ∀ id, env'.own? k id = env.own? k id

namespace Raised

variable {d : Nat}

theorem owner?_eq (h : Raised d env env') (hr : env.Ranked) (hlive : scope < d) (id : String) :
    env'.owner? scope id = env.owner? scope id :=
  owner?_congr hr h.le h.le' h.parent? (fun k hk => by rw [h.own? k hk]) hlive

theorem find?_eq (h : Raised d env env') (hr : env.Ranked) (hlive : scope < d) (id : String) :
    env'.find? scope id = env.find? scope id := by
  rw [Environment.find?_eq, Environment.find?_eq, h.owner?_eq hr hlive]
  cases ho : env.owner? scope id with
  | none => rfl
  | some owner =>
    have hle : owner ≤ scope := by
      rcases (owner?_cases ho).2 with rfl | ha
      · exact Nat.le_refl _
      · exact Nat.le_of_lt (ha.lt hr)
    exact h.own? owner (Nat.lt_of_le_of_lt hle hlive) id

theorem release (env : Environment) (d : Nat) :
    Raised (env.release d).depth env (env.release d) where
  le := by
    rw [depth_release]
    exact Nat.min_le_right _ _
  le' := Nat.le_refl _
  parent? k hk := by
    rw [depth_release] at hk
    rw [parent?_eq, parents_release, List.getElem?_take,
      if_pos (Nat.lt_of_lt_of_le hk (Nat.min_le_left _ _)), ← parent?_eq]
  own? k hk id := own?_release env hk id

theorem child (h : Raised d env env') (top : ScopeId) : Raised d env (env'.child top).2 where
  le := h.le
  le' := Nat.le_trans h.le' (by rw [depth_child]; exact Nat.le_succ _)
  parent? k hk :=
    (parent?_below (parents_child env' top) (Nat.lt_of_lt_of_le hk h.le')).trans (h.parent? k hk)
  own? k hk id := by
    rw [Environment.own?, bindings_child]
    exact h.own? k hk id

end Raised

/-! ### All operations -/

/-- One operation, with live frames as its arguments. -/
inductive Operates : Environment → Environment → Prop where
  | child {env : Environment} {parent : ScopeId} (hlive : parent < env.depth) :
      Operates env (env.child parent).2
  | declare {env : Environment} {scope : ScopeId} (hlive : scope < env.depth) (id : String)
      (b : Binding) : Operates env (env.declare scope id b)
  | set {env env' : Environment} {scope : ScopeId} (hlive : scope < env.depth) {id : String}
      {v : Value} (h : env.set? scope id v = some env') : Operates env env'
  | write {env env' : Environment} {scope : ScopeId} (hlive : scope < env.depth) {id : String}
      {f : Binding → Binding} (h : env.rebind? scope id f = some env') : Operates env env'
  | release {env : Environment} (d : Nat) : Operates env (env.release d)

/-- A new frame on a live one. -/
inductive Grows : Environment → Environment → Prop where
  | child {env : Environment} {parent : ScopeId} (hlive : parent < env.depth) :
      Grows env (env.child parent).2

theorem Operates.reachable (h : Relation.ReflTransGen Operates new env) : Reachable env := by
  induction h with
  | refl => exact .new
  | tail _ hop ih =>
    cases hop with
    | child hlive => exact ih.child hlive
    | declare hlive id b => exact ih.declare _ id b
    | set hlive h => exact ih.rebind? h
    | write hlive h => exact ih.rebind? h
    | release d => exact ih.release d

theorem Grows.raised {d : Nat} {env₀ : Environment} (h : Raised d env₀ env)
    (hgrows : Relation.ReflTransGen Grows env env') : Raised d env₀ env' := by
  induction hgrows with
  | refl => exact h
  | tail _ hgrow ih =>
    cases hgrow with
    | child _ => exact ih.child _

/-- **The laws of lookups.** In every environment that the operations make of a new
one, a parent is older than its children, so a lookup from a live frame goes through
a chain of frames that ends, and finds the first binding there, which is the one in the
frame that owns the name. A declaration in `s` is seen from `t` when no frame before `s`
in the chain of `t` binds the name. Setting a name from `s` fails when the chain of `s`
does not bind it, and else gives its new value to those frames that see it where `s`
does, each as constant as it was. Neither changes another lookup; nor does a release of
frames, followed by new ones on top, change any lookup from a frame that stays. -/
theorem lookup_laws (h : Relation.ReflTransGen Operates new env) :
    (∀ scope up, env.parent? scope = some up → up < scope) ∧
    (∀ t < env.depth, ∃ chain, env.Chain t chain ∧ ∀ i,
      env.owner? t i = chain.find? (fun k => (env.own? k i).isSome) ∧
      env.find? t i = chain.findSome? fun k => env.own? k i) ∧
    (∀ t < env.depth, ∀ i,
      (∃ owner b, env.owner? t i = some owner ∧ env.own? owner i = some b ∧
        env.find? t i = some b) ∨
      env.owner? t i = none ∧ env.find? t i = none) ∧
    (∀ s < env.depth, ∀ t < env.depth, ∀ i j b chain, env.Chain t chain →
      (j = i ∧ env.First chain s i → (env.declare s i b).find? t j = some b) ∧
      (¬(j = i ∧ env.First chain s i) → (env.declare s i b).find? t j = env.find? t j)) ∧
    (∀ s < env.depth, ∀ i v chain, env.Chain s chain →
      (env.set? s i v = none ↔ ∀ k ∈ chain, env.own? k i = none)) ∧
    (∀ s < env.depth, ∀ t < env.depth, ∀ i j v env', env.set? s i v = some env' →
      (j = i ∧ env.owner? t i = env.owner? s i →
        ∃ b, env.find? t j = some b ∧ env'.find? t j = some ⟨v, b.constant⟩) ∧
      (¬(j = i ∧ env.owner? t i = env.owner? s i) → env'.find? t j = env.find? t j)) ∧
    ∀ d env', Relation.ReflTransGen Grows (env.release d) env' →
      ∀ t < (env.release d).depth, ∀ i,
        env'.owner? t i = env.owner? t i ∧ env'.find? t i = env.find? t i := by
  have hr : env.Ranked := (Operates.reachable h).ranked
  refine ⟨fun scope up hp => hr hp, fun t ht => ?_, fun t _ i => ?_,
    fun s hs t _ i j b chain hchain => find?_declare hr hs hchain i j b,
    fun s _ i v chain hchain => rebind?_eq_none_iff hr hchain i _,
    fun s _ t ht i j v env' hset => find?_rebind? hr hset ht j,
    fun d env' hgrows t ht i => ?_⟩
  · obtain ⟨chain, hchain⟩ := exists_chain hr ht
    exact ⟨chain, hchain, fun i => ⟨hchain.owner?_eq hr i, hchain.find?_eq hr i⟩⟩
  · rw [find?_eq]
    cases ho : env.owner? t i with
    | none => exact .inr ⟨rfl, rfl⟩
    | some owner =>
      obtain ⟨b, hb⟩ := Option.isSome_iff_exists.1 (owner?_cases ho).1
      exact .inl ⟨owner, b, rfl, hb, hb⟩
  · have hraised := Grows.raised (Raised.release env d) hgrows
    exact ⟨hraised.owner?_eq hr ht i, hraised.find?_eq hr ht i⟩

/-- Two frames on the root, one of which hides the name of the root. -/
def shadowed : Environment :=
  let env := new.declare root "x" ⟨.boolean true, false⟩
  let env := (env.child root).2.declare 1 "x" ⟨.boolean false, true⟩
  (env.child root).2

/-- The name is set from the frame that does not hide it. -/
theorem shadowed_set :
    Relation.ReflTransGen Operates new shadowed ∧
      ∃ env', shadowed.set? 2 "x" .undefined = some env' ∧
        env'.find? root "x" = some ⟨.undefined, false⟩ ∧
        env'.find? 1 "x" = some ⟨.boolean false, true⟩ := by
  have hmade : Relation.ReflTransGen Operates new shadowed :=
    .tail (.tail (.tail (.tail .refl (.declare (by decide) _ _)) (.child (by decide)))
      (.declare (by decide) _ _)) (.child (by decide))
  have hset : (shadowed.set? 2 "x" .undefined).isSome := by decide
  obtain ⟨env', hset⟩ := Option.isSome_iff_exists.1 hset
  obtain ⟨-, -, -, -, -, hlaw, -⟩ := lookup_laws hmade
  refine ⟨hmade, env', hset, ?_, ?_⟩
  · obtain ⟨b, hb, hb'⟩ :=
      (hlaw 2 (by decide) root (by decide) "x" "x" _ _ hset).1 ⟨rfl, by decide⟩
    have hvariable : shadowed.find? root "x" = some ⟨.boolean true, false⟩ := by decide
    obtain rfl := Option.some.inj (hvariable.symm.trans hb)
    exact hb'
  · rw [(hlaw 2 (by decide) 1 (by decide) "x" "x" _ _ hset).2 (by decide)]
    decide

end Environment

end LineScript
