import LineScript.Proofs.Machine.Steps
import LineScript.Proofs.Program.Layout

/-!
# Where jumps land

A branch of a conditional is a part of its root list: the program, or the body
of the innermost active call. A target is a position of the root list. The line
that a jump goes to is the one at the target, in the innermost block around the
jump that holds the target.

- `nest`: the blocks around a line, up to the root block of the innermost call.
- `Nested`: how blocks and waiting lines hang together at every moment of a run.
- `Nested.slice`: every block is a part of its root list.
- `Nested.goto_handed_up`: a jump leaves every block that does not hold its target.
- `goto_lands_in_innermost_block`: where execution goes on after a jump.
-/

namespace LineScript

/-! ### The blocks around a line -/

/-- A block around a line, and the lines that wait outside of it. -/
structure Level where
  block : Block
  outer : List Suspended

/-- The blocks around a line of `b`, the innermost first, up to the root block
of the innermost active call. -/
def nest (b : Block) : List Suspended → List Level
  | [] => [⟨b, []⟩]
  | w :: outer =>
    match w.pending with
    | .branch .. => ⟨b, w :: outer⟩ :: nest w.block outer
    | .call .. => [⟨b, w :: outer⟩]

/-- The outermost block around a line of `b`: the program, or the body of the
innermost active call. -/
def rootBlock (b : Block) : List Suspended → Block
  | [] => b
  | w :: outer =>
    match w.pending with
    | .branch .. => rootBlock w.block outer
    | .call .. => b

/-- The lines that wait outside of the innermost active call. -/
def callers : List Suspended → List Suspended
  | [] => []
  | w :: outer =>
    match w.pending with
    | .branch .. => callers outer
    | .call .. => w :: outer

/-- A block is the root block inside of callers: without any it is the start of
the run, otherwise the body of the function that the innermost one calls. -/
def RootOf (start b : Block) : List Suspended → Prop
  | [] => b = start
  | w :: _ => ∃ f depth scope target after,
      w.pending = .call f depth scope target after ∧ b = .root f.body depth

/-- Whether a block can go on at a position of its root list. The position right
after its last line belongs to it. -/
def Block.Holds (b : Block) (target : Nat) : Prop :=
  b.origin ≤ target ∧ target ≤ b.origin + b.code.length

instance (b : Block) (target : Nat) : Decidable (b.Holds target) :=
  inferInstanceAs (Decidable (_ ∧ _))

/-- The environment when the scopes of blocks are released, one after the other. -/
def releaseScopes (env : Environment) (left : List Level) : Environment :=
  left.foldl (fun env l => env.release l.block.scope) env

/-- How a block and the lines that wait outside of it hang together at a moment
when `depth` frames are live, in a run of `start` that began with `base` frames. -/
inductive Nested (start : Block) (base : Nat) : Block → List Suspended → Nat → Prop where
  | root : Nested start base start [] base
  | branch {b : Block} {outer : List Suspended} {depth index line : Nat} {layout : Layout}
      {condition : Bool} {first stop : Nat} (hlayout : layout? b.code (index + 1) = some layout)
      (hchosen : Builtin.chosenBranch (index + 1) layout condition = some (first, stop))
      (h : Nested start base b outer depth) :
      Nested start base (b.branch first stop depth)
        (⟨b, index, line, .branch depth (b.origin + layout.endAt + 1)⟩ :: outer) (depth + 1)
  | call {b : Block} {outer : List Suspended} {depth index line : Nat} {f : Function}
      {target : Option Target} {after : Control} (h : Nested start base b outer depth) :
      Nested start base (.root f.body depth)
        (⟨b, index, line, .call f depth b.scope target after⟩ :: outer) (depth + 1)

namespace Nested

variable {start b : Block} {base depth : Nat} {outer : List Suspended}

theorem base_le (h : Nested start base b outer depth) : base ≤ depth := by
  induction h with
  | root => exact Nat.le_refl _
  | branch _ _ _ ih | call _ ih => omega

/-- The scope of a block is live while the block is executed. -/
theorem scope_lt (hstart : start.scope < base) (h : Nested start base b outer depth) :
    b.scope < depth := by
  cases h with
  | root => exact hstart
  | branch | call => exact Nat.lt_succ_self _

/-- A block around a line is nested in the lines that wait outside of it. -/
theorem of_mem_nest {level : Level} (h : Nested start base b outer depth)
    (hl : level ∈ nest b outer) :
    ∃ d, d ≤ depth ∧ Nested start base level.block level.outer d := by
  induction h with
  | root =>
    obtain rfl := List.mem_singleton.1 hl
    exact ⟨base, Nat.le_refl _, .root⟩
  | branch hlayout hchosen h ih =>
    rcases List.mem_cons.1 hl with rfl | hl
    · exact ⟨_, Nat.le_refl _, .branch hlayout hchosen h⟩
    · obtain ⟨d, hd, hn⟩ := ih hl
      exact ⟨d, Nat.le_succ_of_le hd, hn⟩
  | call h =>
    obtain rfl := List.mem_singleton.1 hl
    exact ⟨_, Nat.le_refl _, .call h⟩

/-- Lines that wait outside are in live scopes. -/
theorem waiting_lt (hstart : start.scope < base) (h : Nested start base b outer depth)
    {w : Suspended} (hw : w ∈ outer) : w.block.scope < depth := by
  induction h with
  | root => cases hw
  | branch _ _ h ih | call h ih =>
    rcases List.mem_cons.1 hw with rfl | hw
    · exact Nat.lt_succ_of_lt (h.scope_lt hstart)
    · exact Nat.lt_succ_of_lt (ih hw)

/-- The outermost block around a line is a root block: the start of the run, or
the body of the function that the innermost active call is of. -/
theorem rootOf_rootBlock (h : Nested start base b outer depth) :
    RootOf start (rootBlock b outer) (callers outer) := by
  induction h with
  | root => exact rfl
  | branch _ _ _ ih => exact ih
  | call => exact ⟨_, _, _, _, _, rfl, rfl⟩

/-- Every block around a line is a part of its root list. -/
theorem slice (hstart : start.origin = 0) (h : Nested start base b outer depth) :
    b.origin + b.code.length ≤ (rootBlock b outer).code.length ∧
      b.code = ((rootBlock b outer).code.drop b.origin).take b.code.length := by
  induction h with
  | root => simp [rootBlock, hstart]
  | @branch b outer depth index line layout condition first stop hlayout hchosen h ih =>
    obtain ⟨hle, hcode⟩ := ih
    obtain ⟨-, hfirst, hstop, hend⟩ := chosenBranch_bounds hlayout hchosen
    -- a slice of a slice: the branch lies in its block, as its bounds do
    have hlength : ((b.code.take stop).drop first).length = stop - first := by
      rw [List.length_drop, List.length_take]
      omega
    simp only [rootBlock, Block.branch, hlength]
    refine ⟨by omega, ?_⟩
    calc (b.code.take stop).drop first
      _ = (((((rootBlock b outer).code.drop b.origin).take b.code.length).take stop).drop
            first) := by rw [← hcode]
      _ = ((rootBlock b outer).code.drop (b.origin + first)).take (stop - first) := by
        rw [List.take_take, List.drop_take, List.drop_drop, Nat.min_eq_left (by omega)]
  | call => simp [rootBlock, Block.root]

/-- When a block ends, its frame is released, and the frames are those of the
line that waits for it. -/
theorem close {w : Suspended} (hbase : 0 < base) {s : State}
    (h : Nested start base b (w :: outer) s.env.depth) :
    Nested start base w.block outer (w.pending.close s).env.depth := by
  generalize hd : s.env.depth = depth at h
  -- frames above the waiting line's own are exactly the one of the block
  have hdepth : ∀ d, depth = d + 1 → base ≤ d → (s.env.release d).depth = d := by
    intro d hd' hle
    rw [Environment.depth_release]
    omega
  cases h with
  | branch hlayout hchosen h =>
    simp only [Pending.close]
    rw [hdepth _ rfl h.base_le]
    exact h
  | call h =>
    simp only [Pending.close]
    rw [hdepth _ rfl h.base_le]
    exact h

end Nested

/-- The blocks and the waiting lines of a moment hang together, and the live
frames are theirs. -/
def Config.WellNested (start : Block) (base : Nat) : Config → Prop
  | running b _ outer s => Nested start base b outer s.env.depth
  | answered b _ _ outer _ s => Nested start base b outer s.env.depth
  | ended outer _ s => ∃ b, Nested start base b outer s.env.depth

/-- A line that enters a block is the one that waits for it. -/
theorem Nested.opens {start b inner : Block} {base index : Nat} {i : Instruction}
    {outer : List Suspended} {p : Pending} {s t : State}
    (h : Nested start base b outer s.env.depth)
    (ho : Opens ⟨b, index, i.operand, i.line⟩ s inner p t) :
    Nested start base inner (⟨b, index, i.line, p⟩ :: outer) t.env.depth := by
  have hdepth : t.env.depth = s.env.depth + 1 := by
    rw [← Environment.length_parents, ho.stacks.2]
    simp
  rw [hdepth]
  cases ho with
  | branch hlayout hchosen => exact .branch hlayout hchosen h
  | call => exact .call h

/-- Every step keeps blocks and waiting lines together. -/
theorem Config.WellNested.step {start : Block} {base : Nat} (hbase : 0 < base) (c : Config)
    (h : c.WellNested start base) : c.step.WellNested start base := by
  have hstep := c.stepsTo
  generalize c.step = d at hstep ⊢
  cases hstep with
  | @atEnd b => exact ⟨b, h⟩
  | @failed b index i outer s t _ _ hdoes | @finished b index i outer s t _ _ hdoes =>
    -- up to its block a line keeps the frames
    have hs : Nested start base b outer s.env.depth := h
    rw [← hdoes.sameStacks.depth] at hs
    exact hs
  | @opens b inner index i outer p s t u _ hdoes ho =>
    -- and the block brings a frame of its own
    have hs : Nested start base b outer s.env.depth := h
    rw [← hdoes.sameStacks.depth] at hs
    exact hs.opens ho
  | @error b => exact ⟨b, h⟩
  | goesOn => exact h
  | @leaves b => exact ⟨b, h⟩
  | halted => exact h
  | @resumes w outer r s =>
    obtain ⟨b, hb⟩ := h
    -- what the line that waited still does keeps the frames that its block leaves
    have hclosed := hb.close hbase
    have hresumed := w.pending.sameStacks_resume r s
    rw [← hresumed.depth] at hclosed
    exact hclosed

/-! ### A jump is handed up -/

section nest

variable {b : Block} {outer : List Suspended}

theorem nest_eq_cons (b : Block) (outer : List Suspended) :
    ∃ rest, nest b outer = ⟨b, outer⟩ :: rest := by
  cases outer with
  | nil => exact ⟨[], rfl⟩
  | cons w outer =>
    rw [nest]
    cases w.pending with
    | branch => exact ⟨_, rfl⟩
    | call => exact ⟨[], rfl⟩

/-- The last of the blocks around a line is the root block. -/
theorem nest_eq_append (b : Block) (outer : List Suspended) :
    nest b outer = (nest b outer).dropLast ++ [⟨rootBlock b outer, callers outer⟩] := by
  induction outer generalizing b with
  | nil => rfl
  | cons w outer ih =>
    rw [nest, rootBlock, callers]
    cases w.pending with
    | branch =>
      dsimp only
      obtain ⟨rest, hrest⟩ := nest_eq_cons w.block outer
      rw [List.dropLast_cons_of_ne_nil (by simp [hrest]), List.cons_append, ← ih]
    | call => rfl

/-- All blocks around a line have the same root block and the same callers. -/
theorem root_of_mem_nest {level : Level} (h : level ∈ nest b outer) :
    rootBlock level.block level.outer = rootBlock b outer ∧
      callers level.outer = callers outer := by
  induction outer generalizing b with
  | nil =>
    obtain rfl := List.mem_singleton.1 h
    exact ⟨rfl, rfl⟩
  | cons w outer ih =>
    rw [nest] at h
    rw [rootBlock, callers]
    cases hp : w.pending with
    | branch =>
      rw [hp] at h
      rcases List.mem_cons.1 h with rfl | h
      · simp only [rootBlock, callers, hp, and_self]
      · exact ih h
    | call =>
      rw [hp] at h
      obtain rfl := List.mem_singleton.1 h
      simp only [rootBlock, callers, hp, and_self]

end nest

theorem Block.next_of_holds {b : Block} {target : Nat} (h : b.Holds target) (index : Nat) :
    b.next index (.goto target) = .inl (target - b.origin) :=
  if_pos h

theorem Block.next_of_not_holds {b : Block} {target : Nat} (h : ¬ b.Holds target) (index : Nat) :
    b.next index (.goto target) = if b.nested then .inr (.escaped target) else .inr .completed :=
  if_neg h

/-- The state when the scopes of blocks are released. -/
def State.leaving (s : State) (left : List Level) : State :=
  { s with env := releaseScopes s.env left }

namespace Nested

variable {start b : Block} {base target : Nat} {outer : List Suspended} {s : State}

/-- A jump leaves every block that does not hold its target, and the scopes of
these blocks are released: the jump is an answer of a line in the first block
that is not left. -/
theorem goto_handed_up (hbase : 0 < base) {left rest : List Level} {level : Level}
    (index line : Nat) (h : Nested start base b outer s.env.depth)
    (hnest : nest b outer = left ++ level :: rest) (hleft : ∀ l ∈ left, ¬ l.block.Holds target) :
    ∃ index' line', Leads (.answered b index line outer (.ok (.goto target)) s)
        (.answered level.block index' line' level.outer (.ok (.goto target)) (s.leaving left)) ∧
      Nested start base level.block level.outer (s.leaving left).env.depth := by
  induction left generalizing b index line outer s with
  | nil =>
    obtain ⟨_, hcons⟩ := nest_eq_cons b outer
    rw [hcons] at hnest
    obtain ⟨rfl, -⟩ := List.cons.inj hnest
    exact ⟨index, line, .refl _, h⟩
  | cons l left ih =>
    have hb : ¬ b.Holds target := by
      obtain ⟨_, hcons⟩ := nest_eq_cons b outer
      rw [hcons] at hnest
      obtain ⟨rfl, -⟩ := List.cons.inj hnest
      exact hleft _ List.mem_cons_self
    have hclose : ∀ w outer', outer = w :: outer' →
        Nested start base w.block outer' (w.pending.close s).env.depth := by
      rintro w outer' rfl
      exact h.close hbase
    generalize hdepth : s.env.depth = depth at h
    -- the block that is left has another one around it, so it is a branch
    cases h with
    | root => simp [nest] at hnest
    | call => simp [nest] at hnest
    | @branch b outer depth index' line' layout condition first stop hlayout hchosen h =>
      obtain ⟨hl, htail⟩ := List.cons.inj hnest
      obtain ⟨i, n, hleads, hlevel⟩ := ih index' line' (hclose _ _ rfl) htail
        fun l hl => hleft l (List.mem_cons_of_mem _ hl)
      subst hl
      -- the branch ends with an escape, which the conditional hands up
      refine ⟨i, n, .answered ?_, hlevel⟩
      simp only [Config.step, Block.next_of_not_holds hb]
      exact .ended hleads

/-- The blocks that a jump leaves are branches, with frames of their own. -/
theorem left_scope {depth : Nat} {left rest : List Level} {level : Level}
    (h : Nested start base b outer depth) (hnest : nest b outer = left ++ level :: rest) :
    ∀ l ∈ left, base ≤ l.block.scope := by
  induction h generalizing left with
  | root | call =>
    cases left with
    | nil => simp
    | cons l left => simp [nest] at hnest
  | branch _ _ h ih =>
    cases left with
    | nil => simp
    | cons l left =>
      obtain ⟨rfl, htail⟩ := List.cons.inj hnest
      intro l hl
      rcases List.mem_cons.1 hl with rfl | hl
      · exact h.base_le
      · exact ih htail l hl

end Nested

/-! ### What a jump releases -/

/-- A state after the scopes of blocks are released: these are not live any
more, and all else is as it was. -/
structure Releases (left : List Level) (s t : State) : Prop where
  released : ∀ l ∈ left, t.env.isLive l.block.scope = false
  kept : ∀ scope, t.env.isLive scope = true → t.env.frames[scope]? = s.env.frames[scope]?
  rest : t = { s with env := t.env }

theorem releaseScopes_depth_le (env : Environment) (left : List Level) :
    (releaseScopes env left).depth ≤ env.depth := by
  induction left generalizing env with
  | nil => exact Nat.le_refl _
  | cons l left ih =>
    have hrelease := env.depth_release l.block.scope
    have htail := ih (env.release l.block.scope)
    rw [releaseScopes, List.foldl_cons, ← releaseScopes]
    omega

theorem releaseScopes_depth_le_scope (env : Environment) {left : List Level} {l : Level}
    (hl : l ∈ left) : (releaseScopes env left).depth ≤ max l.block.scope 1 := by
  induction left generalizing env with
  | nil => cases hl
  | cons l' left ih =>
    rw [releaseScopes, List.foldl_cons, ← releaseScopes]
    rcases List.mem_cons.1 hl with rfl | hl
    · have htail := releaseScopes_depth_le (env.release l.block.scope) left
      have hrelease := env.depth_release l.block.scope
      omega
    · exact ih _ hl

/-- A frame that is live when scopes were released is as it was. -/
theorem releaseScopes_kept (env : Environment) (left : List Level) {scope : ScopeId}
    (h : scope < (releaseScopes env left).depth) :
    (releaseScopes env left).frames[scope]? = env.frames[scope]? := by
  induction left generalizing env with
  | nil => rfl
  | cons l left ih =>
    rw [releaseScopes, List.foldl_cons, ← releaseScopes] at h ⊢
    have hlive := Nat.lt_of_lt_of_le h (releaseScopes_depth_le _ left)
    rw [Environment.depth_release] at hlive
    rw [ih _ h, Environment.release, ← Array.getElem?_toList, Array.toList_shrink,
      List.getElem?_take_of_lt (by omega), Array.getElem?_toList]

theorem Nested.releases {start b : Block} {base : Nat} {outer : List Suspended} {s : State}
    {left rest : List Level} {level : Level} (hbase : 0 < base)
    (h : Nested start base b outer s.env.depth) (hnest : nest b outer = left ++ level :: rest) :
    Releases left s (s.leaving left) where
  released l hl := by
    have hle := releaseScopes_depth_le_scope s.env hl
    have hscope := h.left_scope hnest l hl
    simp only [Environment.isLive, decide_eq_false_iff_not, Nat.not_lt]
    exact Nat.le_trans hle (by omega)
  kept scope hlive := releaseScopes_kept s.env left (of_decide_eq_true hlive)
  rest := rfl

/-! ### Where execution goes on -/

/-- How execution goes on from a moment `c` in the block `level`, which holds a
position of the root list `code`, when the scopes of `left` are released. -/
structure Lands (c : Config) (s : State) (code : List Instruction) (target : Nat)
    (left : List Level) (level : Level) : Prop where
  /-- The next line is the one at the target, in the scope of the block. -/
  within : target < level.block.origin + level.block.code.length →
    ∃ i, code[target]? = some i ∧
      level.block.code[target - level.block.origin]? = some i ∧
      Leads c (.running level.block (target - level.block.origin) level.outer (s.leaving left))
  /-- At its end the block is completed. -/
  atEnd : target = level.block.origin + level.block.code.length →
    Leads c (.ended level.outer (.ok .completed) (s.leaving left))
  /-- After a branch, the line after the `END` of its conditional is the next. -/
  afterEnd : target = level.block.origin + level.block.code.length →
    ∀ w outer depth endTarget, level.outer = w :: outer → w.pending = .branch depth endTarget →
      ∃ layout, layout? w.block.code (w.index + 1) = some layout ∧
        Leads c (.running w.block (layout.endAt + 1) outer (s.leaving (left ++ [level])))
  /-- The scopes of the blocks that are left are released, and no other. -/
  releases : Releases left s (s.leaving left)
  live : (s.leaving left).env.isLive level.block.scope = true
  /-- What waits outside of the block goes on waiting, in live scopes. -/
  waits : ∀ w ∈ level.outer, (s.leaving left).env.isLive w.block.scope = true

section

variable {start b : Block} {base target : Nat} {outer : List Suspended} {s : State}

/-- In a block that holds its target a jump goes to the target. -/
theorem leads_of_holds (index line : Nat) (ht : b.Holds target) :
    Leads (.answered b index line outer (.ok (.goto target)) s)
      (.running b (target - b.origin) outer s) := by
  refine .answered ?_
  simp only [Config.step, Block.next_of_holds ht]
  exact .refl _

/-- A block in which execution goes on at its end is completed. -/
theorem leads_completed {c : Config} (hend : target = b.origin + b.code.length)
    (h : Leads c (.running b (target - b.origin) outer s)) :
    Leads c (.ended outer (.ok .completed) s) := by
  refine h.trans (.atEnd ?_ (.refl _))
  rw [List.getElem?_eq_none_iff]
  omega

/-- When a branch is completed, its conditional goes on after its `END`. -/
theorem Nested.leads_after_end {c : Config} {w : Suspended} {depth endTarget : Nat}
    (h : Nested start base b (w :: outer) s.env.depth) (hw : w.pending = .branch depth endTarget)
    (hc : Leads c (.ended (w :: outer) (.ok .completed) s)) :
    ∃ layout, layout? w.block.code (w.index + 1) = some layout ∧
      Leads c (.running w.block (layout.endAt + 1) outer
        { s with env := s.env.release b.scope }) := by
  generalize hdepth : s.env.depth = d at h
  cases h with
  | call => cases hw
  | @branch b _ d index line layout condition first stop hlayout hchosen h =>
    obtain ⟨-, hlt, -⟩ := layout?_bounds hlayout
    -- the position after the `END` lies in the block of the conditional
    have hholds : b.Holds (b.origin + layout.endAt + 1) := ⟨by omega, by omega⟩
    refine ⟨layout, hlayout, hc.trans (.ended ?_)⟩
    have hgoto : Leads (.answered b index line outer (.ok (.goto (b.origin + layout.endAt + 1)))
          { s with env := s.env.release d })
        (.running b (b.origin + layout.endAt + 1 - b.origin) outer
          { s with env := s.env.release d }) :=
      leads_of_holds index line hholds
    rwa [Nat.add_assoc, Nat.add_sub_cancel_left] at hgoto

/-- A jump lands in the first block around it that holds its target. -/
theorem Nested.lands (index line : Nat) (hbase : 0 < base) (hstart : start.scope < base)
    (horigin : start.origin = 0) {left rest : List Level} {level : Level}
    (h : Nested start base b outer s.env.depth)
    (hnest : nest b outer = left ++ level :: rest)
    (hleft : ∀ l ∈ left, ¬ l.block.Holds target) (hlevel : level.block.Holds target) :
    Lands (.answered b index line outer (.ok (.goto target)) s) s (rootBlock b outer).code target
      left level := by
  -- up to the block that holds the target, and to the target in it
  obtain ⟨index', line', hup, hn⟩ := h.goto_handed_up hbase index line hnest hleft
  have hgoto := hup.trans (leads_of_holds index' line' hlevel)
  have hmem : level ∈ nest b outer := by
    rw [hnest]
    exact List.mem_append_right _ List.mem_cons_self
  obtain ⟨hle, hslice⟩ := hn.slice horigin
  rw [(root_of_mem_nest hmem).1] at hle hslice
  refine ⟨fun hlt => ?_, fun hend => leads_completed hend hgoto, fun hend => ?_,
    h.releases hbase hnest, ?_, ?_⟩
  · have hge : level.block.origin ≤ target := hlevel.1
    have hlength : target < (rootBlock b outer).code.length := by omega
    refine ⟨_, List.getElem?_eq_getElem hlength, ?_, hgoto⟩
    calc level.block.code[target - level.block.origin]?
      _ = (((rootBlock b outer).code.drop level.block.origin).take
            level.block.code.length)[target - level.block.origin]? :=
        congrArg (fun lines : List Instruction => lines[target - level.block.origin]?) hslice
      _ = (rootBlock b outer).code[target]? := by
        rw [List.getElem?_take_of_lt (by omega), List.getElem?_drop, Nat.add_sub_cancel' hge]
      _ = some (rootBlock b outer).code[target] := List.getElem?_eq_getElem hlength
  · rintro w outer' depth endTarget hw hp
    rw [hw] at hn
    have hcompleted := leads_completed hend hgoto
    rw [hw] at hcompleted
    obtain ⟨layout, hlayout, hleads⟩ := hn.leads_after_end hp hcompleted
    refine ⟨layout, hlayout, ?_⟩
    rwa [State.leaving, releaseScopes, List.foldl_append]
  · exact decide_eq_true (hn.scope_lt hstart)
  · exact fun w hw => decide_eq_true (hn.waiting_lt hstart hw)

/-- A jump to a position that no block around it holds completes the root
block. -/
theorem Nested.leads_of_no_block (index line : Nat) (hbase : 0 < base)
    (hstart : start.nested = false) (h : Nested start base b outer s.env.depth)
    (hnone : ∀ l ∈ nest b outer, ¬ l.block.Holds target) :
    Leads (.answered b index line outer (.ok (.goto target)) s)
        (.ended (callers outer) (.ok .completed) (s.leaving (nest b outer).dropLast)) ∧
      Releases (nest b outer).dropLast s (s.leaving (nest b outer).dropLast) := by
  have hnest := nest_eq_append b outer
  obtain ⟨index', line', hup, -⟩ := h.goto_handed_up hbase index line hnest
    fun l hl => hnone l ((List.dropLast_sublist _).subset hl)
  have hroot : ¬ (rootBlock b outer).Holds target := by
    refine hnone ⟨rootBlock b outer, callers outer⟩ ?_
    rw [hnest]
    exact List.mem_append_right _ List.mem_cons_self
  -- a root block is completed by a jump out of it
  have hnested : (rootBlock b outer).nested = false := by
    have hroot := h.rootOf_rootBlock
    cases hcallers : callers outer with
    | nil =>
      rw [hcallers] at hroot
      obtain rfl : rootBlock b outer = start := hroot
      exact hstart
    | cons w rest =>
      rw [hcallers] at hroot
      obtain ⟨_, _, _, _, _, -, heq⟩ := hroot
      rw [heq]
      rfl
  refine ⟨hup.trans (.answered ?_), h.releases hbase hnest⟩
  simp only [Config.step, Block.next_of_not_holds hroot, hnested]
  exact .refl _

end

/-- **A jump lands in the innermost block that holds its target.** Consider the
moments of a run of a root block. The blocks around the line at hand are parts of
their root list, the program or the body of the innermost active call, and the
line is the one at its absolute position there. When a line answers a jump,
execution goes on in the first block around it that holds the target, at the
target or after the block when the target is its end; when no block holds the
target the root block is completed. The scopes of the blocks in between are
released before, and what waits outside of the innermost call goes on waiting. -/
theorem goto_lands_in_innermost_block {code : List Instruction} {scope : ScopeId} {s₀ : State}
    (hlive : s₀.env.isLive scope = true) :
    (∀ r u, Reaches (.running (.root code scope) 0 [] s₀) (.ended [] r u) ↔
      ∃ fuel, runBlock standardTable fuel (.root code scope) 0 s₀ = (r, u) ∧
        r ≠ .error .outOfFuel) ∧
    (∀ b index outer s,
      Reaches (.running (.root code scope) 0 [] s₀) (.running b index outer s) →
        RootOf (.root code scope) (rootBlock b outer) (callers outer) ∧
        (∀ level ∈ nest b outer,
          level.block.origin + level.block.code.length ≤ (rootBlock b outer).code.length ∧
          level.block.code = ((rootBlock b outer).code.drop level.block.origin).take
            level.block.code.length) ∧
        ∀ i, b.code[index]? = some i →
          (rootBlock b outer).code[Invocation.absolute ⟨b, index, i.operand, i.line⟩]? = some i) ∧
    (∀ b index line outer s target,
      Reaches (.running (.root code scope) 0 [] s₀)
          (.answered b index line outer (.ok (.goto target)) s) →
        (∀ left level rest, nest b outer = left ++ level :: rest →
          (∀ l ∈ left, ¬ l.block.Holds target) → level.block.Holds target →
            Lands (.answered b index line outer (.ok (.goto target)) s) s
                (rootBlock b outer).code target left level ∧
              callers level.outer = callers outer) ∧
        ((∀ l ∈ nest b outer, ¬ l.block.Holds target) →
          Leads (.answered b index line outer (.ok (.goto target)) s)
              (.ended (callers outer) (.ok .completed) (s.leaving (nest b outer).dropLast)) ∧
            Releases (nest b outer).dropLast s (s.leaving (nest b outer).dropLast))) := by
  have hscope : (Block.root code scope).scope < s₀.env.depth := of_decide_eq_true hlive
  have hbase : 0 < s₀.env.depth := Nat.zero_lt_of_lt hscope
  have hnested : ∀ {c : Config}, Reaches (.running (.root code scope) 0 [] s₀) c →
      c.WellNested (.root code scope) s₀.env.depth :=
    fun h => h.invariant (fun c => Config.WellNested.step hbase c) Nested.root
  refine ⟨fun r u => reaches_ended_iff, fun b index outer s h => ?_,
    fun b index line outer s target h => ⟨fun left level rest hnest hleft hlevel => ?_, ?_⟩⟩
  · have hn : Nested (.root code scope) s₀.env.depth b outer s.env.depth := hnested h
    refine ⟨hn.rootOf_rootBlock, fun level hl => ?_, fun i hi => ?_⟩
    · obtain ⟨d, -, hlevel⟩ := hn.of_mem_nest hl
      rw [← (root_of_mem_nest hl).1]
      exact hlevel.slice rfl
    · obtain ⟨-, hslice⟩ := hn.slice rfl
      obtain ⟨hlt, -⟩ := List.getElem?_eq_some_iff.1 hi
      rw [hslice, List.getElem?_take_of_lt hlt, List.getElem?_drop] at hi
      exact hi
  · have hn : Nested (.root code scope) s₀.env.depth b outer s.env.depth := hnested h
    have hmem : level ∈ nest b outer := by
      rw [hnest]
      exact List.mem_append_right _ List.mem_cons_self
    exact ⟨hn.lands index line hbase hscope rfl hnest hleft hlevel, (root_of_mem_nest hmem).2⟩
  · have hn : Nested (.root code scope) s₀.env.depth b outer s.env.depth := hnested h
    exact hn.leads_of_no_block index line hbase rfl

/-- Two conditionals, one in the other, and a jump from the inner branch to a
line of the outer one. -/
def jumpOut : List Instruction :=
  [⟨"IF true", 1⟩, ⟨"IF true", 2⟩, ⟨"JUMP +2", 3⟩, ⟨"END", 4⟩, ⟨"IGNORE", 5⟩,
    ⟨"STD::OUT true", 6⟩, ⟨"END", 7⟩]

/-- The outer branch of `jumpOut` and the line around it. -/
def jumpOutOuter : Level :=
  ⟨(Block.root jumpOut 0).branch 1 6 1, [⟨.root jumpOut 0, 0, 1, .branch 1 7⟩]⟩

/-- The inner branch of `jumpOut` and the lines around it. -/
def jumpOutInner : Level :=
  ⟨jumpOutOuter.block.branch 1 2 2, ⟨jumpOutOuter.block, 0, 2, .branch 2 4⟩ :: jumpOutOuter.outer⟩

/-- The jump in `jumpOut` releases the scope of the inner branch and goes on at
the line behind it in the outer one. -/
theorem jumpOut_lands_in_outer_branch :
    (Interpreter.initialState 10 .silent).env.isLive Environment.root = true ∧
    ∃ s, Reaches (.running (.root jumpOut 0) 0 [] (Interpreter.initialState 10 .silent))
        (.answered jumpOutInner.block 0 3 jumpOutInner.outer (.ok (.goto 5)) s) ∧
      s.env.depth = 3 ∧ (s.leaving [jumpOutInner]).env.depth = 2 ∧
      Leads (.answered jumpOutInner.block 0 3 jumpOutInner.outer (.ok (.goto 5)) s)
        (.running jumpOutOuter.block 4 jumpOutOuter.outer (s.leaving [jumpOutInner])) := by
  have hlive : (Interpreter.initialState 10 .silent).env.isLive Environment.root = true := rfl
  have hreach : Reaches (.running (.root jumpOut 0) 0 [] (Interpreter.initialState 10 .silent))
      (.answered jumpOutInner.block 0 3 jumpOutInner.outer (.ok (.goto 5)) _) := ⟨3, rfl⟩
  obtain ⟨-, -, hgoto⟩ := goto_lands_in_innermost_block hlive
  obtain ⟨hlands, -⟩ := (hgoto _ _ _ _ _ _ hreach).1 [jumpOutInner] jumpOutOuter
    [⟨.root jumpOut 0, []⟩] rfl (by simp only [List.mem_singleton]; rintro l rfl; decide)
    (by decide)
  obtain ⟨_, -, -, hleads⟩ := hlands.within (by decide)
  exact ⟨hlive, _, hreach, rfl, rfl, hleads⟩
end LineScript
