import LineScript.Value.Basic

/-!
# Environment

The bindings of a running script live in frames. Frame 0 is the root; every
other frame has a parent, and a name is looked up in a frame, then in its
parent, and so on. Frames are released in the opposite order of their creation.

- `Bindings`: the bindings of one frame, sorted by name.
- `Environment.child`, `release`: make and release frames.
- `Environment.declare`, `find?`, `owner?`, `assign`: work on bindings.
- `Environment.strays`: a search that comes to a frame that is not live.
- `find?_eq`: what is found under a name is bound in the frame that owns it.
- `depth_child`, `depth_declare`, `depth_modify`, `depth_release`: what each
  operation does to the number of frames.
-/

namespace LineScript

/-- A value with the answer whether it may be assigned again. -/
structure Binding where
  value : Value
  constant : Bool
deriving DecidableEq

/-- The bindings of a frame, sorted by name, each name once. -/
abbrev Bindings := List (String × Binding)

namespace Bindings

/-- The binding of a name. -/
def find? (id : String) (bs : Bindings) : Option Binding :=
  bs.lookup id

/-- The bindings with `id` bound to `b`, in place of what it was bound to. -/
def insert (id : String) (b : Binding) : Bindings → Bindings
  | [] => [(id, b)]
  | (k, c) :: rest =>
    if id < k then (id, b) :: (k, c) :: rest
    else if id = k then (id, b) :: rest
    else (k, c) :: insert id b rest

end Bindings

/-- The number of a frame. -/
abbrev ScopeId := Nat

/-- A frame: its bindings and its parent; the root has none. -/
structure Frame where
  bindings : Bindings
  parent : Option ScopeId
deriving DecidableEq

/-- The live frames, the root first. -/
structure Environment where
  frames : Array Frame
deriving DecidableEq

namespace Environment

/-- An environment with an empty root frame. -/
def new : Environment :=
  ⟨#[⟨[], none⟩]⟩

/-- The root frame. -/
def root : ScopeId := 0

/-- The number of live frames. -/
def depth (env : Environment) : Nat :=
  env.frames.size

/-- Whether a frame is live. -/
def isLive (env : Environment) (scope : ScopeId) : Bool :=
  scope < env.depth

/-- The parent of a frame; the root has none. -/
def parent? (env : Environment) (scope : ScopeId) : Option ScopeId :=
  env.frames[scope]?.bind Frame.parent

/-- The bindings of a frame, sorted by name. -/
def bindings (env : Environment) (scope : ScopeId) : Bindings :=
  (env.frames[scope]?.map Frame.bindings).getD []

/-- The environment with a new, empty frame, and the number of that frame. Frames are
numbered without end; numbers of 32 bits that saturate, which a host may use, are the
same for the first `2 ^ 32` live frames. -/
def child (env : Environment) (parent : ScopeId) : ScopeId × Environment :=
  (env.depth, ⟨env.frames.push ⟨[], some parent⟩⟩)

/-- The environment with the first `depth` frames only. The root stays. -/
def release (env : Environment) (depth : Nat) : Environment :=
  ⟨env.frames.shrink (max depth 1)⟩

/-- The environment with the bindings of one frame changed. -/
def modify (env : Environment) (scope : ScopeId) (f : Bindings → Bindings) : Environment :=
  ⟨env.frames.modify scope fun frame => { frame with bindings := f frame.bindings }⟩

/-- Bind a name in one frame, in place of what it was bound to there. -/
def declare (env : Environment) (scope : ScopeId) (id : String) (b : Binding) : Environment :=
  env.modify scope (Bindings.insert id b)

/-- The frame that binds a name, among the first `n` frames from `scope` on
upwards. -/
def ownerAmong (env : Environment) (id : String) : Nat → ScopeId → Option ScopeId
  | 0, _ => none
  | n + 1, scope =>
    match env.frames[scope]? with
    | none => none
    | some frame =>
      if (frame.bindings.find? id).isSome then some scope
      else
        match frame.parent with
        | none => none
        | some up => env.ownerAmong id n up

/-- The frame, from `scope` on upwards, that binds a name. The way to the root
meets no frame twice, so it is not longer than there are frames. -/
def owner? (env : Environment) (scope : ScopeId) (id : String) : Option ScopeId :=
  env.ownerAmong id env.depth scope

/-- The binding of a name in the nearest frame that binds it, among the first `n`
frames from `scope` on upwards. -/
def findAmong (env : Environment) (id : String) : Nat → ScopeId → Option Binding
  | 0, _ => none
  | n + 1, scope =>
    match env.frames[scope]? with
    | none => none
    | some frame =>
      match frame.bindings.find? id with
      | some b => some b
      | none =>
        match frame.parent with
        | none => none
        | some up => env.findAmong id n up

/-- The binding of a name as seen from a frame: the nearest one upwards. -/
def find? (env : Environment) (scope : ScopeId) (id : String) : Option Binding :=
  env.findAmong id env.depth scope

/-- Whether the search for a name comes to a frame that is not live, among the first `n`
frames from `scope` on upwards. -/
def straysAmong (env : Environment) (id : String) : Nat → ScopeId → Bool
  | 0, _ => false
  | n + 1, scope =>
    if !env.isLive scope then true
    else if ((env.bindings scope).find? id).isSome then false
    else
      match env.parent? scope with
      | none => false
      | some up => env.straysAmong id n up

/-- Whether the search for a name, from `scope` on upwards, leaves the live frames. Such
a search has no answer; `find?` and `owner?` give `none` there. A host that keeps the number
of a released frame can ask for one, a run cannot. -/
def strays (env : Environment) (scope : ScopeId) (id : String) : Bool :=
  env.straysAmong id (env.depth + 1) scope

/-- Replace the binding of a name, as seen from a frame, where it stands.
`none` when no frame upwards binds it. -/
def rebind? (env : Environment) (scope : ScopeId) (id : String) (f : Binding → Binding) :
    Option Environment :=
  match env.owner? scope id with
  | none => none
  | some owner =>
    match (env.bindings owner).find? id with
    | none => none
    | some b => some (env.declare owner id (f b))

/-- Give a name a new value where it is bound; it stays constant if it was. -/
def set? (env : Environment) (scope : ScopeId) (id : String) (value : Value) :
    Option Environment :=
  env.rebind? scope id fun b => { b with value := value }

/-! ### What is found, and where -/

/-- What is found under a name is bound in the frame that owns it. -/
theorem findAmong_eq (env : Environment) (id : String) (n : Nat) (scope : ScopeId) :
    env.findAmong id n scope =
      (env.ownerAmong id n scope).bind fun owner => (env.bindings owner).find? id := by
  induction n generalizing scope with
  | zero => rfl
  | succ n ih =>
    rw [findAmong, ownerAmong]
    cases hframe : env.frames[scope]? with
    | none => rfl
    | some frame =>
      cases hown : frame.bindings.find? id with
      | some b =>
        have hscope : env.bindings scope = frame.bindings := by rw [bindings, hframe]; rfl
        simp [hown, hscope]
      | none =>
        cases hup : frame.parent with
        | none => simp [hown, hup]
        | some up => simp [hown, hup, ih]

theorem find?_eq (env : Environment) (scope : ScopeId) (id : String) :
    env.find? scope id =
      (env.owner? scope id).bind fun owner => (env.bindings owner).find? id :=
  env.findAmong_eq id env.depth scope

/-! ### The number of frames -/

section depth

variable (env : Environment)

@[simp] theorem depth_new : new.depth = 1 := rfl

@[simp] theorem depth_child (parent : ScopeId) : (env.child parent).2.depth = env.depth + 1 := by
  simp [child, depth]

@[simp] theorem depth_modify (scope : ScopeId) (f : Bindings → Bindings) :
    (env.modify scope f).depth = env.depth := by
  simp [modify, depth]

@[simp] theorem depth_declare (scope : ScopeId) (id : String) (b : Binding) :
    (env.declare scope id b).depth = env.depth := by
  simp [declare]

theorem depth_release (d : Nat) : (env.release d).depth = min (max d 1) env.depth := by
  simp [release, depth]

end depth

end Environment

end LineScript
