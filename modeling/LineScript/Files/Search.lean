import LineScript.Files.Script

/-!
# Finding scripts

The scripts below a directory are searched for one directory at a time: the entries of
a directory are looked at, its scripts are noted, and the directories in it are read
later. What is found is put in the order of paths.

- `pathComponents`, `pathLE`: the order of paths, component by component.
- `Search`, `Search.step`: a search under way, and one more directory.
- `Search.size_step`, `Search.run`: a search comes to its end.
- `Files.scriptsBelow`, `Files.discover`: the scripts below a directory, and at a path.
-/

namespace LineScript

/-! ### The order of paths -/

/-- A component of a path: the root, the place where a path starts, one directory up, or
a name. -/
inductive Component where
  | root
  | here
  | up
  | name (text : String)
deriving DecidableEq, Repr

namespace Component

/-- The kinds of components in their order. -/
def rank : Component → Nat
  | root => 0
  | here => 1
  | up => 2
  | name _ => 3

/-- The text by which components of one kind are compared. -/
def text : Component → String
  | root | here | up => ""
  | name text => text

instance : LT Component :=
  ⟨fun c d => c.rank < d.rank ∨ c.rank = d.rank ∧ c.text < d.text⟩

instance : DecidableLT Component :=
  fun c d => inferInstanceAs (Decidable (c.rank < d.rank ∨ c.rank = d.rank ∧ c.text < d.text))

end Component

/-- The component that a part of a path stands for. -/
def partComponent (part : String) : Component :=
  if part = ".." then .up else .name part

/-- The components of a path. Empty parts do not count, and a part that stays where it is
counts only at the start of a path. -/
def pathComponents (path : String) : List Component :=
  let start := if isAbsolute path then [.root]
    else if (pathParts path).head? = some "." then [.here] else []
  start ++ (pathNames path).map partComponent

/-- The order of paths: component by component, names by their code points. -/
def pathLE (p q : String) : Bool :=
  !decide (pathComponents q < pathComponents p)

/-! ### Searches -/

/-- A name that searches pass over. -/
def isHidden (name : String) : Bool :=
  name.toList.head? = some '.'

/-- The directories whose contents searches pass over. -/
def skippedDirectories : List String :=
  ["target", "node_modules"]

/-- The number of directories in a directory, itself included. -/
def Entries.directories : Entries → Nat
  | .nil => 1
  | .file _ _ rest => rest.directories
  | .directory _ children rest => children.directories + rest.directories

/-- A search under way: the directories still to be read, each with its path, the next one
first, and the paths of the scripts found so far. -/
structure Search where
  pending : List (String × Entries)
  found : List String

namespace Search

/-- Look at one entry of the directory at a path. -/
def visit (dir name : String) (item : Item) (s : Search) : Search :=
  let path := joinPath dir name
  if isHidden name then s
  else
    match item with
    | .directory entries =>
      if skippedDirectories.contains name then s
      else { s with pending := (path, entries) :: s.pending }
    | .file _ => if isScript path then { s with found := s.found ++ [path] } else s

/-- Look at the entries of the directory at a path, one after the other. -/
def read (dir : String) : Entries → Search → Search
  | .nil, s => s
  | .file name bytes rest, s => read dir rest (s.visit dir name (.file bytes))
  | .directory name children rest, s => read dir rest (s.visit dir name (.directory children))

/-- Read the next directory; `none` when none is left. -/
def step (s : Search) : Option Search :=
  match s.pending with
  | [] => none
  | (dir, entries) :: pending => some (read dir entries { s with pending })

/-- The number of directories that may still be read. -/
def size (s : Search) : Nat :=
  s.pending.foldr (fun next count => next.2.directories + count) 0

theorem size_visit_file (dir name : String) (bytes : ByteArray) (s : Search) :
    (s.visit dir name (.file bytes)).size = s.size := by
  unfold visit
  dsimp only
  split
  · rfl
  · split <;> rfl

theorem size_visit_directory (dir name : String) (children : Entries) (s : Search) :
    (s.visit dir name (.directory children)).size ≤ children.directories + s.size := by
  unfold visit
  dsimp only
  split
  · exact Nat.le_add_left _ _
  · split
    · exact Nat.le_add_left _ _
    · exact Nat.le_refl _

/-- A directory that has been read is replaced by the fewer ones in it. -/
theorem size_read (dir : String) (entries : Entries) (s : Search) :
    (read dir entries s).size < entries.directories + s.size := by
  induction entries generalizing s with
  | nil => exact Nat.lt_add_of_pos_left Nat.one_pos
  | file name bytes rest ih =>
    have h := ih (s.visit dir name (.file bytes))
    rwa [size_visit_file] at h
  | directory name children rest _ ih =>
    have hvisit := size_visit_directory dir name children s
    have hrest := ih (s.visit dir name (.directory children))
    show (read dir rest _).size < children.directories + rest.directories + s.size
    omega

/-- With each step fewer directories may still be read. -/
theorem size_step {s t : Search} (h : s.step = some t) : t.size < s.size := by
  obtain ⟨pending, found⟩ := s
  cases pending with
  | nil => cases h
  | cons next pending =>
    obtain ⟨dir, entries⟩ := next
    obtain rfl := Option.some.inj h
    exact size_read dir entries ⟨pending, found⟩

/-- The end of a search: no directory is left. -/
def run (s : Search) : Search :=
  match _h : s.step with
  | none => s
  | some t => t.run
termination_by s.size
decreasing_by exact size_step _h

end Search

namespace Files

/-- The paths of the scripts below a directory, in order. -/
def scriptsBelow (fs : Files) (root : String) : List String :=
  match fs.resolve root with
  | .ok (.directory entries) => (Search.run ⟨[(root, entries)], []⟩).found.mergeSort pathLE
  | .ok (.file _) | .error _ => []

/-- The paths of the scripts at a path, in order: those below a directory, or
the path itself if it names a script file. -/
def discover (fs : Files) (path : String) : List String :=
  match fs.resolve path with
  | .ok (.directory _) => fs.scriptsBelow path
  | .ok (.file _) => if isScript path then [path] else []
  | .error _ => []

end Files

end LineScript
