import LineScript.Proofs.Files.Paths
import Mathlib.Logic.Relation

/-!
# Searches

A search keeps the directories that it has still to read in a stack, and looks at their
entries in the order in which they are listed. What it comes to does not depend on
that: the scripts found so far and those in the directories still to be read are
together, after every step, the scripts there were before.

- `Entries.scripts`: the scripts of a directory and of those in it, by recursion over
  the tree.
- `Search.perm_visit`, `Search.perm_read`, `Search.perm_step`: no step loses or adds one.
- `Search.reaches_run`, `Search.perm_run`: the end of a search.
- `Search.stands_step`, `Search.Stands.of_reaches`: a directory that waits is the one at
  its path.
-/

namespace LineScript

namespace Entries

/-- An entry in front of others. -/
def cons (name : String) : Item → Entries → Entries
  | .file bytes, rest => .file name bytes rest
  | .directory children, rest => .directory name children rest

/-- The entries with their names, as they are listed. -/
def toList : Entries → List (String × Item)
  | .nil => []
  | .file name bytes rest => (name, .file bytes) :: rest.toList
  | .directory name children rest => (name, .directory children) :: rest.toList

/-- The names of the entries. -/
def names (entries : Entries) : List String :=
  entries.toList.map Prod.fst

/-- Every name is one that entries have, and stands for one entry only, here and in the
directories below. -/
inductive Lawful : Entries → Prop where
  | nil : Lawful .nil
  | file {name : String} {bytes : ByteArray} {rest : Entries} (hname : IsEntryName name)
      (hfresh : name ∉ rest.names) (hrest : Lawful rest) : Lawful (.file name bytes rest)
  | directory {name : String} {children rest : Entries} (hname : IsEntryName name)
      (hfresh : name ∉ rest.names) (hchildren : Lawful children) (hrest : Lawful rest) :
      Lawful (.directory name children rest)

/-- The paths of the scripts of the directory at a path and of those in it that are
not passed over. -/
def scripts (dir : String) : Entries → List String
  | .nil => []
  | .file name _ rest =>
    (if isHidden name = false ∧ isScript (joinPath dir name) then [joinPath dir name] else []) ++
      rest.scripts dir
  | .directory name children rest =>
    (if isHidden name = true ∨ name ∈ skippedDirectories then []
      else children.scripts (joinPath dir name)) ++ rest.scripts dir

end Entries

/-- The paths of the scripts that an entry of the directory at a path brings. -/
def Item.scripts (dir name : String) : Item → List String
  | .file _ =>
    if isHidden name = false ∧ isScript (joinPath dir name) then [joinPath dir name] else []
  | .directory children =>
    if isHidden name = true ∨ name ∈ skippedDirectories then []
    else children.scripts (joinPath dir name)

namespace Entries

theorem toList_cons (name : String) (item : Item) (rest : Entries) :
    (cons name item rest).toList = (name, item) :: rest.toList := by
  cases item <;> rfl

theorem scripts_cons (dir name : String) (item : Item) (rest : Entries) :
    (cons name item rest).scripts dir = item.scripts dir name ++ rest.scripts dir := by
  cases item <;> rfl

/-! ### The entries of a lawful directory -/

/-- The entry of a name is the one that is listed with it. -/
theorem Lawful.find?_eq_some_iff {entries : Entries} (h : entries.Lawful) {name : String}
    {item : Item} : entries.find? name = some item ↔ (name, item) ∈ entries.toList := by
  have hfirst : ∀ {n : String} {first : Item} {rest : Entries}, n ∉ rest.names →
      (rest.find? name = some item ↔ (name, item) ∈ rest.toList) →
      ((if n = name then some first else rest.find? name) = some item ↔
        (name, item) ∈ (n, first) :: rest.toList) := by
    intro n first rest hfresh ih
    rw [List.mem_cons, Prod.mk.injEq]
    by_cases hn : n = name
    · subst hn
      rw [if_pos rfl, Option.some.injEq]
      constructor
      · rintro rfl
        exact .inl ⟨rfl, rfl⟩
      · rintro (⟨-, rfl⟩ | hmem)
        · rfl
        · exact absurd (List.mem_map_of_mem hmem) hfresh
    · rw [if_neg hn, ih]
      exact ⟨.inr, fun hor => hor.resolve_left fun heq => hn heq.1.symm⟩
  induction h with
  | nil => simp [find?, toList]
  | file _ hfresh _ ih => exact hfirst hfresh ih
  | directory _ hfresh _ _ _ ih => exact hfirst hfresh ih

theorem Lawful.entry_eq_ok_iff {entries : Entries} (h : entries.Lawful) {name : String}
    {item : Item} :
    (Item.directory entries).entry name = .ok item ↔ (name, item) ∈ entries.toList := by
  rw [← h.find?_eq_some_iff, Item.entry]
  cases entries.find? name with
  | none => simp
  | some found => simp

/-- What stands in a directory under a name is what is listed with it. -/
theorem Lawful.resolve_joinPath_iff {fs : Files} {entries : Entries} (h : entries.Lawful)
    {dir name : String} {item : Item} (hdir : fs.resolve dir = .ok (.directory entries))
    (hname : IsEntryName name) :
    fs.resolve (joinPath dir name) = .ok item ↔ (name, item) ∈ entries.toList := by
  rw [fs.resolve_joinPath (Files.ne_empty_of_resolve hdir) hname, hdir]
  exact h.entry_eq_ok_iff

theorem Lawful.isEntryName {entries : Entries} (h : entries.Lawful) {name : String} {item : Item}
    (hmem : (name, item) ∈ entries.toList) : IsEntryName name := by
  induction h with
  | nil => cases hmem
  | file hname _ _ ih | directory hname _ _ _ _ ih =>
    obtain heq | hrest := List.mem_cons.1 hmem
    · exact (Prod.mk.inj heq).1 ▸ hname
    · exact ih hrest

theorem Lawful.of_mem {entries children : Entries} (h : entries.Lawful) {name : String}
    (hmem : (name, .directory children) ∈ entries.toList) : children.Lawful := by
  induction h with
  | nil => cases hmem
  | file _ _ _ ih =>
    obtain heq | hrest := List.mem_cons.1 hmem
    · cases heq
    · exact ih hrest
  | directory _ _ hchildren _ _ ih =>
    obtain heq | hrest := List.mem_cons.1 hmem
    · cases heq
      exact hchildren
    · exact ih hrest

end Entries

namespace Search

/-- The scripts found so far and those in the directories still to be read. -/
def all (s : Search) : List String :=
  s.found ++ s.pending.flatMap fun (dir, entries) => entries.scripts dir

/-! ### No script is lost or added -/

/-- Looking at an entry adds the scripts that it brings. -/
theorem perm_visit (dir name : String) (item : Item) (s : Search) :
    (s.visit dir name item).all.Perm (s.all ++ item.scripts dir name) := by
  have hcomm : ∀ scripts : List String,
      (s.found ++ (scripts ++ s.pending.flatMap fun (dir, entries) => entries.scripts dir)).Perm
        (s.all ++ scripts) := by
    intro scripts
    rw [all, List.append_assoc]
    exact List.perm_append_comm.append_left s.found
  have hnone : s.all.Perm (s.all ++ []) := by
    rw [List.append_nil]
  unfold visit Item.scripts
  cases hhidden : isHidden name with
  | true =>
    cases item with
    | file bytes => simp
    | directory children => simp
  | false =>
    cases item with
    | file bytes =>
      simp only [Bool.false_eq_true, if_false, true_and]
      split
      · simpa only [all, List.append_assoc] using hcomm [joinPath dir name]
      · exact hnone
    | directory children =>
      simp only [Bool.false_eq_true, if_false, false_or, List.contains_iff_mem]
      split
      · exact hnone
      · exact hcomm (children.scripts (joinPath dir name))

/-- Looking at the entries of a directory adds the scripts of that directory. -/
theorem perm_read (dir : String) (entries : Entries) (s : Search) :
    (read dir entries s).all.Perm (s.all ++ entries.scripts dir) := by
  -- an entry in front of others adds its scripts, and the others add theirs
  have hcons : ∀ (name : String) (item : Item) (rest : Entries) (s : Search),
      (read dir rest (s.visit dir name item)).all.Perm
        ((s.visit dir name item).all ++ rest.scripts dir) →
      (read dir rest (s.visit dir name item)).all.Perm
        (s.all ++ (Entries.cons name item rest).scripts dir) := by
    intro name item rest s ih
    refine ih.trans ?_
    rw [Entries.scripts_cons, ← List.append_assoc]
    exact (perm_visit dir name item s).append_right (rest.scripts dir)
  induction entries generalizing s with
  | nil => rw [read, Entries.scripts, List.append_nil]
  | file name bytes rest ih => exact hcons name (.file bytes) rest s (ih _)
  | directory name children rest _ ih => exact hcons name (.directory children) rest s (ih _)

/-- A directory that is read gives way to its scripts. -/
theorem perm_step {s t : Search} (h : s.step = some t) : t.all.Perm s.all := by
  obtain ⟨pending, found⟩ := s
  cases pending with
  | nil => cases h
  | cons next pending =>
    obtain ⟨dir, entries⟩ := next
    obtain rfl := Option.some.inj h
    refine (perm_read dir entries ⟨pending, found⟩).trans ?_
    rw [all, all, List.flatMap_cons, List.append_assoc]
    exact List.perm_append_comm.append_left found

/-! ### The end of a search -/

/-- One search comes to another by some number of steps. -/
abbrev Reaches : Search → Search → Prop :=
  Relation.ReflTransGen fun s t => s.step = some t

theorem run_none {s : Search} (h : s.step = none) : s.run = s := by
  rw [run, h]

theorem run_some {s t : Search} (h : s.step = some t) : s.run = t.run := by
  rw [run, h]

/-- A search comes to its end, and there it cannot go on. -/
theorem reaches_run (s : Search) : s.Reaches s.run ∧ s.run.step = none := by
  induction s using run.induct with
  | case1 s hnone =>
    rw [run_none hnone]
    exact ⟨.refl, hnone⟩
  | case2 s t hsome ih =>
    rw [run_some hsome]
    exact ⟨.head hsome ih.1, ih.2⟩

theorem perm_of_reaches {s t : Search} (h : s.Reaches t) : t.all.Perm s.all := by
  induction h with
  | refl => exact .refl _
  | tail _ hstep ih => exact (perm_step hstep).trans ih

/-- At the end nothing is pending, and all scripts have been found. -/
theorem perm_run (s : Search) : s.run.found.Perm s.all := by
  obtain ⟨hreaches, hend⟩ := reaches_run s
  have hpending : s.run.pending = [] := by
    unfold step at hend
    split at hend
    · assumption
    · cases hend
  have hall : s.run.all = s.run.found := by
    rw [all, hpending, List.flatMap_nil, List.append_nil]
  exact hall ▸ perm_of_reaches hreaches

/-! ### What waits is what stands at its path -/

/-- Every directory that waits is the one that stands at its path. -/
def Stands (fs : Files) (s : Search) : Prop :=
  ∀ dir entries, (dir, entries) ∈ s.pending →
    fs.resolve dir = .ok (.directory entries) ∧ entries.Lawful

theorem stands_visit {fs : Files} {dir name : String} {item : Item} {s : Search}
    (hitem : fs.resolve (joinPath dir name) = .ok item)
    (hlawful : ∀ children, item = .directory children → children.Lawful) (h : s.Stands fs) :
    (s.visit dir name item).Stands fs := by
  unfold visit
  dsimp only
  split
  · exact h
  · cases item with
    | file bytes =>
      dsimp only
      split <;> exact h
    | directory children =>
      dsimp only
      split
      · exact h
      · intro dir' entries hmem
        obtain heq | hpending := List.mem_cons.1 hmem
        · cases heq
          exact ⟨hitem, hlawful children rfl⟩
        · exact h dir' entries hpending

theorem stands_read {fs : Files} {dir : String} {entries : Entries} {s : Search}
    (hentries : ∀ name item, (name, item) ∈ entries.toList →
      fs.resolve (joinPath dir name) = .ok item ∧
        ∀ children, item = .directory children → children.Lawful)
    (h : s.Stands fs) : (read dir entries s).Stands fs := by
  induction entries generalizing s with
  | nil => exact h
  | file name bytes rest ih | directory name children rest _ ih =>
    obtain ⟨hitem, hlawful⟩ := hentries _ _ List.mem_cons_self
    exact ih (fun name item hmem => hentries name item (List.mem_cons_of_mem _ hmem))
      (stands_visit hitem hlawful h)

/-- What is put aside while a directory is read stands at the path that leads on
from it. -/
theorem stands_step {fs : Files} {s t : Search} (hstep : s.step = some t) (h : s.Stands fs) :
    t.Stands fs := by
  obtain ⟨pending, found⟩ := s
  cases pending with
  | nil => cases hstep
  | cons next pending =>
    obtain ⟨dir, entries⟩ := next
    obtain rfl := Option.some.inj hstep
    obtain ⟨hdir, hlawful⟩ := h dir entries List.mem_cons_self
    refine stands_read (fun name item hmem => ?_) fun dir' entries' hmem =>
      h dir' entries' (List.mem_cons_of_mem _ hmem)
    constructor
    · exact (hlawful.resolve_joinPath_iff hdir (hlawful.isEntryName hmem)).2 hmem
    · rintro children rfl
      exact hlawful.of_mem hmem

theorem Stands.of_reaches {fs : Files} {s t : Search} (hreaches : s.Reaches t) (h : s.Stands fs) :
    t.Stands fs := by
  induction hreaches with
  | refl => exact h
  | tail _ hstep ih => exact stands_step hstep ih

end Search

end LineScript
