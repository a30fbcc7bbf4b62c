import LineScript.Proofs.Files.ScriptNames
import LineScript.Proofs.Files.Searches
import Mathlib.Data.List.Nodup

/-!
# What a search finds

The scripts below a directory are the files with the extension of scripts to which a way
leads from there that passes no hidden name and no directory that searches pass over.
Each is found once, and they come in the order of paths, however the entries of the
directories are listed.

- `joinPaths_components_injective`, `Entries.Lawful.hasFile_iff`: a path tells by which names
  it leads on, and where they lead.
- `VisibleWay`, `Entries.Lawful.mem_scripts_iff`: the ways to the scripts of a directory.
- `Entries.Lawful.nodup_scripts`, `Entries.Rearranged.perm_scripts`: no script comes twice,
  and the order of the entries does not matter.
- `Files.scriptsBelow_finds_visible`: the scripts below a directory are the visible ones.
-/

namespace LineScript

/-! ### Ways of names -/

/-- A path continued by names, one after the other. -/
def joinPaths (path : String) (names : List String) : String :=
  names.foldl joinPath path

section

variable {path : String} {names : List String}

theorem joinPaths_cons (path name : String) (names : List String) :
    joinPaths path (name :: names) = joinPaths (joinPath path name) names := rfl

theorem pathComponents_joinPaths (hpath : path ≠ "") (hnames : ∀ name ∈ names, IsEntryName name) :
    pathComponents (joinPaths path names) = pathComponents path ++ names.map .name := by
  induction names generalizing path with
  | nil => rw [joinPaths, List.foldl_nil, List.map_nil, List.append_nil]
  | cons name names ih =>
    obtain ⟨hname, hnames⟩ := List.forall_mem_cons.1 hnames
    rw [joinPaths_cons, ih (joinPath_ne_empty hpath) hnames, pathComponents_joinPath hpath hname,
      List.append_assoc, List.singleton_append, List.map_cons]

/-- The names by which a path was continued are found in its components. -/
theorem joinPaths_components_injective {names' : List String} (hpath : path ≠ "")
    (hnames : ∀ name ∈ names, IsEntryName name) (hnames' : ∀ name ∈ names', IsEntryName name)
    (h : pathComponents (joinPaths path names) = pathComponents (joinPaths path names')) :
    names = names' := by
  rw [pathComponents_joinPaths hpath hnames, pathComponents_joinPaths hpath hnames'] at h
  exact List.map_injective_iff.2 (fun _ _ h => Component.name.inj h) (List.append_cancel_left h)

/-- Only from a directory does a way of names lead on. -/
theorem Files.directory_of_resolve_joinPaths {fs : Files} {item : Item} (hpath : path ≠ "")
    (hne : names ≠ []) (hnames : ∀ name ∈ names, IsEntryName name)
    (h : fs.resolve (joinPaths path names) = .ok item) :
    ∃ entries, fs.resolve path = .ok (.directory entries) := by
  induction names generalizing path with
  | nil => exact absurd rfl hne
  | cons name names ih =>
    obtain ⟨hname, hnames⟩ := List.forall_mem_cons.1 hnames
    have hnext : ∃ next, fs.resolve (joinPath path name) = .ok next := by
      by_cases hrest : names = []
      · subst hrest
        exact ⟨item, h⟩
      · obtain ⟨entries, hentries⟩ := ih (joinPath_ne_empty hpath) hrest hnames h
        exact ⟨_, hentries⟩
    obtain ⟨next, hnext⟩ := hnext
    rw [fs.resolve_joinPath hpath hname] at hnext
    cases hresolve : fs.resolve path with
    | error e =>
      rw [hresolve] at hnext
      cases hnext
    | ok here =>
      cases here with
      | directory entries => exact ⟨entries, rfl⟩
      | file bytes =>
        rw [hresolve] at hnext
        cases hnext

end

namespace Entries

/-- A way through directories leads to a file of a name. -/
def HasFile (name : String) : List String → Entries → Prop
  | [], entries => ∃ bytes, (name, .file bytes) ∈ entries.toList
  | d :: directories, entries =>
    ∃ children, (d, .directory children) ∈ entries.toList ∧ HasFile name directories children

/-- A way stays one behind an entry in front. -/
theorem HasFile.cons {rest : Entries} {directories : List String} {name : String}
    (h : rest.HasFile name directories) (n : String) (first : Item) :
    (cons n first rest).HasFile name directories := by
  cases directories with
  | nil =>
    obtain ⟨bytes, hmem⟩ := h
    exact ⟨bytes, toList_cons n first rest ▸ List.mem_cons_of_mem _ hmem⟩
  | cons d directories =>
    obtain ⟨children, hmem, hfile⟩ := h
    exact ⟨children, toList_cons n first rest ▸ List.mem_cons_of_mem _ hmem, hfile⟩

/-- The first name of a way is that of an entry. -/
theorem HasFile.head_mem {entries : Entries} {directories : List String} {name : String}
    (h : entries.HasFile name directories) :
    ∃ first names, directories ++ [name] = first :: names ∧ first ∈ entries.names := by
  cases directories with
  | nil =>
    obtain ⟨bytes, hmem⟩ := h
    exact ⟨name, [], rfl, List.mem_map_of_mem hmem⟩
  | cons d directories =>
    obtain ⟨children, hmem, -⟩ := h
    exact ⟨d, directories ++ [name], rfl, List.mem_map_of_mem hmem⟩

theorem HasFile.isEntryName {entries : Entries} (h : entries.Lawful) {name : String}
    {directories : List String} (hfile : entries.HasFile name directories) :
    ∀ n ∈ directories ++ [name], IsEntryName n := by
  induction directories generalizing entries with
  | nil =>
    obtain ⟨bytes, hmem⟩ := hfile
    exact List.forall_mem_singleton.2 (h.isEntryName hmem)
  | cons d directories ih =>
    obtain ⟨children, hmem, hfile⟩ := hfile
    exact List.forall_mem_cons.2 ⟨h.isEntryName hmem, ih (h.of_mem hmem) hfile⟩

/-- A way through the directories of a tree leads to what stands at the path of its names. -/
theorem Lawful.hasFile_iff {fs : Files} {entries : Entries} (h : entries.Lawful) {dir name : String}
    {directories : List String} (hdir : fs.resolve dir = .ok (.directory entries))
    (hnames : ∀ n ∈ directories ++ [name], IsEntryName n) :
    entries.HasFile name directories ↔
      ∃ bytes, fs.resolve (joinPaths dir (directories ++ [name])) = .ok (.file bytes) := by
  induction directories generalizing entries dir with
  | nil =>
    have hname := hnames name List.mem_cons_self
    exact exists_congr fun bytes => (h.resolve_joinPath_iff hdir hname).symm
  | cons d directories ih =>
    obtain ⟨hd, hnames⟩ := List.forall_mem_cons.1 hnames
    rw [List.cons_append, joinPaths_cons]
    constructor
    · rintro ⟨children, hmem, hfile⟩
      exact (ih (h.of_mem hmem) ((h.resolve_joinPath_iff hdir hd).2 hmem) hnames).1 hfile
    · rintro ⟨bytes, hfile⟩
      obtain ⟨children, hchildren⟩ := Files.directory_of_resolve_joinPaths
        (joinPath_ne_empty (Files.ne_empty_of_resolve hdir)) (by simp) hnames hfile
      have hmem := (h.resolve_joinPath_iff hdir hd).1 hchildren
      exact ⟨children, hmem, (ih (h.of_mem hmem) hchildren hnames).2 ⟨bytes, hfile⟩⟩

end Entries

/-! ### Visible ways -/

/-- A way through directories to a file of a name that searches take: the file is a
script, nothing on the way is hidden, and no directory is one of those that are passed
over. -/
structure VisibleWay (directories : List String) (name : String) : Prop where
  extension : HasScriptExtension name
  shown : ¬StartsWithDot name
  searched : ∀ d ∈ directories, ¬StartsWithDot d ∧ d ≠ "target" ∧ d ≠ "node_modules"

section

variable {dir name path : String} {entries children : Entries}

theorem Item.mem_scripts_file {bytes : ByteArray} (hdir : dir ≠ "") (hname : IsEntryName name) :
    path ∈ (Item.file bytes).scripts dir name ↔
      HasScriptExtension name ∧ ¬StartsWithDot name ∧ path = joinPath dir name := by
  rw [← isHidden_iff, ← isScriptName_iff, ← isScript_joinPath hdir hname, scripts,
    Bool.not_eq_true]
  split
  · next h => simp only [List.mem_singleton, h.1, h.2, true_and]
  · next h =>
    refine ⟨fun hmem => absurd hmem List.not_mem_nil, ?_⟩
    rintro ⟨hscript, hshown, -⟩
    exact absurd ⟨hshown, hscript⟩ h

theorem Item.mem_scripts_directory :
    path ∈ (Item.directory children).scripts dir name ↔
      (¬StartsWithDot name ∧ name ≠ "target" ∧ name ≠ "node_modules") ∧
        path ∈ children.scripts (joinPath dir name) := by
  have hskipped : name ∉ skippedDirectories ↔ name ≠ "target" ∧ name ≠ "node_modules" := by
    simp [skippedDirectories]
  rw [← isHidden_iff, ← hskipped, scripts]
  split
  · next h =>
    refine ⟨fun hmem => absurd hmem List.not_mem_nil, ?_⟩
    rintro ⟨⟨hshown, hsearched⟩, -⟩
    exact absurd h (not_or.2 ⟨hshown, hsearched⟩)
  · next h => exact ⟨fun hmem => ⟨not_or.1 h, hmem⟩, fun hmem => hmem.2⟩

namespace Entries

theorem mem_scripts_cons (item : Item) {rest : Entries} :
    path ∈ (cons name item rest).scripts dir ↔
      path ∈ item.scripts dir name ∨ path ∈ rest.scripts dir := by
  rw [scripts_cons, List.mem_append]

/-- The scripts that an entry brings are scripts of the directory. -/
theorem scripts_subset_of_mem {item : Item} (hmem : (name, item) ∈ entries.toList) :
    item.scripts dir name ⊆ entries.scripts dir := by
  have hcons : ∀ (n : String) (first : Item) (rest : Entries),
      ((name, item) ∈ rest.toList → item.scripts dir name ⊆ rest.scripts dir) →
      (name, item) ∈ (n, first) :: rest.toList →
      item.scripts dir name ⊆ (cons n first rest).scripts dir := by
    intro n first rest ih hmem
    rw [scripts_cons]
    obtain heq | hrest := List.mem_cons.1 hmem
    · obtain ⟨rfl, rfl⟩ := Prod.mk.inj heq
      exact List.subset_append_left _ _
    · exact List.subset_append_of_subset_right _ (ih hrest)
  induction entries with
  | nil => cases hmem
  | file n bytes rest ih => exact hcons n (.file bytes) rest ih hmem
  | directory n children rest _ ih => exact hcons n (.directory children) rest ih hmem

theorem Lawful.exists_way_of_mem_scripts (h : entries.Lawful) (hdir : dir ≠ "")
    (hpath : path ∈ entries.scripts dir) :
    ∃ directories name, entries.HasFile name directories ∧ VisibleWay directories name ∧
      path = joinPaths dir (directories ++ [name]) := by
  induction h generalizing dir with
  | nil => cases hpath
  | @file n bytes rest hname _ _ ih =>
    obtain hfirst | hrest := (mem_scripts_cons (.file bytes)).1 hpath
    · obtain ⟨hextension, hshown, rfl⟩ := (Item.mem_scripts_file hdir hname).1 hfirst
      exact ⟨[], n, ⟨bytes, List.mem_cons_self⟩,
        ⟨hextension, hshown, fun d hd => absurd hd List.not_mem_nil⟩, rfl⟩
    · obtain ⟨directories, name, hfile, hway⟩ := ih hdir hrest
      exact ⟨directories, name, hfile.cons n (.file bytes), hway⟩
  | @directory n children rest hname _ _ _ ihchildren ih =>
    obtain hfirst | hrest := (mem_scripts_cons (.directory children)).1 hpath
    · obtain ⟨hsearched, hpath⟩ := Item.mem_scripts_directory.1 hfirst
      obtain ⟨directories, name, hfile, hway, rfl⟩ := ihchildren (joinPath_ne_empty hdir) hpath
      exact ⟨n :: directories, name, ⟨children, List.mem_cons_self, hfile⟩,
        ⟨hway.extension, hway.shown, List.forall_mem_cons.2 ⟨hsearched, hway.searched⟩⟩, rfl⟩
    · obtain ⟨directories, name, hfile, hway⟩ := ih hdir hrest
      exact ⟨directories, name, hfile.cons n (.directory children), hway⟩

theorem Lawful.mem_scripts_of_way (h : entries.Lawful) (hdir : dir ≠ "")
    {directories : List String} (hfile : entries.HasFile name directories)
    (hway : VisibleWay directories name) :
    joinPaths dir (directories ++ [name]) ∈ entries.scripts dir := by
  induction directories generalizing entries dir with
  | nil =>
    obtain ⟨bytes, hmem⟩ := hfile
    exact scripts_subset_of_mem hmem
      ((Item.mem_scripts_file hdir (h.isEntryName hmem)).2 ⟨hway.extension, hway.shown, rfl⟩)
  | cons d directories ih =>
    obtain ⟨children, hmem, hfile⟩ := hfile
    obtain ⟨hsearched, hrest⟩ := List.forall_mem_cons.1 hway.searched
    have hnext : joinPath dir d ≠ "" := joinPath_ne_empty hdir
    have hpath := ih (h.of_mem hmem) hnext hfile ⟨hway.extension, hway.shown, hrest⟩
    exact scripts_subset_of_mem hmem (Item.mem_scripts_directory.2 ⟨hsearched, hpath⟩)

/-- The scripts of a directory are the files to which visible ways lead. -/
theorem Lawful.mem_scripts_iff (h : entries.Lawful) (hdir : dir ≠ "") :
    path ∈ entries.scripts dir ↔ ∃ directories name, entries.HasFile name directories ∧
      VisibleWay directories name ∧ path = joinPaths dir (directories ++ [name]) := by
  constructor
  · exact h.exists_way_of_mem_scripts hdir
  · rintro ⟨directories, name, hfile, hway, rfl⟩
    exact h.mem_scripts_of_way hdir hfile hway

/-! ### No script comes twice -/

/-- The scripts of a directory tell by their components which paths they are. -/
theorem Lawful.eq_of_pathComponents (h : entries.Lawful) (hdir : dir ≠ "") {p q : String}
    (hp : p ∈ entries.scripts dir) (hq : q ∈ entries.scripts dir)
    (heq : pathComponents p = pathComponents q) : p = q := by
  obtain ⟨directories, name, hfile, -, rfl⟩ := (h.mem_scripts_iff hdir).1 hp
  obtain ⟨directories', name', hfile', -, rfl⟩ := (h.mem_scripts_iff hdir).1 hq
  rw [joinPaths_components_injective hdir (hfile.isEntryName h) (hfile'.isEntryName h) heq]

/-- Entries of different names have different scripts. -/
theorem disjoint_scripts {entries' : Entries} (h : entries.Lawful) (h' : entries'.Lawful)
    (hdir : dir ≠ "") (hnames : ∀ n ∈ entries.names, n ∉ entries'.names) :
    ∀ p ∈ entries.scripts dir, ∀ q ∈ entries'.scripts dir, p ≠ q := by
  rintro p hp q hq rfl
  obtain ⟨directories, name, hfile, -, hp⟩ := (h.mem_scripts_iff hdir).1 hp
  obtain ⟨directories', name', hfile', -, hq⟩ := (h'.mem_scripts_iff hdir).1 hq
  have hway : directories ++ [name] = directories' ++ [name'] := by
    refine joinPaths_components_injective hdir (hfile.isEntryName h) (hfile'.isEntryName h') ?_
    rw [← hp, ← hq]
  obtain ⟨first, names, hfirst, hmem⟩ := hfile.head_mem
  obtain ⟨first', names', hfirst', hmem'⟩ := hfile'.head_mem
  obtain ⟨rfl, -⟩ := List.cons.inj (hfirst.symm.trans (hway.trans hfirst'))
  exact hnames first hmem hmem'

theorem nodup_scripts_cons (item : Item) {rest : Entries} (hfirst : (cons name item .nil).Lawful)
    (hrest : rest.Lawful) (hfresh : name ∉ rest.names) (hdir : dir ≠ "")
    (hitem : (item.scripts dir name).Nodup) (hnodup : (rest.scripts dir).Nodup) :
    ((cons name item rest).scripts dir).Nodup := by
  have hnames : (cons name item .nil).names = [name] := by
    rw [names, toList_cons]
    rfl
  have hdisjoint := disjoint_scripts hfirst hrest hdir
    (hnames ▸ List.forall_mem_singleton.2 hfresh)
  rw [scripts_cons, List.nodup_append]
  exact ⟨hitem, hnodup, fun p hp => hdisjoint p ((mem_scripts_cons item).2 (.inl hp))⟩

theorem Lawful.nodup_scripts (h : entries.Lawful) (hdir : dir ≠ "") :
    (entries.scripts dir).Nodup := by
  induction h generalizing dir with
  | nil => exact List.nodup_nil
  | @file n bytes rest hname hfresh hrest ih =>
    refine nodup_scripts_cons (.file bytes) (.file hname List.not_mem_nil .nil) hrest
      hfresh hdir ?_ (ih hdir)
    rw [Item.scripts]
    split
    · exact List.nodup_singleton _
    · exact List.nodup_nil
  | @directory n children rest hname hfresh hchildren hrest ihchildren ih =>
    refine nodup_scripts_cons (.directory children)
      (.directory hname List.not_mem_nil hchildren .nil) hrest hfresh hdir ?_ (ih hdir)
    rw [Item.scripts]
    split
    · exact List.nodup_nil
    · exact ihchildren (joinPath_ne_empty hdir)

/-! ### The order of the entries -/

/-- The same entries in another order, here or in the directories below. -/
inductive Rearranged : Entries → Entries → Prop where
  | refl (entries : Entries) : Rearranged entries entries
  | swap (name name' : String) (item item' : Item) (rest : Entries) :
      Rearranged (cons name item (cons name' item' rest)) (cons name' item' (cons name item rest))
  | behind (name : String) (item : Item) {rest rest' : Entries} (h : Rearranged rest rest') :
      Rearranged (cons name item rest) (cons name item rest')
  | inside (name : String) {children children' : Entries} (rest : Entries)
      (h : Rearranged children children') :
      Rearranged (.directory name children rest) (.directory name children' rest)
  | trans {entries entries' entries'' : Entries} (h : Rearranged entries entries')
      (h' : Rearranged entries' entries'') : Rearranged entries entries''

theorem Rearranged.perm_scripts {entries entries' : Entries} (h : entries.Rearranged entries')
    (dir : String) : (entries.scripts dir).Perm (entries'.scripts dir) := by
  induction h generalizing dir with
  | refl entries => exact .refl _
  | swap name name' item item' rest =>
    rw [scripts_cons, scripts_cons, scripts_cons, scripts_cons, ← List.append_assoc,
      ← List.append_assoc]
    exact List.perm_append_comm.append_right _
  | behind name item _ ih =>
    rw [scripts_cons, scripts_cons]
    exact (ih dir).append_left _
  | inside name rest _ ih =>
    rw [scripts, scripts]
    refine List.Perm.append_right _ ?_
    split
    · exact .refl _
    · exact ih (joinPath dir name)
  | trans _ _ ih ih' => exact (ih dir).trans (ih' dir)

end Entries

end

/-! ### The scripts below a directory -/

namespace Files

/-- A file stands at a path to which a visible way leads from a root. -/
def IsVisibleScript (fs : Files) (root path : String) : Prop :=
  ∃ directories name, (∀ n ∈ directories ++ [name], IsEntryName n) ∧
    VisibleWay directories name ∧ path = joinPaths root (directories ++ [name]) ∧
    ∃ bytes, fs.resolve path = .ok (.file bytes)

section

variable {fs : Files} {root : String} {entries : Entries}

theorem scriptsBelow_of_resolve (hroot : fs.resolve root = .ok (.directory entries)) :
    fs.scriptsBelow root = (Search.run ⟨[(root, entries)], []⟩).found.mergeSort pathLE := by
  unfold scriptsBelow
  rw [hroot]

/-- What a search finds are the scripts of the tree, in order. -/
theorem perm_scriptsBelow (hroot : fs.resolve root = .ok (.directory entries)) :
    (fs.scriptsBelow root).Perm (entries.scripts root) := by
  have hall : Search.all ⟨[(root, entries)], []⟩ = entries.scripts root := by
    rw [Search.all, List.nil_append, List.flatMap_cons, List.flatMap_nil, List.append_nil]
  have hrun := Search.perm_run ⟨[(root, entries)], []⟩
  rw [hall] at hrun
  rw [scriptsBelow_of_resolve hroot]
  exact (List.mergeSort_perm _ _).trans hrun

theorem sorted_scriptsBelow (hroot : fs.resolve root = .ok (.directory entries)) :
    (fs.scriptsBelow root).Pairwise fun p q => pathLE p q = true := by
  rw [scriptsBelow_of_resolve hroot]
  have htrans : ∀ p q r, pathLE p q = true → pathLE q r = true → pathLE p r = true :=
    fun _ _ _ => pathLE_trans
  exact List.pairwise_mergeSort htrans pathLE_total _

/-- Each script comes before those with greater paths, and so only once. -/
theorem pairwise_lt_scriptsBelow (hroot : fs.resolve root = .ok (.directory entries))
    (hlawful : entries.Lawful) :
    (fs.scriptsBelow root).Pairwise fun p q => pathComponents p < pathComponents q := by
  have hne := ne_empty_of_resolve hroot
  have hperm := perm_scriptsBelow hroot
  have hnodup := hperm.nodup_iff.2 (hlawful.nodup_scripts hne)
  refine ((sorted_scriptsBelow hroot).and hnodup).imp_of_mem ?_
  rintro p q hp hq ⟨hle, hpq⟩
  refine Std.lt_of_le_of_ne (pathLE_iff.1 hle) fun heq => hpq ?_
  exact hlawful.eq_of_pathComponents hne (hperm.mem_iff.1 hp) (hperm.mem_iff.1 hq) heq

theorem mem_scriptsBelow_iff (hroot : fs.resolve root = .ok (.directory entries))
    (hlawful : entries.Lawful) {path : String} :
    path ∈ fs.scriptsBelow root ↔ fs.IsVisibleScript root path := by
  rw [(perm_scriptsBelow hroot).mem_iff, hlawful.mem_scripts_iff (ne_empty_of_resolve hroot)]
  constructor
  · rintro ⟨directories, name, hfile, hway, rfl⟩
    have hnames := hfile.isEntryName hlawful
    exact ⟨directories, name, hnames, hway, rfl, (hlawful.hasFile_iff hroot hnames).1 hfile⟩
  · rintro ⟨directories, name, hnames, hway, rfl, hfile⟩
    exact ⟨directories, name, (hlawful.hasFile_iff hroot hnames).2 hfile, hway, rfl⟩

/-- The order in which the entries are listed does not matter. -/
theorem scriptsBelow_of_rearranged {fs' : Files} {entries' : Entries}
    (hroot : fs.resolve root = .ok (.directory entries)) (hlawful : entries.Lawful)
    (hroot' : fs'.resolve root = .ok (.directory entries'))
    (h : entries.Rearranged entries') : fs'.scriptsBelow root = fs.scriptsBelow root := by
  have hperm := perm_scriptsBelow hroot
  have hperm' := (perm_scriptsBelow hroot').trans (h.perm_scripts root).symm
  refine List.Perm.eq_of_pairwise (fun p q hp hq hle hle' => ?_) (sorted_scriptsBelow hroot')
    (sorted_scriptsBelow hroot) (hperm'.trans hperm.symm)
  exact hlawful.eq_of_pathComponents (ne_empty_of_resolve hroot) (hperm'.mem_iff.1 hp)
    (hperm.mem_iff.1 hq) (pathLE_antisymm hle hle')

/-- A search of a finite tree ends, and on the way each directory that waits is the one at its
path. It finds the scripts that visible ways reach, strictly in the order of paths and so
each of them once, however the entries of the directories are listed. -/
theorem scriptsBelow_finds_visible (hroot : fs.resolve root = .ok (.directory entries))
    (hlawful : entries.Lawful) :
    (∃ s, Search.Reaches ⟨[(root, entries)], []⟩ s ∧ s.step = none ∧
      fs.scriptsBelow root = s.found.mergeSort pathLE) ∧
    (∀ s, Search.Reaches ⟨[(root, entries)], []⟩ s → s.Stands fs) ∧
    (fs.scriptsBelow root).Pairwise (fun p q => pathComponents p < pathComponents q) ∧
    (∀ path, path ∈ fs.scriptsBelow root ↔ fs.IsVisibleScript root path) ∧
    ∀ (fs' : Files) (entries' : Entries), fs'.resolve root = .ok (.directory entries') →
      entries.Rearranged entries' → fs'.scriptsBelow root = fs.scriptsBelow root := by
  have hstart : Search.Stands fs ⟨[(root, entries)], []⟩ := by
    intro dir children hmem
    obtain ⟨rfl, rfl⟩ := Prod.mk.inj (List.mem_singleton.1 hmem)
    exact ⟨hroot, hlawful⟩
  obtain ⟨hreaches, hend⟩ := Search.reaches_run ⟨[(root, entries)], []⟩
  refine ⟨⟨_, hreaches, hend, scriptsBelow_of_resolve hroot⟩, ?_,
    pairwise_lt_scriptsBelow hroot hlawful, ?_, ?_⟩
  · intro s hs
    exact hstart.of_reaches hs
  · intro path
    exact mem_scriptsBelow_iff hroot hlawful
  · intro fs' entries' hroot' h
    exact scriptsBelow_of_rearranged hroot hlawful hroot' h

/-- A root may have a name that searches pass over further below, and a directory one that
ends like those of scripts. -/
theorem scriptsBelow_target_finds_visible :
    let modules := Entries.file "d.qc" .empty .nil
    let library := Entries.file "c.Qc" .empty .nil
    let entries := Entries.file ".dot.qc" .empty
      (.directory "node_modules" modules (.directory "lib.qc" library (.file "b.QC" .empty .nil)))
    let fs : Files := ⟨.directory "target" entries .nil, []⟩
    fs.resolve "target" = .ok (.directory entries) ∧ entries.Lawful ∧
      "target/lib.qc/c.Qc" ∈ fs.scriptsBelow "target" ∧
      "target/node_modules/d.qc" ∉ fs.scriptsBelow "target" := by
  intro modules library entries fs
  have hroot : fs.resolve "target" = .ok (.directory entries) := rfl
  have hlawful : entries.Lawful :=
    .file (by decide) (by decide) (.directory (by decide) (by decide)
      (.file (by decide) (by decide) .nil) (.directory (by decide) (by decide)
        (.file (by decide) (by decide) .nil) (.file (by decide) (by decide) .nil)))
  obtain ⟨-, -, -, hmem, -⟩ := scriptsBelow_finds_visible hroot hlawful
  refine ⟨hroot, hlawful, (hmem _).2 ?_, mt (hmem _).1 ?_⟩
  · exact ⟨["lib.qc"], "c.Qc", by decide, ⟨by decide, by decide, by decide⟩, rfl, .empty, rfl⟩
  · rintro ⟨directories, name, hnames, hway, hpath, -⟩
    have hjoin : "target/node_modules/d.qc" = joinPaths "target" (["node_modules"] ++ ["d.qc"]) :=
      rfl
    have heq := joinPaths_components_injective (by decide) hnames (by decide)
      (congrArg pathComponents (hpath.symm.trans hjoin))
    obtain ⟨rfl, -⟩ := List.append_inj' heq rfl
    exact absurd hway.searched (by decide)

end

end Files

end LineScript
