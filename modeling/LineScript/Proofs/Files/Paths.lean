import LineScript.Files.Search
import LineScript.Proofs.Text.Blank

/-!
# Paths

A path is continued by the name of an entry. What stands at the longer path is the entry
of that name, and its components are those of the path and the name.

- `IsEntryName`: the names that entries of directories have.
- `exists_pathParts_joinPath`: the parts of a continued path.
- `Files.resolve_joinPath`: what stands at a continued path.
- `pathComponents_joinPath`, `isScript_joinPath`: its components, and whether it names a script.
- `pathLE_trans`, `pathLE_total`, `pathLE_antisymm`: the order of paths.
-/

namespace LineScript

/-- The names of entries: not empty, without a slash, and none of the parts that stand for
a directory itself and for the one above. -/
structure IsEntryName (name : String) : Prop where
  ne_empty : name ≠ ""
  ne_here : name ≠ "."
  ne_up : name ≠ ".."
  no_slash : '/' ∉ name.toList

instance : DecidablePred IsEntryName :=
  fun name => decidable_of_iff (name ≠ "" ∧ name ≠ "." ∧ name ≠ ".." ∧ '/' ∉ name.toList)
    ⟨fun ⟨hempty, hhere, hup, hslash⟩ => ⟨hempty, hhere, hup, hslash⟩,
      fun h => ⟨h.ne_empty, h.ne_here, h.ne_up, h.no_slash⟩⟩

/-! ### Continued paths -/

section

variable {path name : String}

theorem pathParts_of_isEntryName (hname : IsEntryName name) :
    (Text.pieces (· = '/') name.toList).map String.ofList = [name] := by
  have hone : Text.pieces (· = '/') name.toList = [name.toList] := by
    refine Text.pieces_of_forall fun c hc => ?_
    rw [decide_eq_false_iff_not]
    rintro rfl
    exact hname.no_slash hc
  rw [hone, List.map_singleton, String.ofList_toList]

/-- The name that continues a path is a part of its own, in the place of the empty part
behind a slash at the end. -/
theorem exists_pathParts_joinPath (hpath : path ≠ "") (hname : IsEntryName name) :
    ∃ part parts, pathParts (joinPath path name) = (part :: parts) ++ [name] ∧
      (pathParts path = part :: parts ∨ pathParts path = (part :: parts) ++ [""]) := by
  have hslash : ∀ s t : List Char, Text.pieces (· = '/') (s ++ '/' :: t) =
      Text.pieces (· = '/') s ++ Text.pieces (· = '/') t :=
    Text.pieces_append_cons (by decide)
  unfold joinPath
  by_cases hend : path.toList.getLast? = some '/'
  · rw [if_pos (.inr hend)]
    obtain ⟨front, hfront⟩ := List.getLast?_eq_some_iff.1 hend
    obtain ⟨part, parts, hparts⟩ := List.exists_cons_of_ne_nil
      (Text.pieces_ne_nil (· = '/') front)
    refine ⟨String.ofList part, parts.map String.ofList, ?_, .inr ?_⟩
    · rw [pathParts, String.toList_append, hfront, List.append_assoc, List.singleton_append, hslash,
        List.map_append, pathParts_of_isEntryName hname, hparts, List.map_cons]
    · rw [pathParts, hfront, hslash, List.map_append, hparts, List.map_cons]
      rfl
  · rw [if_neg (by simp [hpath, hend])]
    obtain ⟨part, parts, hparts⟩ := List.exists_cons_of_ne_nil
      (Text.pieces_ne_nil (· = '/') path.toList)
    refine ⟨String.ofList part, parts.map String.ofList, ?_, .inl ?_⟩
    · have hjoin : (path ++ "/" ++ name).toList = path.toList ++ '/' :: name.toList := by
        rw [String.toList_append, String.toList_append, List.append_assoc]
        rfl
      rw [pathParts, hjoin, hslash, List.map_append, pathParts_of_isEntryName hname, hparts,
        List.map_cons]
    · rw [pathParts, hparts, List.map_cons]

theorem joinPath_ne_empty (hpath : path ≠ "") : joinPath path name ≠ "" := by
  unfold joinPath
  split
  · simp [hpath]
  · simp [hpath]

theorem isAbsolute_joinPath (hpath : path ≠ "") :
    isAbsolute (joinPath path name) = isAbsolute path := by
  obtain ⟨c, cs, hcs⟩ := List.exists_cons_of_ne_nil (mt String.toList_eq_nil_iff.1 hpath)
  unfold isAbsolute joinPath
  split
  · rw [String.toList_append, hcs, List.cons_append, List.head?_cons, List.head?_cons]
  · rw [String.toList_append, String.toList_append, hcs, List.cons_append, List.cons_append,
      List.head?_cons, List.head?_cons]

theorem pathNames_joinPath (hpath : path ≠ "") (hname : IsEntryName name) :
    pathNames (joinPath path name) = pathNames path ++ [name] := by
  obtain ⟨part, parts, hjoin, hparts⟩ := exists_pathParts_joinPath hpath hname
  have hkept : [name].filter (fun part => part ≠ "" ∧ part ≠ ".") = [name] := by
    rw [List.filter_cons_of_pos (by simp [hname.ne_empty, hname.ne_here]), List.filter_nil]
  unfold pathNames
  rw [hjoin, List.filter_append, hkept]
  obtain hparts | hparts := hparts
  · rw [hparts]
  · have hempty : [""].filter (fun part => part ≠ "" ∧ part ≠ ".") = [] := by decide
    rw [hparts, List.filter_append, hempty, List.append_nil]

/-- A continued path has one more component. -/
theorem pathComponents_joinPath (hpath : path ≠ "") (hname : IsEntryName name) :
    pathComponents (joinPath path name) = pathComponents path ++ [.name name] := by
  have hhead : (pathParts (joinPath path name)).head? = (pathParts path).head? := by
    obtain ⟨part, parts, hjoin, hparts | hparts⟩ := exists_pathParts_joinPath hpath hname
    · rw [hjoin, hparts]
      rfl
    · rw [hjoin, hparts]
      rfl
  have hpart : partComponent name = .name name := if_neg hname.ne_up
  unfold pathComponents
  rw [isAbsolute_joinPath hpath, hhead, pathNames_joinPath hpath hname, List.map_append,
    List.map_singleton, hpart, List.append_assoc]

/-- A continued path names a script if the name is one of a script. -/
theorem isScript_joinPath (hpath : path ≠ "") (hname : IsEntryName name) :
    isScript (joinPath path name) = isScriptName name := by
  unfold isScript
  rw [pathNames_joinPath hpath hname, List.getLast?_concat]
  show (decide (name ≠ "..") && isScriptName name) = isScriptName name
  rw [decide_eq_true hname.ne_up, Bool.true_and]

end

/-! ### What stands at a continued path -/

/-- The entry of a name, if the item is a directory. -/
def Item.entry (name : String) : Item → Except PathError Item
  | .file _ => .error .notDirectory
  | .directory entries => (entries.find? name).elim (.error .notFound) .ok

namespace Files

variable {name : String}

/-- A way that goes on leads from what stands at its beginning as far as it leads from a
directory there, and it does not lead on from a file. -/
theorem follow_append {more : List String} {k k' : Item → Except PathError Item} (hne : more ≠ [])
    (hdirectory : ∀ here above,
      (follow (here :: above) more).bind k = k' (.directory here))
    (hfile : ∀ bytes, k' (.file bytes) = .error .notDirectory) (here : Entries)
    (above : List Entries) (parts : List String) :
    (follow (here :: above) (parts ++ more)).bind k = (follow (here :: above) parts).bind k' := by
  induction parts generalizing here above with
  | nil => exact hdirectory here above
  | cons part parts ih =>
    rw [List.cons_append, follow, follow]
    by_cases hstay : part = "" ∨ part = "."
    · rw [if_pos hstay, if_pos hstay]
      exact ih here above
    · rw [if_neg hstay, if_neg hstay]
      by_cases hup : part = ".."
      · rw [if_pos hup, if_pos hup]
        cases above with
        | nil => exact ih here []
        | cons next above => exact ih next above
      · rw [if_neg hup, if_neg hup]
        cases here.find? part with
        | none => rfl
        | some item =>
          cases item with
          | directory entries => exact ih entries (here :: above)
          | file bytes =>
            have hmore : (parts ++ more).isEmpty = false := by simp [hne]
            show (if (parts ++ more).isEmpty then _ else _ : Except PathError Item).bind k = _
            rw [hmore, if_neg Bool.false_ne_true]
            cases parts with
            | nil => exact (hfile bytes).symm
            | cons part' parts => rfl

theorem follow_name (hname : IsEntryName name) (here : Entries) (above : List Entries) :
    follow (here :: above) [name] = Item.entry name (.directory here) := by
  rw [follow, if_neg (by simp [hname.ne_empty, hname.ne_here]), if_neg hname.ne_up]
  show _ = (here.find? name).elim (Except.error PathError.notFound) Except.ok
  cases here.find? name with
  | none => rfl
  | some item =>
    cases item with
    | file bytes => rfl
    | directory entries => rfl

/-- A name at the end of a way leads from what stands before it to the entry of that
name. -/
theorem follow_concat (hname : IsEntryName name) (here : Entries) (above : List Entries)
    (parts : List String) :
    follow (here :: above) (parts ++ [name]) =
      (follow (here :: above) parts).bind (Item.entry name) := by
  have hok : ∀ x : Except PathError Item, x.bind .ok = x := by
    intro x
    cases x <;> rfl
  rw [← follow_append (List.cons_ne_nil name []) (k := .ok) (fun here above => ?_) (fun _ => rfl),
    hok]
  rw [hok, follow_name hname]

/-- An empty part at the end of a way does not matter to the entries behind it. -/
theorem follow_concat_empty (name : String) (here : Entries) (above : List Entries)
    (parts : List String) :
    (follow (here :: above) (parts ++ [""])).bind (Item.entry name) =
      (follow (here :: above) parts).bind (Item.entry name) :=
  follow_append (List.cons_ne_nil "" []) (fun here above => by rw [follow, if_pos (.inl rfl)]; rfl)
    (fun _ => rfl) here above parts

theorem ne_empty_of_resolve {fs : Files} {path : String} {item : Item}
    (h : fs.resolve path = .ok item) : path ≠ "" := by
  rintro rfl
  cases h

/-- At a path that is continued by a name stands the entry of that name. -/
theorem resolve_joinPath {path : String} (fs : Files) (hpath : path ≠ "")
    (hname : IsEntryName name) :
    fs.resolve (joinPath path name) = (fs.resolve path).bind (Item.entry name) := by
  have hfollow : ∀ start, follow [fs.root] (start ++ pathParts (joinPath path name)) =
      (follow [fs.root] (start ++ pathParts path)).bind (Item.entry name) := by
    intro start
    obtain ⟨part, parts, hjoin, hparts⟩ := exists_pathParts_joinPath hpath hname
    rw [hjoin, ← List.append_assoc, follow_concat hname]
    obtain hparts | hparts := hparts
    · rw [hparts]
    · rw [hparts, ← List.append_assoc, follow_concat_empty]
  unfold resolve
  rw [if_neg (joinPath_ne_empty hpath), if_neg hpath, isAbsolute_joinPath hpath]
  split
  · exact hfollow []
  · exact hfollow fs.workingDirectory

end Files

/-! ### The order of paths -/

namespace Component

theorem ext_rank_text {c d : Component} (hrank : c.rank = d.rank) (htext : c.text = d.text) :
    c = d := by
  cases c with
  | root | here | up => cases d <;> first | rfl | cases hrank
  | name s =>
    cases d with
    | root | here | up => cases hrank
    | name t => exact congrArg name htext

theorem not_lt_iff {c d : Component} :
    ¬c < d ↔ d.rank < c.rank ∨ d.rank = c.rank ∧ d.text ≤ c.text := by
  show ¬(c.rank < d.rank ∨ c.rank = d.rank ∧ c.text < d.text) ↔ _
  rw [not_or, not_and, Nat.not_lt, String.not_lt]
  constructor
  · rintro ⟨hrank, htext⟩
    obtain hlt | heq := Nat.lt_or_eq_of_le hrank
    · exact .inl hlt
    · exact .inr ⟨heq, htext heq.symm⟩
  · rintro (hlt | ⟨heq, htext⟩)
    · exact ⟨Nat.le_of_lt hlt, fun heq => absurd heq (Nat.ne_of_gt hlt)⟩
    · exact ⟨Nat.le_of_eq heq, fun _ => htext⟩

instance : Std.Asymm (α := Component) (· < ·) where
  asymm c d h := by
    rw [not_lt_iff]
    obtain hlt | ⟨heq, htext⟩ := h
    · exact .inl hlt
    · exact .inr ⟨heq, Std.le_of_lt htext⟩

instance : Std.Trichotomous (α := Component) (· < ·) where
  trichotomous c d h h' := by
    rw [not_lt_iff] at h h'
    have hrank : c.rank = d.rank := by omega
    refine ext_rank_text hrank (Std.le_antisymm ?_ ?_)
    · exact (h'.resolve_left (by omega)).2
    · exact (h.resolve_left (by omega)).2

instance : Trans (α := Component) (¬ · < ·) (¬ · < ·) (¬ · < ·) where
  trans h h' := by
    rw [not_lt_iff] at h h' ⊢
    obtain hlt | ⟨heq, htext⟩ := h
    · left
      obtain hlt' | ⟨heq', -⟩ := h' <;> omega
    · obtain hlt' | ⟨heq', htext'⟩ := h'
      · left
        omega
      · exact .inr ⟨by omega, Std.le_trans htext' htext⟩

instance : LE Component :=
  .ofLT Component

instance : Std.IsLinearOrder Component :=
  .of_lt

end Component

section

variable {p q r : String}

theorem pathLE_iff : pathLE p q = true ↔ pathComponents p ≤ pathComponents q := by
  unfold pathLE
  rw [Bool.not_eq_true', decide_eq_false_iff_not, List.not_lt]

theorem pathLE_trans (h : pathLE p q = true) (h' : pathLE q r = true) : pathLE p r = true :=
  pathLE_iff.2 (List.le_trans (pathLE_iff.1 h) (pathLE_iff.1 h'))

theorem pathLE_total (p q : String) : (pathLE p q || pathLE q p) = true := by
  rw [Bool.or_eq_true, pathLE_iff, pathLE_iff]
  exact List.le_total _ _

theorem pathLE_antisymm (h : pathLE p q = true) (h' : pathLE q p = true) :
    pathComponents p = pathComponents q :=
  Std.le_antisymm (pathLE_iff.1 h) (pathLE_iff.1 h')

end

end LineScript
