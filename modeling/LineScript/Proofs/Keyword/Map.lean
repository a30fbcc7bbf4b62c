import LineScript.Keyword.Trie
import Mathlib.Data.Finmap

/-!
# The trie as a finite map

Against the finite map from texts that `Finmap` is, every edit of a trie gives
the same answer, and leaves a trie that shows the same map.

- `Branches.Ordered`, `Branches.Pruned`: the characters of sibling branches go
  up, and every branch leads to a key.
- `find?_insert`, `find?_remove`: what is found after an edit.
- `mem_keys`, `keys_sorted`: the keys are listed in order, each once.
- `Edit`, `Edit.run`: insertions and removals, one after another.
- `trie_refines_map`: any list of edits has the same answers and the same map.
-/

namespace LineScript

universe u

namespace Branches

variable {α : Type u}

/-! ### What is found below a point -/

/-- The value of a key, given by its first character and the rest. -/
def find? (b : Branches α) (c : Char) (key : List Char) : Option α :=
  (b.at? c key).bind Prod.fst

/-- The value of a key from a point with the value `x` and some branches. -/
def findFrom (x : Option α) (below : Branches α) : List Char → Option α
  | [] => x
  | c :: key => below.find? c key

@[simp] theorem findFrom_nil (x : Option α) (below : Branches α) : findFrom x below [] = x := rfl

@[simp] theorem findFrom_cons (x : Option α) (below : Branches α) (c : Char) (key : List Char) :
    findFrom x below (c :: key) = below.find? c key := rfl

@[simp] theorem find?_nil (c : Char) (key : List Char) : (nil : Branches α).find? c key = none :=
  rfl

theorem find?_cons (d : Char) (x : Option α) (below rest : Branches α) (c : Char)
    (key : List Char) :
    (cons d x below rest).find? c key =
      if c = d then findFrom x below key else rest.find? c key := by
  rw [find?, at?.eq_def]
  dsimp only
  split
  · cases key <;> rfl
  · rfl

theorem findFrom_eq_none (key : List Char) : findFrom (none : Option α) nil key = none := by
  cases key <;> rfl

/-- A longer key is found from where the shorter one ends. -/
theorem find?_append (b : Branches α) (c : Char) (key more : List Char) :
    b.find? c (key ++ more) = (b.at? c key).bind fun p => findFrom p.1 p.2 more := by
  induction b generalizing c key with
  | nil => rfl
  | cons d x below rest ihBelow ihRest =>
    rw [find?_cons, at?.eq_def]
    dsimp only
    split
    · cases key with
      | nil => rfl
      | cons e key => exact ihBelow e key
    · exact ihRest c key

/-! ### The order of sibling branches -/

/-- The characters that the branches start with. -/
def heads : Branches α → List Char
  | nil => []
  | cons c _ _ rest => c :: rest.heads

/-- The characters of sibling branches go up, at every depth. -/
def Ordered : Branches α → Prop
  | nil => True
  | cons c _ below rest => (∀ d ∈ rest.heads, c < d) ∧ below.Ordered ∧ rest.Ordered

theorem find?_of_notMem {b : Branches α} {c : Char} (h : c ∉ b.heads) (key : List Char) :
    b.find? c key = none := by
  induction b with
  | nil => rfl
  | cons d x below rest _ ih =>
    rw [heads, List.mem_cons, not_or] at h
    rw [find?_cons, if_neg h.1, ih h.2]

theorem notMem_heads_of_lt {b : Branches α} {c d : Char} (hcd : c < d)
    (h : ∀ e ∈ b.heads, d < e) : c ∉ b.heads := fun hmem =>
  Char.lt_irrefl c (Char.lt_trans hcd (h c hmem))

theorem heads_single (v : α) (c : Char) (key : List Char) : (single v c key).heads = [c] := by
  cases key <;> rfl

theorem ordered_single (v : α) (c : Char) (key : List Char) : (single v c key).Ordered := by
  induction key generalizing c with
  | nil => simp [single, Ordered, heads]
  | cons d key ih => simp [single, Ordered, heads, ih]

theorem mem_heads_insert {v : α} {b : Branches α} {c d : Char} {key : List Char}
    (h : d ∈ (b.insert v c key).heads) : d = c ∨ d ∈ b.heads := by
  induction b with
  | nil => exact .inl (by simpa [insert, heads_single] using h)
  | cons e x below rest _ ih =>
    rw [insert.eq_def] at h
    dsimp only at h
    split at h
    · cases key <;> exact .inr h
    · split at h
      · cases key <;> simpa [heads] using h
      · rw [heads, List.mem_cons] at h
        obtain rfl | h := h
        · exact .inr List.mem_cons_self
        · exact (ih h).imp_right (List.mem_cons_of_mem e)

theorem ordered_insert {b : Branches α} (hb : b.Ordered) (v : α) (c : Char) (key : List Char) :
    (b.insert v c key).Ordered := by
  induction b generalizing c key with
  | nil => exact ordered_single v c key
  | cons d x below rest ihBelow ihRest =>
    obtain ⟨hfirst, hbelow, hrest⟩ := hb
    rw [insert.eq_def]
    dsimp only
    split
    · cases key with
      | nil => exact ⟨hfirst, hbelow, hrest⟩
      | cons e key => exact ⟨hfirst, ihBelow hbelow e key, hrest⟩
    · next hne =>
      split
      · next hlt =>
        have hall : ∀ e ∈ (cons d x below rest).heads, c < e := by
          intro e he
          rw [heads, List.mem_cons] at he
          obtain rfl | he := he
          · exact hlt
          · exact Char.lt_trans hlt (hfirst e he)
        cases key with
        | nil => exact ⟨hall, trivial, hfirst, hbelow, hrest⟩
        | cons e key => exact ⟨hall, ordered_single v e key, hfirst, hbelow, hrest⟩
      · next hnlt =>
        refine ⟨fun e he => ?_, hbelow, ihRest hrest c key⟩
        obtain rfl | he := mem_heads_insert he
        · exact by_contra fun h => hne (Char.le_antisymm (Char.not_lt.mp h) (Char.not_lt.mp hnlt))
        · exact hfirst e he

theorem mem_heads_remove {b : Branches α} {c d : Char} {key : List Char}
    (h : d ∈ (b.remove c key).heads) : d ∈ b.heads := by
  induction b with
  | nil => exact h
  | cons e x below rest _ ih =>
    rw [remove.eq_def] at h
    dsimp only at h
    split at h
    · cases key with
      | nil =>
        dsimp only at h
        split at h
        · exact List.mem_cons_of_mem e h
        · exact h
      | cons f key =>
        dsimp only at h
        split at h
        · exact List.mem_cons_of_mem e h
        · exact h
    · rw [heads, List.mem_cons] at h
      exact h.elim (· ▸ List.mem_cons_self) (fun h => List.mem_cons_of_mem e (ih h))

theorem ordered_remove {b : Branches α} (hb : b.Ordered) (c : Char) (key : List Char) :
    (b.remove c key).Ordered := by
  induction b generalizing c key with
  | nil => exact hb
  | cons d x below rest ihBelow ihRest =>
    obtain ⟨hfirst, hbelow, hrest⟩ := hb
    rw [remove.eq_def]
    dsimp only
    split
    · cases key with
      | nil =>
        dsimp only
        split
        · exact hrest
        · exact ⟨hfirst, hbelow, hrest⟩
      | cons e key =>
        dsimp only
        split
        · exact hrest
        · exact ⟨hfirst, ihBelow hbelow e key, hrest⟩
    · exact ⟨fun e he => hfirst e (mem_heads_remove he), hbelow, ihRest hrest c key⟩

/-! ### What is found after an edit -/

theorem find?_single (v : α) (c d : Char) (key key' : List Char) :
    (single v c key).find? d key' = if d = c ∧ key' = key then some v else none := by
  induction key generalizing c d key' with
  | nil =>
    rw [single, find?_cons]
    cases key' <;> by_cases h : d = c <;> simp [h]
  | cons e key ih =>
    rw [single, find?_cons]
    cases key' <;> by_cases h : d = c <;> simp [h, ih]

theorem find?_insert {b : Branches α} (hb : b.Ordered) (v : α) (c d : Char)
    (key key' : List Char) :
    (b.insert v c key).find? d key' = if d = c ∧ key' = key then some v else b.find? d key' := by
  induction b generalizing c d key key' with
  | nil => exact find?_single v c d key key'
  | cons e x below rest ihBelow ihRest =>
    obtain ⟨hfirst, hbelow, hrest⟩ := hb
    rw [insert.eq_def]
    dsimp only
    split
    · next hc =>
      subst hc
      cases key with
      | nil =>
        rw [find?_cons, find?_cons]
        cases key' <;> by_cases h : d = c <;> simp [h]
      | cons f key =>
        rw [find?_cons, find?_cons]
        cases key' <;> by_cases h : d = c <;> simp [h, ihBelow hbelow]
    · next hc =>
      split
      · next hlt =>
        -- a new branch in front: nothing was found under its character before
        have hnew : rest.find? c key' = none :=
          find?_of_notMem (notMem_heads_of_lt hlt hfirst) key'
        cases key with
        | nil =>
          rw [find?_cons, find?_cons]
          by_cases h : d = c
          · subst h
            cases key' <;> simp [hnew, hc]
          · simp [h]
        | cons f key =>
          rw [find?_cons, find?_cons]
          by_cases h : d = c
          · subst h
            cases key' <;> simp [hnew, hc, find?_single]
          · simp [h]
      · rw [find?_cons, find?_cons, ihRest hrest]
        by_cases h : d = e
        · simp [h, Ne.symm hc]
        · simp [h]

/-- A branch without a value and without branches below it can be left out. -/
theorem find?_prune {c : Char} {rest : Branches α} (h : ∀ d ∈ rest.heads, c < d) (d : Char)
    (key : List Char) : (cons c none nil rest).find? d key = rest.find? d key := by
  rw [find?_cons]
  split
  · next hd =>
    subst hd
    rw [findFrom_eq_none, find?_of_notMem (fun hmem => Char.lt_irrefl d (h d hmem))]
  · rfl

theorem isEmpty_iff {b : Branches α} : b.isEmpty = true ↔ b = nil := by
  cases b <;> simp [isEmpty]

theorem find?_remove {b : Branches α} (hb : b.Ordered) (c d : Char) (key key' : List Char) :
    (b.remove c key).find? d key' = if d = c ∧ key' = key then none else b.find? d key' := by
  induction b generalizing c d key key' with
  | nil => simp [remove]
  | cons e x below rest ihBelow ihRest =>
    obtain ⟨hfirst, hbelow, hrest⟩ := hb
    rw [remove.eq_def]
    dsimp only
    split
    · next hc =>
      subst hc
      cases key with
      | nil =>
        -- whether the branch is pruned does not show in what is found.
        have hprune : (if below.isEmpty then rest else cons c none below rest).find? d key' =
            (cons c none below rest).find? d key' := by
          split
          · next hnil =>
            rw [isEmpty_iff.mp hnil, find?_prune hfirst]
          · rfl
        dsimp only
        rw [hprune, find?_cons, find?_cons]
        cases key' <;> by_cases h : d = c <;> simp [h]
      | cons f key =>
        have hprune : (if x.isNone && (below.remove f key).isEmpty then rest
            else cons c x (below.remove f key) rest).find? d key' =
            (cons c x (below.remove f key) rest).find? d key' := by
          split
          · next hnil =>
            rw [Bool.and_eq_true, Option.isNone_iff_eq_none, isEmpty_iff] at hnil
            rw [hnil.1, hnil.2, find?_prune hfirst]
          · rfl
        dsimp only
        rw [hprune, find?_cons, find?_cons]
        cases key' <;> by_cases h : d = c <;> simp [h, ihBelow hbelow]
    · next hc =>
      rw [find?_cons, find?_cons, ihRest hrest]
      by_cases h : d = e
      · simp [h, Ne.symm hc]
      · simp [h]

/-! ### No dead branches -/

/-- Every branch has a value or branches below it. -/
def Pruned : Branches α → Prop
  | nil => True
  | cons _ x below rest => (x.isSome ∨ below ≠ nil) ∧ below.Pruned ∧ rest.Pruned

theorem single_ne_nil (v : α) (c : Char) (key : List Char) : single v c key ≠ nil := by
  cases key <;> rintro ⟨⟩

theorem insert_ne_nil (v : α) (b : Branches α) (c : Char) (key : List Char) :
    b.insert v c key ≠ nil := by
  cases b with
  | nil => exact single_ne_nil v c key
  | cons d x below rest =>
    rw [insert.eq_def]
    dsimp only
    split
    · cases key <;> rintro ⟨⟩
    · split
      · cases key <;> rintro ⟨⟩
      · rintro ⟨⟩

theorem pruned_single (v : α) (c : Char) (key : List Char) : (single v c key).Pruned := by
  induction key generalizing c with
  | nil => exact ⟨.inl rfl, trivial, trivial⟩
  | cons d key ih => exact ⟨.inr (single_ne_nil v d key), ih d, trivial⟩

theorem pruned_insert {b : Branches α} (hb : b.Pruned) (v : α) (c : Char) (key : List Char) :
    (b.insert v c key).Pruned := by
  induction b generalizing c key with
  | nil => exact pruned_single v c key
  | cons d x below rest ihBelow ihRest =>
    obtain ⟨hlive, hbelow, hrest⟩ := hb
    rw [insert.eq_def]
    dsimp only
    split
    · cases key with
      | nil => exact ⟨.inl rfl, hbelow, hrest⟩
      | cons e key => exact ⟨.inr (insert_ne_nil v below e key), ihBelow hbelow e key, hrest⟩
    · split
      · cases key with
        | nil => exact ⟨.inl rfl, trivial, hlive, hbelow, hrest⟩
        | cons e key =>
          exact ⟨.inr (single_ne_nil v e key), pruned_single v e key, hlive, hbelow, hrest⟩
      · exact ⟨hlive, hbelow, ihRest hrest c key⟩

theorem pruned_remove {b : Branches α} (hb : b.Pruned) (c : Char) (key : List Char) :
    (b.remove c key).Pruned := by
  induction b generalizing c key with
  | nil => exact hb
  | cons d x below rest ihBelow ihRest =>
    obtain ⟨hlive, hbelow, hrest⟩ := hb
    rw [remove.eq_def]
    dsimp only
    split
    · cases key with
      | nil =>
        dsimp only
        split
        · exact hrest
        · next hne =>
          exact ⟨.inr (mt isEmpty_iff.mpr hne), hbelow, hrest⟩
      | cons e key =>
        dsimp only
        split
        · exact hrest
        · next hlive =>
          rw [Bool.and_eq_true, isEmpty_iff, Option.isNone_iff_eq_none, not_and_or] at hlive
          exact ⟨hlive.imp_left Option.isSome_iff_ne_none.mpr, ihBelow hbelow e key, hrest⟩
    · exact ⟨hlive, hbelow, ihRest hrest c key⟩

/-! ### The list of keys -/

/-- The keys from a point with the value `x` and some branches. -/
def keysAt (x : Option α) (below : Branches α) : List (List Char) :=
  (if x.isSome then [[]] else []) ++ below.keys

theorem keys_cons (c : Char) (x : Option α) (below rest : Branches α) :
    (cons c x below rest).keys = (keysAt x below).map (c :: ·) ++ rest.keys := by
  cases x <;> simp [keys, keysAt]

theorem head_of_mem_keys {b : Branches α} {key : List Char} (h : key ∈ b.keys) :
    ∃ c ∈ b.heads, ∃ more, key = c :: more := by
  induction b generalizing key with
  | nil => exact absurd h List.not_mem_nil
  | cons d x below rest _ ih =>
    rw [keys_cons, List.mem_append] at h
    obtain h | h := h
    · obtain ⟨more, -, rfl⟩ := List.mem_map.mp h
      exact ⟨d, List.mem_cons_self, more, rfl⟩
    · obtain ⟨c, hc, more, rfl⟩ := ih h
      exact ⟨c, List.mem_cons_of_mem d hc, more, rfl⟩

theorem nil_notMem_keys (b : Branches α) : [] ∉ b.keys := fun h => by
  obtain ⟨c, -, more, h⟩ := head_of_mem_keys h
  exact nomatch h

theorem mem_keysAt {x : Option α} {below : Branches α}
    (h : ∀ c key, c :: key ∈ below.keys ↔ (below.find? c key).isSome) (key : List Char) :
    key ∈ keysAt x below ↔ (findFrom x below key).isSome := by
  rw [keysAt, List.mem_append]
  cases key with
  | nil => cases x <;> simp [nil_notMem_keys]
  | cons c key => cases x <;> simp [h]

theorem mem_keys {b : Branches α} (hb : b.Ordered) (c : Char) (key : List Char) :
    c :: key ∈ b.keys ↔ (b.find? c key).isSome := by
  induction b generalizing c key with
  | nil => simp [keys]
  | cons d x below rest ihBelow ihRest =>
    obtain ⟨hfirst, hbelow, hrest⟩ := hb
    rw [keys_cons, List.mem_append, find?_cons, ihRest hrest, List.mem_map]
    by_cases hc : c = d
    · subst hc
      rw [find?_of_notMem (fun hmem => Char.lt_irrefl c (hfirst c hmem))]
      simp [mem_keysAt (ihBelow hbelow)]
    · simp [hc, Ne.symm hc]

theorem keysAt_sorted {x : Option α} {below : Branches α} (h : below.keys.Pairwise (· < ·)) :
    (keysAt x below).Pairwise (· < ·) := by
  rw [keysAt, List.pairwise_append]
  refine ⟨by split <;> simp, h, fun first hfirst other hother => ?_⟩
  obtain ⟨c, -, more, rfl⟩ := head_of_mem_keys hother
  split at hfirst
  · exact List.mem_singleton.mp hfirst ▸ List.nil_lt_cons c more
  · exact absurd hfirst List.not_mem_nil

theorem keys_sorted {b : Branches α} (hb : b.Ordered) : b.keys.Pairwise (· < ·) := by
  induction b with
  | nil => exact .nil
  | cons d x below rest ihBelow ihRest =>
    obtain ⟨hfirst, hbelow, hrest⟩ := hb
    rw [keys_cons, List.pairwise_append]
    refine ⟨(keysAt_sorted (ihBelow hbelow)).map _ fun _ _ h =>
      List.cons_lt_cons_iff.mpr (.inr ⟨rfl, h⟩), ihRest hrest, fun first hin other hother => ?_⟩
    obtain ⟨c, hc, more, rfl⟩ := head_of_mem_keys hother
    obtain ⟨tail, -, rfl⟩ := List.mem_map.mp hin
    exact List.cons_lt_cons_iff.mpr (.inl (hfirst c hc))

theorem ordered_at? {b : Branches α} (hb : b.Ordered) {c : Char} {key : List Char}
    {p : Option α × Branches α} (h : b.at? c key = some p) : p.2.Ordered := by
  induction b generalizing c key with
  | nil => exact nomatch h
  | cons d x below rest ihBelow ihRest =>
    rw [at?.eq_def] at h
    dsimp only at h
    split at h
    · cases key with
      | nil =>
        cases h
        exact hb.2.1
      | cons e key => exact ihBelow hb.2.1 h
    · exact ihRest hb.2.2 h

end Branches

namespace Trie

variable {α : Type u}

/-! ### Tries and finite maps -/

theorem find?_eq (t : Trie α) (key : List Char) :
    t.find? key = Branches.findFrom t.value t.branches key := by
  cases key <;> rfl

theorem find?_append (t : Trie α) (start more : List Char) :
    t.find? (start ++ more) = (t.at? start).bind fun p => Branches.findFrom p.1 p.2 more := by
  cases start with
  | nil => exact find?_eq t more
  | cons c start => exact t.branches.find?_append c start more

theorem find?_insert {t : Trie α} (ht : t.branches.Ordered) (key : List Char) (v : α)
    (key' : List Char) :
    (t.insert key v).find? key' = if key' = key then some v else t.find? key' := by
  cases key with
  | nil => cases key' <;> simp [find?_eq, insert]
  | cons c key => cases key' <;> simp [find?_eq, insert, Branches.find?_insert ht]

theorem find?_remove {t : Trie α} (ht : t.branches.Ordered) (key key' : List Char) :
    (t.remove key).find? key' = if key' = key then none else t.find? key' := by
  rw [remove.eq_def]
  split
  · cases key with
    | nil => cases key' <;> simp [find?_eq]
    | cons c key => cases key' <;> simp [find?_eq, Branches.find?_remove ht]
  · next habsent =>
    rw [contains, Option.not_isSome_iff_eq_none] at habsent
    split
    · next hkey =>
      rw [hkey, habsent]
    · rfl

theorem size_insert (t : Trie α) (key : List Char) (v : α) :
    (t.insert key v).size = if t.contains key then t.size else t.size + 1 := by
  cases key <;> rfl

theorem size_remove (t : Trie α) (key : List Char) :
    (t.remove key).size = if t.contains key then t.size - 1 else t.size := by
  rw [remove.eq_def]
  split
  · cases key <;> rfl
  · rfl

theorem keysFrom_eq (t : Trie α) (start : List Char) :
    t.keysFrom start =
      ((t.at? start).elim [] fun p => Branches.keysAt p.1 p.2).map (start ++ ·) := by
  rw [keysFrom]
  cases t.at? start with
  | none => rfl
  | some p =>
    obtain ⟨x, below⟩ := p
    cases x <;> simp [Branches.keysAt]

theorem ordered_at? {t : Trie α} (ht : t.branches.Ordered) {start : List Char}
    {p : Option α × Branches α} (h : t.at? start = some p) : p.2.Ordered := by
  cases start with
  | nil =>
    cases h
    exact ht
  | cons c start => exact Branches.ordered_at? ht h

theorem mem_keysFrom {t : Trie α} (ht : t.branches.Ordered) (start key : List Char) :
    key ∈ t.keysFrom start ↔ (t.find? key).isSome ∧ start <+: key := by
  have hmore (more : List Char) : (more ∈ (t.at? start).elim [] fun p =>
      Branches.keysAt p.1 p.2) ↔ (t.find? (start ++ more)).isSome := by
    rw [find?_append]
    cases hat : t.at? start with
    | none => simp
    | some p => exact Branches.mem_keysAt (Branches.mem_keys (ordered_at? ht hat)) more
  rw [keysFrom_eq, List.mem_map]
  constructor
  · rintro ⟨more, hmem, rfl⟩
    exact ⟨(hmore more).mp hmem, List.prefix_append start more⟩
  · rintro ⟨hsome, more, rfl⟩
    exact ⟨more, (hmore more).mpr hsome, rfl⟩

theorem keysFrom_sorted {t : Trie α} (ht : t.branches.Ordered) (start : List Char) :
    (t.keysFrom start).Pairwise (· < ·) := by
  rw [keysFrom_eq]
  refine List.Pairwise.map _ (fun _ _ h => List.append_left_lt h) ?_
  cases hat : t.at? start with
  | none => exact .nil
  | some p => exact Branches.keysAt_sorted (Branches.keys_sorted (ordered_at? ht hat))

end Trie

/-! ### Edits one after another -/

/-- An edit of a map from texts. -/
inductive Edit (α : Type u) where
  | insert (key : List Char) (v : α)
  | remove (key : List Char)

namespace Edit

variable {α : Type u}

/-- An edit of a trie, with what it gives back. -/
def onTrie : Edit α → Trie α → Option α × Trie α
  | insert key v, t => t.replace key v
  | remove key, t => t.take key

/-- The same edit of a finite map. -/
def onMap : Edit α → Finmap (fun _ : List Char => α) → Option α × Finmap (fun _ : List Char => α)
  | insert key v, m => (m.lookup key, m.insert key v)
  | remove key, m => (m.lookup key, m.erase key)

/-- What edits give back one after another, and what they leave. -/
def run {σ : Type u} (apply : Edit α → σ → Option α × σ) (s : σ) :
    List (Edit α) → List (Option α) × σ
  | [] => ([], s)
  | edit :: edits =>
    let (answer, s) := apply edit s
    let (answers, s) := run apply s edits
    (answer :: answers, s)

end Edit

namespace Trie

variable {α : Type u} {t : Trie α} {m : Finmap (fun _ : List Char => α)}

/-- A trie that holds the entries of a finite map, without dead branches. -/
structure Holds (t : Trie α) (m : Finmap (fun _ : List Char => α)) : Prop where
  ordered : t.branches.Ordered
  pruned : t.branches.Pruned
  find?_eq_lookup : ∀ key, t.find? key = m.lookup key
  size_eq_card : t.size = m.keys.card

theorem Holds.empty : Holds (Trie.empty : Trie α) ∅ where
  ordered := trivial
  pruned := trivial
  find?_eq_lookup key := by cases key <;> simp [find?_eq, Trie.empty]
  size_eq_card := rfl

theorem Holds.contains_iff (h : Holds t m) (key : List Char) :
    t.contains key = true ↔ key ∈ m := by
  rw [contains, h.find?_eq_lookup, Finmap.lookup_isSome]

theorem Holds.insert (h : Holds t m) (key : List Char) (v : α) :
    Holds (t.insert key v) (m.insert key v) where
  ordered := by
    cases key with
    | nil => exact h.ordered
    | cons c key => exact Branches.ordered_insert h.ordered v c key
  pruned := by
    cases key with
    | nil => exact h.pruned
    | cons c key => exact Branches.pruned_insert h.pruned v c key
  find?_eq_lookup key' := by
    rw [find?_insert h.ordered, h.find?_eq_lookup]
    split
    · next hkey =>
      rw [hkey, Finmap.lookup_insert]
    · next hkey =>
      rw [Finmap.lookup_insert_of_ne m hkey]
  size_eq_card := by
    have hkeys : (m.insert key v).keys = Insert.insert key m.keys := by
      ext key'
      rw [Finset.mem_insert, Finmap.mem_keys, Finmap.mem_keys, Finmap.mem_insert]
    simp only [size_insert, h.contains_iff, h.size_eq_card, hkeys, Finset.card_insert_eq_ite,
      Finmap.mem_keys]

theorem Holds.remove (h : Holds t m) (key : List Char) :
    Holds (t.remove key) (m.erase key) where
  ordered := by
    rw [remove.eq_def]
    split
    · cases key with
      | nil => exact h.ordered
      | cons c key => exact Branches.ordered_remove h.ordered c key
    · exact h.ordered
  pruned := by
    rw [remove.eq_def]
    split
    · cases key with
      | nil => exact h.pruned
      | cons c key => exact Branches.pruned_remove h.pruned c key
    · exact h.pruned
  find?_eq_lookup key' := by
    rw [find?_remove h.ordered, h.find?_eq_lookup]
    split
    · next hkey =>
      rw [hkey, Finmap.lookup_erase]
    · next hkey =>
      rw [Finmap.lookup_erase_ne hkey]
  size_eq_card := by
    simp only [size_remove, h.contains_iff, h.size_eq_card, Finmap.keys_erase,
      Finset.card_erase_eq_ite, Finmap.mem_keys]

/-- One edit of a trie answers as the edit of the map does, and leaves the trie
of the new map. -/
theorem Holds.edit (h : Holds t m) (edit : Edit α) :
    (edit.onTrie t).1 = (edit.onMap m).1 ∧ Holds (edit.onTrie t).2 (edit.onMap m).2 := by
  cases edit with
  | insert key v => exact ⟨h.find?_eq_lookup key, h.insert key v⟩
  | remove key => exact ⟨h.find?_eq_lookup key, h.remove key⟩

theorem Holds.run (h : Holds t m) (edits : List (Edit α)) :
    (Edit.run Edit.onTrie t edits).1 = (Edit.run Edit.onMap m edits).1 ∧
      Holds (Edit.run Edit.onTrie t edits).2 (Edit.run Edit.onMap m edits).2 := by
  induction edits generalizing t m with
  | nil => exact ⟨rfl, h⟩
  | cons edit edits ih =>
    obtain ⟨hanswer, hstep⟩ := h.edit edit
    obtain ⟨hanswers, hend⟩ := ih hstep
    exact ⟨congrArg₂ List.cons hanswer hanswers, hend⟩

end Trie

/-- **A trie is a finite map, sorted.** After any edits from the empty trie, the
answers are those of the same edits of a finite map; lookups, membership and size
are those of that map; the keys that start with a text are listed in order, each
once; and every branch has a value or branches below it. -/
theorem trie_refines_map {α : Type u} (edits : List (Edit α)) :
    ∃ answers t m,
      Edit.run Edit.onTrie Trie.empty edits = (answers, t) ∧
      Edit.run Edit.onMap ∅ edits = (answers, m) ∧
      (∀ key, t.find? key = m.lookup key) ∧
      (∀ key, t.contains key = true ↔ key ∈ m) ∧
      t.size = m.keys.card ∧
      (t.isEmpty = true ↔ m.keys.card = 0) ∧
      (∀ start, (t.keysFrom start).Pairwise (· < ·) ∧
        ∀ key, key ∈ t.keysFrom start ↔ key ∈ m ∧ start <+: key) ∧
      t.branches.Pruned := by
  obtain ⟨hanswers, h⟩ := Trie.Holds.run Trie.Holds.empty edits
  refine ⟨_, _, _, rfl, Prod.ext hanswers.symm rfl, h.find?_eq_lookup, h.contains_iff,
    h.size_eq_card, ?_, fun start => ⟨Trie.keysFrom_sorted h.ordered start, fun key => ?_⟩,
    h.pruned⟩
  · rw [Trie.isEmpty, decide_eq_true_eq, h.size_eq_card]
  · rw [Trie.mem_keysFrom h.ordered, h.find?_eq_lookup, Finmap.lookup_isSome]

end LineScript
