import LineScript.Keyword.Table
import LineScript.Proofs.Keyword.Map
import Mathlib

/-!
# Suggested keywords

A word that is no keyword may have been meant as one. The suggestions are stated without the
table's tree: by the longest start of the word in upper case that some keyword shares.

- `LongestShared`: the longest start of a text that some keyword shares.
- `Suggests`: the suggestions for a word.
- `Table.sharingStart_cases`: the search stops at the first start that some key shares.
- `Table.suggestionsByBytes`: the search by byte offsets, which fails inside a character.
- `suggestions_share_longest_start`: the suggestions of a table are those of its keywords.
-/

namespace LineScript

/-! ### What is suggested -/

/-- A non-empty start of a text that some keyword shares. -/
structure SharedStart (keywords : List String) (text start : List Char) : Prop where
  ne_nil : start ≠ []
  isPrefix : start <+: text
  shared : ∃ keyword ∈ keywords, start <+: keyword.toList

/-- The longest start of a text that some keyword shares. -/
structure LongestShared (keywords : List String) (text start : List Char) : Prop where
  isShared : SharedStart keywords text start
  longest : ∀ other, SharedStart keywords text other → other.length ≤ start.length

/-- A word that is a keyword once it is in upper case. -/
def MeantInUpper (keywords : List String) (word : String) : Prop :=
  Text.upper word.toList ≠ word.toList ∧ String.ofList (Text.upper word.toList) ∈ keywords

/-- The suggestions for a word that is no keyword. -/
inductive Suggests (keywords : List String) (word : String) : List String → Prop where
  /-- The word is a keyword in upper case. -/
  | upper (h : MeantInUpper keywords word) :
      Suggests keywords word [String.ofList (Text.upper word.toList)]
  /-- All keywords with the longest start that some keyword shares, each once and in order. -/
  | sharing {start : List Char} {found : List String} (h : ¬ MeantInUpper keywords word)
      (hstart : LongestShared keywords (Text.upper word.toList) start)
      (hsorted : found.Pairwise (· < ·))
      (hfound : ∀ keyword, keyword ∈ found ↔ keyword ∈ keywords ∧ start <+: keyword.toList) :
      Suggests keywords word found
  /-- No keyword shares a start. -/
  | none (h : ¬ MeantInUpper keywords word)
      (hstart : ∀ start, ¬ SharedStart keywords (Text.upper word.toList) start) :
      Suggests keywords word []

/-- Two shared starts of a text that no other one is longer than are the same. -/
theorem LongestShared.unique {keywords : List String} {text s t : List Char}
    (hs : LongestShared keywords text s) (ht : LongestShared keywords text t) : s = t := by
  have hle : s.length ≤ t.length := ht.longest s hs.isShared
  have hge : t.length ≤ s.length := hs.longest t ht.isShared
  exact (List.prefix_of_prefix_length_le hs.isShared.isPrefix ht.isShared.isPrefix hle).eq_of_length
    (le_antisymm hle hge)

/-- The suggestions for a word are determined. -/
theorem Suggests.unique {keywords : List String} {word : String} {l m : List String}
    (hl : Suggests keywords word l) (hm : Suggests keywords word m) : l = m := by
  cases hl with
  | upper h =>
    cases hm with
    | upper _ => rfl
    | sharing h' => exact absurd h h'
    | none h' => exact absurd h h'
  | sharing h hstart hsorted hfound =>
    cases hm with
    | upper h' => exact absurd h' h
    | sharing h' hstart' hsorted' hfound' =>
      obtain rfl := hstart.unique hstart'
      have hperm : l.Perm m := by
        rw [List.perm_ext_iff_of_nodup (hsorted.imp String.ne_of_lt) (hsorted'.imp String.ne_of_lt)]
        intro keyword
        rw [hfound, hfound']
      exact hperm.eq_of_pairwise' hsorted hsorted'
    | none h' hnone => exact absurd hstart.isShared (hnone _)
  | none h hnone =>
    cases hm with
    | upper h' => exact absurd h' h
    | sharing h' hstart => exact absurd hstart.isShared (hnone _)
    | none _ _ => rfl

/-! ### Tables of keywords -/

universe u

theorem Trie.ordered_insert {α : Type u} {t : Trie α} (ht : t.branches.Ordered)
    (key : List Char) (v : α) : (t.insert key v).branches.Ordered := by
  cases key with
  | nil => exact ht
  | cons c key => exact Branches.ordered_insert ht v c key

namespace Table

variable {α : Type}

/-- The table with each of some keywords, registered one after another. -/
def register (t : Table α) (entries : List (String × α)) : Table α :=
  entries.foldl (fun t entry => t.insert entry.1 entry.2) t

theorem ordered_register {t : Table α} (ht : t.entries.branches.Ordered)
    (entries : List (String × α)) : (t.register entries).entries.branches.Ordered := by
  induction entries generalizing t with
  | nil => exact ht
  | cons entry entries ih => exact ih (Trie.ordered_insert ht entry.1.toList entry.2)

theorem contains_register {t : Table α} (ht : t.entries.branches.Ordered)
    (entries : List (String × α)) (keyword : String) :
    (t.register entries).contains keyword = true ↔
      keyword ∈ entries.map Prod.fst ∨ t.contains keyword = true := by
  induction entries generalizing t with
  | nil => simp [register]
  | cons entry entries ih =>
    have hinsert : (t.insert entry.1 entry.2).contains keyword = true ↔
        keyword = entry.1 ∨ t.contains keyword = true := by
      rw [contains, Trie.contains, insert, Trie.find?_insert ht]
      by_cases h : keyword = entry.1
      · simp [h]
      · have hne : keyword.toList ≠ entry.1.toList := fun heq => h (String.toList_inj.1 heq)
        simp [h, hne, contains, Trie.contains]
    rw [List.map_cons, List.mem_cons]
    calc ((t.register (entry :: entries)).contains keyword = true) ↔
        keyword ∈ entries.map Prod.fst ∨ (t.insert entry.1 entry.2).contains keyword = true :=
          ih (Trie.ordered_insert ht entry.1.toList entry.2)
      _ ↔ (keyword = entry.1 ∨ keyword ∈ entries.map Prod.fst) ∨ t.contains keyword = true := by
          rw [hinsert]
          tauto

/-! ### The search -/

/-- The search stops at the longest start whose keys are not none. -/
theorem sharingStart_cases (t : Table α) (word : List Char) (n : Nat) :
    (∃ m, 0 < m ∧ m ≤ n ∧ t.entries.keysFrom (word.take m) ≠ [] ∧
        (∀ k, m < k → k ≤ n → t.entries.keysFrom (word.take k) = []) ∧
        t.sharingStart word n = t.entries.keysFrom (word.take m)) ∨
      (∀ k, 0 < k → k ≤ n → t.entries.keysFrom (word.take k) = []) ∧
        t.sharingStart word n = [] := by
  induction n with
  | zero => exact .inr ⟨fun k hk hle => absurd hk (by omega), rfl⟩
  | succ n ih =>
    by_cases hkeys : t.entries.keysFrom (word.take (n + 1)) = []
    · have hskip : t.sharingStart word (n + 1) = t.sharingStart word n := by
        simp [sharingStart, hkeys]
      have hall {P : Nat → Prop} (h : ∀ k, P k → k ≤ n → t.entries.keysFrom (word.take k) = [])
          (k : Nat) (hk : P k) (hle : k ≤ n + 1) : t.entries.keysFrom (word.take k) = [] := by
        obtain rfl | hlt := hle.eq_or_lt
        · exact hkeys
        · exact h k hk (by omega)
      rw [hskip]
      obtain ⟨m, hm, hle, hne, hnone, heq⟩ | ⟨hnone, heq⟩ := ih
      · exact .inl ⟨m, hm, by omega, hne, hall hnone, heq⟩
      · exact .inr ⟨hall hnone, heq⟩
    · refine .inl ⟨n + 1, by omega, le_rfl, hkeys, fun k hk hle => absurd hk (by omega), ?_⟩
      simp [sharingStart, hkeys]

/-- Some key starts with a text exactly if the keys that do are not none. -/
theorem keysFrom_ne_nil {t : Table α} (ht : t.entries.branches.Ordered) {keywords : List String}
    (hkeywords : ∀ keyword, t.contains keyword = true ↔ keyword ∈ keywords) (start : List Char) :
    t.entries.keysFrom start ≠ [] ↔ ∃ keyword ∈ keywords, start <+: keyword.toList := by
  constructor
  · intro hne
    obtain ⟨key, hkey⟩ := List.exists_mem_of_ne_nil _ hne
    obtain ⟨hsome, hstart⟩ := (Trie.mem_keysFrom ht start key).1 hkey
    refine ⟨String.ofList key, (hkeywords _).1 ?_, ?_⟩
    · simpa [contains, Trie.contains] using hsome
    · simpa using hstart
  · rintro ⟨keyword, hmem, hstart⟩
    exact List.ne_nil_of_mem ((Trie.mem_keysFrom ht start _).2 ⟨(hkeywords _).2 hmem, hstart⟩)

theorem suggests_suggestions {t : Table α} (ht : t.entries.branches.Ordered)
    {keywords : List String}
    (hkeywords : ∀ keyword, t.contains keyword = true ↔ keyword ∈ keywords) (word : String) :
    Suggests keywords word (t.suggestions word) := by
  have hupper : t.entries.contains (Text.upper word.toList) = true ↔
      String.ofList (Text.upper word.toList) ∈ keywords := by
    rw [← hkeywords, contains, String.toList_ofList]
  have hshared {start : List Char} (hne : start ≠ [])
      (hstart : start <+: Text.upper word.toList) :
      SharedStart keywords (Text.upper word.toList) start ↔ t.entries.keysFrom start ≠ [] := by
    rw [keysFrom_ne_nil ht hkeywords]
    exact ⟨fun h => h.shared, fun h => ⟨hne, hstart, h⟩⟩
  rw [suggestions]
  split
  · next h => exact .upper ⟨h.1, hupper.1 h.2⟩
  next h =>
  have hnot : ¬ MeantInUpper keywords word := fun hmeant => h ⟨hmeant.1, hupper.2 hmeant.2⟩
  set upper := Text.upper word.toList
  -- a shared start is one of those that the search comes by
  have hby {start : List Char} (hstart : SharedStart keywords upper start) :
      0 < start.length ∧ start.length ≤ upper.length ∧
        t.entries.keysFrom (upper.take start.length) ≠ [] := by
    refine ⟨List.length_pos_iff.2 hstart.ne_nil, hstart.isPrefix.length_le, ?_⟩
    rw [← List.prefix_iff_eq_take.1 hstart.isPrefix]
    exact (hshared hstart.ne_nil hstart.isPrefix).1 hstart
  obtain ⟨m, hpos, hle, hkeys, hnone, heq⟩ | ⟨hnone, heq⟩ :=
    t.sharingStart_cases upper upper.length
  · rw [heq]
    have hlength : (upper.take m).length = m := List.length_take_of_le hle
    have hne : upper.take m ≠ [] := List.length_pos_iff.1 (hlength.symm ▸ hpos)
    have hlongest : LongestShared keywords upper (upper.take m) := by
      refine ⟨(hshared hne (List.take_prefix m upper)).2 hkeys, fun other hother => ?_⟩
      rw [hlength]
      obtain ⟨-, hother_le, hother_keys⟩ := hby hother
      exact le_of_not_gt fun hlt => hother_keys (hnone _ hlt hother_le)
    refine .sharing hnot hlongest ?_ fun keyword => ?_
    · refine List.Pairwise.map _ (fun s s' hlt => ?_) (Trie.keysFrom_sorted ht _)
      rw [String.lt_iff_toList_lt, String.toList_ofList, String.toList_ofList]
      exact hlt
    · rw [List.mem_map]
      constructor
      · rintro ⟨key, hkey, rfl⟩
        obtain ⟨hsome, hstart⟩ := (Trie.mem_keysFrom ht _ key).1 hkey
        rw [← hkeywords, contains, String.toList_ofList]
        exact ⟨hsome, hstart⟩
      · rintro ⟨hmem, hstart⟩
        refine ⟨keyword.toList, ?_, String.ofList_toList⟩
        exact (Trie.mem_keysFrom ht _ _).2 ⟨(hkeywords _).2 hmem, hstart⟩
  · rw [heq]
    refine .none hnot fun start hstart => ?_
    obtain ⟨hpos, hle, hkeys⟩ := hby hstart
    exact hkeys (hnone _ hpos hle)

end Table

/-! ### The search by byte offsets

The table's search counts characters. A search that keeps the offset of a byte instead can go
wrong: an offset inside a character is the end of no start. -/

namespace Text

/-- The number of bytes of a text. -/
def byteSize (t : List Char) : Nat :=
  (t.map Char.utf8Size).sum

/-- The start of a text that ends at a byte offset; `none` inside a character and past the
end. -/
def startOfBytes? : List Char → Nat → Option (List Char)
  | _, 0 => some []
  | [], _ + 1 => none
  | c :: t, n + 1 =>
    if c.utf8Size ≤ n + 1 then (startOfBytes? t (n + 1 - c.utf8Size)).map (c :: ·) else none

theorem byteSize_cons (c : Char) (t : List Char) : byteSize (c :: t) = c.utf8Size + byteSize t :=
  rfl

theorem byteSize_append (s t : List Char) : byteSize (s ++ t) = byteSize s + byteSize t := by
  simp [byteSize]

theorem byteSize_of_startOfBytes? {t s : List Char} {n : Nat} (h : startOfBytes? t n = some s) :
    byteSize s = n := by
  induction t, n using startOfBytes?.induct generalizing s with
  | case1 t =>
    cases t <;> cases h <;> rfl
  | case2 n => cases h
  | case3 c t n hle ih =>
    rw [startOfBytes?, if_pos hle, Option.map_eq_some_iff] at h
    obtain ⟨s, hs, rfl⟩ := h
    rw [byteSize_cons, ih hs]
    omega
  | case4 c t n hle =>
    rw [startOfBytes?, if_neg hle] at h
    cases h

/-- The offset behind whole characters is the end of a start. -/
theorem startOfBytes?_byteSize (s t : List Char) :
    startOfBytes? (s ++ t) (byteSize s) = some s := by
  induction s with
  | nil => cases t <;> rfl
  | cons c s ih =>
    have hpos := c.utf8Size_pos
    obtain ⟨n, hn⟩ : ∃ n, byteSize (c :: s) = n + 1 :=
      Nat.exists_eq_add_one.2 (by rw [byteSize_cons]; omega)
    have hrest : n + 1 - c.utf8Size = byteSize s := by
      rw [← hn, byteSize_cons]
      omega
    rw [hn, List.cons_append, startOfBytes?, if_pos (by rw [byteSize_cons] at hn; omega), hrest, ih]
    rfl

/-- The offset of the last character is before the end. -/
theorem byteSize_dropLast_lt {s : List Char} (hs : s ≠ []) : byteSize s.dropLast < byteSize s := by
  have hpos := (s.getLast hs).utf8Size_pos
  have hsize : byteSize s = byteSize s.dropLast + (s.getLast hs).utf8Size := by
    conv_lhs => rw [← List.dropLast_append_getLast hs]
    rw [byteSize_append]
    rfl
  omega

theorem byteSize_dropLast_lt_of_startOfBytes? {t s : List Char} {n : Nat} (hn : n ≠ 0)
    (h : startOfBytes? t n = some s) : byteSize s.dropLast < n := by
  have hsize := byteSize_of_startOfBytes? h
  have hs : s ≠ [] := by
    rintro rfl
    exact hn hsize.symm
  exact hsize ▸ byteSize_dropLast_lt hs

end Text

namespace Table

variable {α : Type}

/-- The keys that start with the longest possible start of a word, among its starts that end at
or before a byte offset. The next offset is the one of the last character of the start. -/
def sharingStartByBytes (t : Table α) (word : List Char) (n : Nat) : Option (List (List Char)) :=
  if n = 0 then some []
  else
    match _hstart : Text.startOfBytes? word n with
    | none => none
    | some start =>
      if (t.entries.keysFrom start).isEmpty then
        t.sharingStartByBytes word (Text.byteSize start.dropLast)
      else some (t.entries.keysFrom start)
termination_by n
decreasing_by exact Text.byteSize_dropLast_lt_of_startOfBytes? ‹_› ‹_›

/-- The keywords that a word may have been meant as, searched by byte offsets. -/
def suggestionsByBytes (t : Table α) (word : String) : Option (List String) :=
  let upper := Text.upper word.toList
  if upper ≠ word.toList ∧ t.entries.contains upper then some [String.ofList upper]
  else (t.sharingStartByBytes upper (Text.byteSize upper)).map (·.map String.ofList)

/-- From the end of a start, the search by byte offsets comes by the ends of shorter starts
only. -/
theorem sharingStartByBytes_eq (t : Table α) (word : List Char) {n : Nat}
    (hn : n ≤ word.length) :
    t.sharingStartByBytes word (Text.byteSize (word.take n)) = some (t.sharingStart word n) := by
  induction n with
  | zero =>
    rw [sharingStartByBytes]
    rfl
  | succ n ih =>
    have hlength : (word.take (n + 1)).length = n + 1 := List.length_take_of_le hn
    have hne : word.take (n + 1) ≠ [] := List.length_pos_iff.1 (by omega)
    have hsize : Text.byteSize (word.take (n + 1)) ≠ 0 :=
      Nat.ne_of_gt (Nat.zero_lt_of_lt (Text.byteSize_dropLast_lt hne))
    have hstart : Text.startOfBytes? word (Text.byteSize (word.take (n + 1))) =
        some (word.take (n + 1)) := by
      have h := Text.startOfBytes?_byteSize (word.take (n + 1)) (word.drop (n + 1))
      rwa [List.take_append_drop] at h
    have hlast : (word.take (n + 1)).dropLast = word.take n := by
      rw [List.dropLast_eq_take, hlength, List.take_take, Nat.add_sub_cancel,
        Nat.min_eq_left n.le_succ]
    rw [sharingStartByBytes, if_neg hsize]
    split
    · next hnone =>
      rw [hstart] at hnone
      cases hnone
    · next start hsome =>
      rw [hstart] at hsome
      obtain rfl := Option.some.inj hsome
      rw [sharingStart, hlast, ih (by omega)]
      split <;> rfl

theorem suggestionsByBytes_eq (t : Table α) (word : String) :
    t.suggestionsByBytes word = some (t.suggestions word) := by
  have hsearch := t.sharingStartByBytes_eq (Text.upper word.toList) le_rfl
  rw [List.take_length] at hsearch
  rw [suggestionsByBytes, suggestions]
  split
  · rfl
  · rw [hsearch]
    rfl

/-! ### The suggestions of a table -/

/-- **Suggestions share the longest start.** Whatever keywords are registered, the suggestions
for a word are those that its upper-case form determines: the form itself if it is a keyword
that differs from the word, else all keywords with the longest start that any of them shares,
in order and each once, else none. The search by byte offsets ends, never inside a
character, and finds the same. -/
theorem suggestions_share_longest_start (entries : List (String × α)) (word : String) :
    (∀ found, Suggests (entries.map Prod.fst) word found ↔
        (empty.register entries).suggestions word = found) ∧
      (empty.register entries).suggestionsByBytes word =
        some ((empty.register entries).suggestions word) := by
  have hempty : (empty : Table α).entries.branches.Ordered := trivial
  have hkeywords (keyword : String) : (empty.register entries).contains keyword = true ↔
      keyword ∈ entries.map Prod.fst := by
    rw [contains_register hempty]
    refine or_iff_left ?_
    rw [contains, Trie.contains, Trie.find?_eq]
    cases keyword.toList <;> simp [empty, Trie.empty, Branches.findFrom, Branches.find?,
      Branches.at?]
  have hsuggests := suggests_suggestions (ordered_register hempty entries) hkeywords word
  refine ⟨fun found => ⟨fun h => hsuggests.unique h, ?_⟩, suggestionsByBytes_eq _ word⟩
  rintro rfl
  exact hsuggests

end Table

end LineScript
