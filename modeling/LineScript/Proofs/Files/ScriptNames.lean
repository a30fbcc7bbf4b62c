import LineScript.Files.Search
import LineScript.Proofs.Text.Blank

/-!
# The names of scripts

- `HasScriptExtension`, `StartsWithDot`: what the names of scripts end with, and how hidden
  names start.
- `extension?_eq_some_iff`: the extension of a name is what follows its last dot.
- `isScriptName_iff`, `isHidden_iff`: the two are what is asked of a name.
-/

namespace LineScript

/-- A name that ends in the extension of scripts, in capital letters or small ones. Something
stands before the dot. -/
def HasScriptExtension (name : String) : Prop :=
  ∃ stem extension, stem ≠ "" ∧ extension ∈ ["qc", "qC", "Qc", "QC"] ∧
    name = stem ++ "." ++ extension

/-- A name that starts with a dot. -/
def StartsWithDot (name : String) : Prop :=
  ∃ rest, name = "." ++ rest

/-- What follows the last dot of a name is its extension, unless the dot comes first. -/
theorem extension?_of_toList {name : String} {stem e : List Char}
    (hname : name.toList = stem ++ '.' :: e) (he : '.' ∉ e) :
    extension? name = if stem = [] then none else some e := by
  have hpiece : Text.pieces (· = '.') e = [e] := by
    refine Text.pieces_of_forall fun c hc => decide_eq_false ?_
    rintro rfl
    exact he hc
  unfold extension?
  rw [hname, Text.pieces_append_cons (by decide), hpiece, List.reverse_append,
    List.reverse_singleton, List.singleton_append]
  cases stem with
  | nil => rfl
  | cons c stem =>
    rw [if_neg (List.cons_ne_nil c stem)]
    -- a text that is not empty is not cut into one empty part
    split
    · next h => cases h
    · next h =>
      have hnil := List.reverse_eq_nil_iff.1 (List.cons.inj h).2
      exact absurd hnil (Text.pieces_ne_nil _ _)
    · next h =>
      have hone : Text.pieces (· = '.') (c :: stem) = [[]] := by
        rw [← List.reverse_reverse (Text.pieces _ _), (List.cons.inj h).2, List.reverse_singleton]
      rw [Text.pieces] at hone
      split at hone
      · exact absurd (List.cons.inj hone).2 (Text.pieces_ne_nil _ _)
      · cases hone
      · cases hone
    · next h => rw [(List.cons.inj h).1]

theorem extension?_eq_some_iff {name : String} {e : List Char} :
    extension? name = some e ↔ ∃ stem, stem ≠ [] ∧ name.toList = stem ++ '.' :: e ∧ '.' ∉ e := by
  constructor
  · intro h
    by_cases hdot : '.' ∈ name.toList
    · obtain ⟨e', stem, hname, he'⟩ := List.eq_append_cons_of_mem (List.mem_reverse.2 hdot)
      have hlast : name.toList = stem.reverse ++ '.' :: e'.reverse := by
        rw [← List.reverse_reverse name.toList, hname, List.reverse_append, List.reverse_cons,
          List.append_assoc, List.singleton_append]
      have he : '.' ∉ e'.reverse := mt List.mem_reverse.1 he'
      rw [extension?_of_toList hlast he] at h
      split at h
      · cases h
      · next hstem =>
        obtain rfl := Option.some.inj h
        exact ⟨stem.reverse, hstem, hlast, he⟩
    · have hone : Text.pieces (· = '.') name.toList = [name.toList] := by
        refine Text.pieces_of_forall fun c hc => decide_eq_false ?_
        rintro rfl
        exact hdot hc
      rw [extension?, hone] at h
      cases h
  · rintro ⟨stem, hstem, hname, he⟩
    rw [extension?_of_toList hname he, if_neg hstem]

/-- A capital letter becomes the small letter 32 places behind it, and nothing else
changes. -/
theorem toNat_toLower (c : Char) :
    c.toLower.toNat =
      if 'A'.toNat ≤ c.toNat ∧ c.toNat ≤ 'Z'.toNat then c.toNat + 32 else c.toNat := by
  have hiff : (c.val ≥ 'A'.val ∧ c.val ≤ 'Z'.val) ↔ 'A'.toNat ≤ c.toNat ∧ c.toNat ≤ 'Z'.toNat :=
    Iff.rfl
  unfold Char.toLower
  split
  · next h =>
    rw [if_pos (hiff.1 h)]
    have hle : c.val.toNat ≤ 90 := h.2
    have hdistance : ('a'.val - 'A'.val).toNat = 32 := rfl
    show (c.val + ('a'.val - 'A'.val)).toNat = c.val.toNat + 32
    rw [UInt32.toNat_add, hdistance, Nat.mod_eq_of_lt (by omega)]
  · next h => rw [if_neg (mt hiff.2 h)]

/-- The letters that become a small letter are that letter and the capital one. -/
theorem toLower_eq_iff {c small capital : Char}
    (hcapital : 'A'.toNat ≤ capital.toNat ∧ capital.toNat ≤ 'Z'.toNat)
    (hsmall : capital.toNat + 32 = small.toNat) : c.toLower = small ↔ c = small ∨ c = capital := by
  have hfirst : 'A'.toNat = 65 := rfl
  have hlast : 'Z'.toNat = 90 := rfl
  rw [← Char.toNat_inj, ← Char.toNat_inj, ← Char.toNat_inj, toNat_toLower]
  split <;> omega

/-- The spellings of the extension of scripts. -/
theorem map_toLower_eq_scriptExtension_iff {e : List Char} :
    e.map Char.toLower = scriptExtension.toList ↔
      String.ofList e ∈ ["qc", "qC", "Qc", "QC"] := by
  have hq : ∀ {c : Char}, c.toLower = 'q' ↔ c = 'q' ∨ c = 'Q' := toLower_eq_iff (by decide) rfl
  have hc : ∀ {c : Char}, c.toLower = 'c' ↔ c = 'c' ∨ c = 'C' := toLower_eq_iff (by decide) rfl
  constructor
  · intro h
    obtain ⟨a, e, rfl, ha, h⟩ := List.map_eq_cons_iff.1 h
    obtain ⟨b, e, rfl, hb, h⟩ := List.map_eq_cons_iff.1 h
    obtain rfl := List.map_eq_nil_iff.1 h
    obtain rfl | rfl := hq.1 ha
    · obtain rfl | rfl := hc.1 hb
      · decide
      · decide
    · obtain rfl | rfl := hc.1 hb
      · decide
      · decide
  · intro h
    have hspellings : ∀ extension ∈ ["qc", "qC", "Qc", "QC"],
        extension.toList.map Char.toLower = scriptExtension.toList := by decide
    have hextension := hspellings _ h
    rwa [String.toList_ofList] at hextension

theorem isScriptName_iff {name : String} : isScriptName name = true ↔ HasScriptExtension name := by
  unfold isScriptName HasScriptExtension
  constructor
  · intro h
    split at h
    · next e he =>
      obtain ⟨stem, hstem, hname, -⟩ := extension?_eq_some_iff.1 he
      refine ⟨String.ofList stem, String.ofList e, ?_,
        map_toLower_eq_scriptExtension_iff.1 (of_decide_eq_true h), ?_⟩
      · simpa using hstem
      · rw [← String.toList_inj, hname]
        simp
    · cases h
  · rintro ⟨stem, extension, hstem, hextension, rfl⟩
    have hlast : (stem ++ "." ++ extension).toList = stem.toList ++ '.' :: extension.toList := by
      simp
    have hdot : ∀ extension ∈ ["qc", "qC", "Qc", "QC"], '.' ∉ extension.toList := by decide
    rw [extension?_eq_some_iff.2 ⟨stem.toList, by simpa using hstem, hlast, hdot _ hextension⟩]
    refine decide_eq_true (map_toLower_eq_scriptExtension_iff.2 ?_)
    rwa [String.ofList_toList]

theorem isHidden_iff {name : String} : isHidden name = true ↔ StartsWithDot name := by
  unfold isHidden StartsWithDot
  rw [decide_eq_true_iff, List.head?_eq_some_iff]
  constructor
  · rintro ⟨rest, hname⟩
    refine ⟨String.ofList rest, ?_⟩
    rw [← String.toList_inj, hname]
    simp
  · rintro ⟨rest, rfl⟩
    exact ⟨rest.toList, by simp⟩

instance : DecidablePred HasScriptExtension :=
  fun _ => decidable_of_iff _ isScriptName_iff

instance : DecidablePred StartsWithDot :=
  fun _ => decidable_of_iff _ isHidden_iff

end LineScript
