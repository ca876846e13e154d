import Paac.Library.Tokens

set_option autoImplicit false

/-!
# Parts of a text

Trimming, stripping and splitting add no characters. A piece holds no separator, and a word of a
text is a word. What a parser cuts out of a line is found by these operations one after the other,
so whatever holds of every character of the line holds of every name that was read.

## Main results

- `trim_sublist`, `trimStartMatchesChar_sublist`, `stripPrefix_subset`: what is left is part of the
  text.
- `mem_split`, `split_of_not_mem`: the pieces between separators hold no separator.
- `mem_splitWhitespace`: a word has a character and no white space.
- `splitOnceChars_fst`, `splitOnce_fst`: the part before the first separator.
- `trimStart_eq_self_iff`, `trimEnd_eq_self_iff`: when nothing is trimmed off.
-/

namespace Paac.Text

theorem trim_sublist (s : String) : (trim s).toList.Sublist s.toList := by
  rw [trim, String.toList_ofList]
  exact (List.rdropWhile_prefix _ _).sublist.trans (List.dropWhile_suffix _).sublist

theorem trimStartMatchesChar_sublist (c : Char) (s : String) :
    (trimStartMatchesChar c s).toList.Sublist s.toList := by
  rw [trimStartMatchesChar, String.toList_ofList]
  exact (List.dropWhile_suffix _).sublist

theorem trimEndMatchesChar_sublist (c : Char) (s : String) :
    (trimEndMatchesChar c s).toList.Sublist s.toList := by
  rw [trimEndMatchesChar, String.toList_ofList]
  exact (List.rdropWhile_prefix _ _).sublist

/-- Trimming a character off the start does nothing exactly when it is not there. -/
theorem trimStart_eq_self_iff (c : Char) (s : String) :
    trimStartMatchesChar c s = s ↔ s.toList.head? ≠ some c := by
  rw [← String.toList_inj, trimStartMatchesChar, String.toList_ofList]
  cases s.toList with
  | nil => simp
  | cons d ds =>
      rw [List.dropWhile_eq_self_iff, List.head?_cons, Ne, Option.some.injEq]
      simp

theorem trimEnd_eq_self_iff (c : Char) (s : String) :
    trimEndMatchesChar c s = s ↔ s.toList.getLast? ≠ some c := by
  rw [← String.toList_inj, trimEndMatchesChar, String.toList_ofList, List.rdropWhile_eq_self_iff]
  cases s.toList with
  | nil => simp
  | cons d ds =>
      rw [List.getLast?_eq_some_getLast (List.cons_ne_nil d ds)]
      simp

theorem stripPrefix_subset {p s r : String} (h : stripPrefix p s = some r) :
    r.toList ⊆ s.toList := by
  rw [stripPrefix_eq_some h, String.toList_append]
  exact List.subset_append_right _ _

/-- A piece of a list that is split. -/
theorem splitOnP_subset {α : Type} (sep : α → Bool) (cs : List α) :
    ∀ t ∈ cs.splitOnP sep, t ⊆ cs := by
  induction cs with
  | nil =>
      intro t ht
      rw [List.splitOnP_nil, List.mem_singleton] at ht
      rw [ht]
      exact List.nil_subset _
  | cons c cs ih =>
      intro t ht
      rw [List.splitOnP_cons_eq_if_modifyHead] at ht
      split at ht
      · rcases List.mem_cons.1 ht with rfl | ht
        · exact List.nil_subset _
        · exact List.Subset.trans (ih t ht) (List.subset_cons_self c cs)
      · -- the first piece takes the character
        cases hpieces : cs.splitOnP sep with
        | nil => exact absurd hpieces (List.splitOnP_ne_nil sep cs)
        | cons piece pieces =>
            rw [hpieces] at ih
            rw [hpieces, List.modifyHead_cons] at ht
            rcases List.mem_cons.1 ht with rfl | ht
            · exact List.cons_subset_cons c (ih piece List.mem_cons_self)
            · exact List.Subset.trans (ih t (List.mem_cons_of_mem _ ht)) (List.subset_cons_self c cs)

theorem mem_split {c : Char} {s t : String} (h : t ∈ split c s) :
    t.toList ⊆ s.toList ∧ c ∉ t.toList := by
  obtain ⟨cs, hcs, rfl⟩ := List.mem_map.1 h
  rw [splitChars_eq_splitOn, List.splitOn] at hcs
  rw [String.toList_ofList]
  refine ⟨splitOnP_subset _ _ cs hcs, fun hc => ?_⟩
  have hsep := not_sep_of_mem_splitOnP s.toList cs hcs c hc
  simp at hsep

theorem split_of_not_mem {c : Char} {s : String} (h : c ∉ s.toList) : split c s = [s] := by
  rw [split, splitChars_of_not_mem h, List.map_singleton, String.ofList_toList]

theorem mem_splitWhitespace {s w : String} (h : w ∈ splitWhitespace s) :
    isWord w = true ∧ w.toList ⊆ s.toList := by
  obtain ⟨cs, hcs, rfl⟩ := List.mem_map.1 h
  rw [splitWhitespaceChars_eq_tokens] at hcs
  have hfree := not_sep_of_mem_tokens hcs
  obtain ⟨hpiece, hne⟩ := List.mem_filter.1 hcs
  rw [isWord, String.toList_ofList, Bool.and_eq_true, List.all_eq_true]
  refine ⟨⟨hne, fun c hc => ?_⟩, splitOnP_subset _ _ cs hpiece⟩
  rw [hfree c hc]
  rfl

/-- The part in front of the separator has none. -/
theorem splitOnceChars_fst {c : Char} {cs : List Char} {r : List Char × List Char}
    (h : splitOnceChars c cs = some r) : r.1 ⊆ cs ∧ c ∉ r.1 := by
  induction cs generalizing r with
  | nil => cases h
  | cons d ds ih =>
      rw [splitOnceChars] at h
      split at h
      · rw [← Option.some.inj h]
        exact ⟨List.nil_subset _, List.not_mem_nil⟩
      · rename_i hd
        obtain ⟨r', hr', rfl⟩ := Option.map_eq_some_iff.1 h
        obtain ⟨hsub, hnot⟩ := ih hr'
        refine ⟨List.cons_subset_cons d hsub, ?_⟩
        rw [List.mem_cons, not_or]
        exact ⟨Ne.symm hd, hnot⟩

/-- What stands before the first `c` does not contain it. -/
theorem splitOnce_fst {c : Char} {s a b : String} (h : splitOnce c s = some (a, b)) :
    a.toList ⊆ s.toList ∧ c ∉ a.toList := by
  obtain ⟨r, hr, hab⟩ := Option.map_eq_some_iff.1 h
  obtain ⟨rfl, -⟩ := Prod.mk.inj hab
  rw [String.toList_ofList]
  exact splitOnceChars_fst hr

end Paac.Text
