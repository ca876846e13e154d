import Paac.Library.Text

set_option autoImplicit false

/-!
# Lines and words of a text

How the operations of `Text.lean` take a text apart that was put together from lines, from words
between spaces, or from items between commas. A generator of line-oriented text and its parser are
inverse to each other by these lemmas: each says that one splitting or trimming operation gives the
parts back, and under which condition on the parts.

## Main results

- `trim_append_left`, `trim_append_right`, `trim_brackets`, `trim_word`: what trimming leaves.
- `trim_eq_empty_iff`, `trim_trim`: a text of blanks trims to nothing, and trimming twice is
  trimming once.
- `splitWhitespace_two`, `splitChars_join`, `lines_join`: a text that was joined is split into its
  parts again.
- `splitOnceChars_append`: a text is split at its first separator.
- `stripSuffix_append`, `trimEndMatches_append`: a suffix is stripped off, once or greedily.
- `contains_iff_infix`: the search for a part, as a statement about lists.
- `contains_padded`: what occurs in a text occurs in every longer text around it.
-/

namespace Paac.Text

/-! ## Words -/

/-- A text that is not empty and contains no whitespace. -/
def isWord (s : String) : Bool := !s.toList.isEmpty && s.toList.all fun c => !isWhitespace c

/-- A text of whitespace only. -/
def isBlank (s : String) : Bool := s.toList.all isWhitespace

theorem isWord_ne_nil {s : String} (h : isWord s = true) : s.toList ≠ [] := by
  rw [isWord, Bool.and_eq_true] at h
  intro hnil
  rw [hnil] at h
  cases h.1

theorem isWhitespace_of_mem_isWord {s : String} (h : isWord s = true) {c : Char}
    (hc : c ∈ s.toList) : isWhitespace c = false := by
  rw [isWord, Bool.and_eq_true, List.all_eq_true] at h
  simpa using h.2 c hc

/-! ## Trimming -/

/-- What is dropped from the end may end the text. -/
theorem rdropWhile_append_all {p : Char → Bool} (cs : List Char) {ds : List Char}
    (h : ds.all p = true) : List.rdropWhile p (cs ++ ds) = List.rdropWhile p cs := by
  have hrev : ∀ c ∈ ds.reverse, p c = true := by
    intro c hc
    rw [List.all_eq_true] at h
    exact h c (List.mem_reverse.1 hc)
  rw [List.rdropWhile, List.rdropWhile, List.reverse_append,
    List.dropWhile_append_of_pos hrev]

theorem trim_append_left {a : String} (h : isBlank a = true) (s : String) :
    trim (a ++ s) = trim s := by
  rw [isBlank, List.all_eq_true] at h
  rw [trim, trim, String.toList_append, List.dropWhile_append_of_pos h]

theorem trim_append_right (s : String) {a : String} (h : isBlank a = true) :
    trim (s ++ a) = trim s := by
  rw [isBlank] at h
  rw [trim, trim, String.toList_append, List.dropWhile_append]
  split
  · rename_i hempty
    have hnil : List.dropWhile isWhitespace a.toList = [] :=
      List.dropWhile_eq_nil_iff.2 (List.all_eq_true.1 h)
    rw [List.isEmpty_iff.1 hempty, hnil]
  · rw [rdropWhile_append_all _ h]

/-- Brackets around a text that has none are trimmed off. -/
theorem trim_brackets {s : String} {l r : Char} (hne : l ≠ r) (hl : l ∉ s.toList)
    (hr : r ∉ s.toList) :
    trimEndMatchesChar r (trimStartMatchesChar l
      (String.singleton l ++ (s ++ String.singleton r))) = s := by
  have hstart : (String.singleton l ++ (s ++ String.singleton r)).toList.dropWhile (· == l) =
      s.toList ++ [r] := by
    rw [String.toList_append, String.toList_append, String.toList_singleton,
      String.toList_singleton, List.singleton_append, List.dropWhile_cons_of_pos (by simp)]
    cases hcs : s.toList with
    | nil =>
        rw [List.nil_append, List.dropWhile_cons_of_neg]
        simpa using Ne.symm hne
    | cons c cs =>
        rw [List.cons_append, List.dropWhile_cons_of_neg]
        rw [hcs, List.mem_cons, not_or] at hl
        simpa using Ne.symm hl.1
  have hend : List.rdropWhile (· == r) s.toList = s.toList := by
    rw [List.rdropWhile_eq_self_iff]
    intro hnil hlast
    rw [beq_iff_eq] at hlast
    exact hr (hlast ▸ List.getLast_mem hnil)
  rw [trimStartMatchesChar, hstart, trimEndMatchesChar, String.toList_ofList,
    rdropWhile_append_all _ (by simp), hend, String.ofList_toList]

/-- A text with no whitespace at its ends has nothing to trim. -/
theorem trim_of_ends {s : String} (hstart : ∀ c, s.toList.head? = some c → isWhitespace c = false)
    (hend : ∀ c, s.toList.getLast? = some c → isWhitespace c = false) : trim s = s := by
  have hleft : s.toList.dropWhile isWhitespace = s.toList := by
    cases hcs : s.toList with
    | nil => rfl
    | cons c cs =>
        rw [List.dropWhile_cons_of_neg]
        rw [hstart c (by rw [hcs]; rfl)]
        exact Bool.false_ne_true
  have hright : List.rdropWhile isWhitespace s.toList = s.toList := by
    rw [List.rdropWhile_eq_self_iff]
    intro hne
    rw [hend _ (List.getLast?_eq_some_getLast hne)]
    exact Bool.false_ne_true
  rw [trim, hleft, hright, String.ofList_toList]

/-- A trimmed text does not start with whitespace. -/
theorem trim_head {s : String} {c : Char} (h : (trim s).toList.head? = some c) :
    isWhitespace c = false := by
  rw [trim, String.toList_ofList] at h
  obtain ⟨t, ht⟩ := List.rdropWhile_prefix isWhitespace (s.toList.dropWhile isWhitespace)
  have hhead : (s.toList.dropWhile isWhitespace).head? = some c := by
    rw [← ht, List.head?_append, h]
    rfl
  have hnot := List.head?_dropWhile_not isWhitespace s.toList
  rw [hhead] at hnot
  simpa using hnot

theorem trim_trim (s : String) : trim (trim s) = trim s :=
  trim_of_ends (fun _ => trim_head) fun _ => trim_getLast

/-- What stands at the end of a trimmed text is not blank, unless it is empty. -/
theorem eq_empty_of_trim_append {s k r : String} (h : trim s = k ++ r) (hr : trim r = "") :
    r = "" := by
  have hblank := isWhitespace_of_trim_eq_empty hr
  cases hlast : r.toList.getLast? with
  | none =>
      rw [List.getLast?_eq_none_iff] at hlast
      rw [← String.toList_inj, hlast]
      rfl
  | some c =>
      have hend : (trim s).toList.getLast? = some c := by
        rw [h, String.toList_append, List.getLast?_append, hlast]
        rfl
      have hc := hblank c (List.mem_of_getLast? hlast)
      rw [trim_getLast hend] at hc
      cases hc

theorem trim_eq_empty_iff {s : String} :
    trim s = "" ↔ ∀ c ∈ s.toList, isWhitespace c = true := by
  constructor
  · exact isWhitespace_of_trim_eq_empty
  · intro h
    rw [trim, List.dropWhile_eq_nil_iff.2 h, List.rdropWhile_nil, String.ofList_nil]

theorem trim_word {s : String} (h : isWord s = true) : trim s = s :=
  trim_of_ends (fun _ hc => isWhitespace_of_mem_isWord h (List.mem_of_head? hc))
    fun _ hc => isWhitespace_of_mem_isWord h (List.mem_of_getLast? hc)

/-! ## Splitting at whitespace -/

/-- A word in front of whitespace is the first word. -/
theorem splitWhitespaceChars_word {cs : List Char} (hne : cs ≠ [])
    (h : ∀ c ∈ cs, isWhitespace c = false) {e : Char} (he : isWhitespace e = true)
    (rest : List Char) :
    splitWhitespaceChars (cs ++ e :: rest) = cs :: splitWhitespaceChars rest := by
  have hspace : splitWhitespaceChars (e :: rest) = splitWhitespaceChars rest := by
    rw [splitWhitespaceChars.eq_def]
    simp only [he, if_true]
  induction cs with
  | nil => exact absurd rfl hne
  | cons c cs ih =>
      have hc := h c List.mem_cons_self
      cases cs with
      | nil =>
          rw [List.singleton_append, splitWhitespaceChars.eq_def]
          simp only [hc, Bool.false_eq_true, if_false, hspace]
          cases splitWhitespaceChars rest with
          | nil => rfl
          | cons piece pieces => simp [he]
      | cons d ds =>
          have hd := h d (List.mem_cons_of_mem _ List.mem_cons_self)
          have htail := ih (List.cons_ne_nil _ _) fun c' hc' => h c' (List.mem_cons_of_mem _ hc')
          rw [List.cons_append, splitWhitespaceChars.eq_def]
          simp only [hc, Bool.false_eq_true, if_false, htail]
          rw [List.cons_append]
          simp [hd]

/-- A word alone is the only word. -/
theorem splitWhitespaceChars_single {cs : List Char} (hne : cs ≠ [])
    (h : ∀ c ∈ cs, isWhitespace c = false) : splitWhitespaceChars cs = [cs] := by
  induction cs with
  | nil => exact absurd rfl hne
  | cons c cs ih =>
      have hc := h c List.mem_cons_self
      cases cs with
      | nil =>
          rw [splitWhitespaceChars.eq_def]
          simp [hc]
      | cons d ds =>
          have hd := h d (List.mem_cons_of_mem _ List.mem_cons_self)
          have htail := ih (List.cons_ne_nil _ _) fun c' hc' => h c' (List.mem_cons_of_mem _ hc')
          rw [splitWhitespaceChars.eq_def]
          simp only [hc, Bool.false_eq_true, if_false, htail]
          simp [hd]

theorem splitWhitespace_two {s t : String} (hs : isWord s = true) (ht : isWord t = true) :
    splitWhitespace (s ++ " " ++ t) = [s, t] := by
  rw [splitWhitespace, String.toList_append, String.toList_append, List.append_assoc]
  have hspace : " ".toList ++ t.toList = ' ' :: t.toList := rfl
  rw [hspace, splitWhitespaceChars_word (isWord_ne_nil hs)
    (fun c hc => isWhitespace_of_mem_isWord hs hc) rfl,
    splitWhitespaceChars_single (isWord_ne_nil ht) fun c hc => isWhitespace_of_mem_isWord ht hc]
  simp

/-! ## Splitting at a character -/

theorem splitChars_of_not_mem {c : Char} {cs : List Char} (h : c ∉ cs) : splitChars c cs = [cs] := by
  induction cs with
  | nil => rfl
  | cons d ds ih =>
      rw [List.mem_cons, not_or] at h
      rw [splitChars, if_neg (Ne.symm h.1), ih h.2]

theorem splitChars_append {c : Char} {cs : List Char} (h : c ∉ cs) (rest : List Char) :
    splitChars c (cs ++ c :: rest) = cs :: splitChars c rest := by
  induction cs with
  | nil => rw [List.nil_append, splitChars, if_pos rfl]
  | cons d ds ih =>
      rw [List.mem_cons, not_or] at h
      rw [List.cons_append, splitChars, if_neg (Ne.symm h.1), ih h.2]

/-- Joined pieces come apart; all but the first keep what follows the character in the separator. -/
theorem splitChars_join {c : Char} {sep : String} {pad : List Char} (hsep : sep.toList = c :: pad)
    (hpad : c ∉ pad) (ls : List String) :
    ∀ l : String, (∀ x ∈ l :: ls, c ∉ x.toList) →
      splitChars c (join sep (l :: ls)).toList = l.toList :: ls.map fun x => pad ++ x.toList := by
  -- the induction needs the pad in front of the first piece
  have hgeneral : ∀ (ls : List String) (l : String) (lead : List Char), c ∉ lead →
      (∀ x ∈ l :: ls, c ∉ x.toList) → splitChars c (lead ++ (join sep (l :: ls)).toList) =
        (lead ++ l.toList) :: ls.map fun x => pad ++ x.toList := by
    intro ls
    induction ls with
    | nil =>
        intro l lead hlead h
        rw [join_singleton, splitChars_of_not_mem]
        · rfl
        · rw [List.mem_append, not_or]
          exact ⟨hlead, h l List.mem_cons_self⟩
    | cons l' ls ih =>
        intro l lead hlead h
        have hl : c ∉ lead ++ l.toList := by
          rw [List.mem_append, not_or]
          exact ⟨hlead, h l List.mem_cons_self⟩
        have hrest := ih l' pad hpad fun x hx => h x (List.mem_cons_of_mem _ hx)
        rw [join_cons_cons, String.toList_append, String.toList_append, hsep, ← List.append_assoc,
          List.cons_append, splitChars_append hl, hrest]
        rfl
  intro l h
  exact hgeneral ls l [] List.not_mem_nil h

/-- A character of a joined text is one of the separator or of a part. -/
theorem mem_join {c : Char} {sep : String} {ls : List String} (h : c ∈ (join sep ls).toList) :
    c ∈ sep.toList ∨ ∃ l ∈ ls, c ∈ l.toList := by
  induction ls with
  | nil => cases h
  | cons l ls ih =>
      cases ls with
      | nil =>
          rw [join_singleton] at h
          exact Or.inr ⟨l, List.mem_cons_self, h⟩
      | cons l' ls =>
          rw [join_cons_cons, String.toList_append, List.mem_append, String.toList_append,
            List.mem_append] at h
          rcases h with h | h | h
          · exact Or.inr ⟨l, List.mem_cons_self, h⟩
          · exact Or.inl h
          · exact (ih h).imp id fun ⟨x, hx, hc⟩ => ⟨x, List.mem_cons_of_mem _ hx, hc⟩

/-- The lines of joined lines: a line may lose a `\r` at its end, and an empty last line is none. -/
theorem lines_join (l : String) (ls : List String) (h : ∀ x ∈ l :: ls, '\n' ∉ x.toList) :
    lines (join "\n" (l :: ls)) =
      (closeLines ((l :: ls).map String.toList)).map String.ofList := by
  rw [lines, @splitChars_join _ _ [] rfl List.not_mem_nil ls l h]
  rfl

/-! ## The part before a character -/

theorem splitOnceChars_of_not_mem {c : Char} {cs : List Char} (h : c ∉ cs) :
    splitOnceChars c cs = none := by
  induction cs with
  | nil => rfl
  | cons d ds ih =>
      rw [List.mem_cons, not_or] at h
      rw [splitOnceChars, if_neg (Ne.symm h.1), ih h.2]
      rfl

theorem not_mem_of_splitOnceChars {c : Char} {cs : List Char} (h : splitOnceChars c cs = none) :
    c ∉ cs := by
  induction cs with
  | nil => exact List.not_mem_nil
  | cons d ds ih =>
      rw [splitOnceChars] at h
      split at h
      · cases h
      · rename_i hd
        rw [List.mem_cons, not_or]
        exact ⟨Ne.symm hd, ih (Option.map_eq_none_iff.1 h)⟩

theorem splitOnceChars_append {c : Char} {cs : List Char} (h : c ∉ cs) (rest : List Char) :
    splitOnceChars c (cs ++ c :: rest) = some (cs, rest) := by
  induction cs with
  | nil => rw [List.nil_append, splitOnceChars, if_pos rfl]
  | cons d ds ih =>
      rw [List.mem_cons, not_or] at h
      rw [List.cons_append, splitOnceChars, if_neg (Ne.symm h.1), ih h.2]
      rfl

/-- What follows belongs to the second part. -/
theorem splitOnceChars_append_of_some {c : Char} {cs : List Char} {r : List Char × List Char}
    (h : splitOnceChars c cs = some r) (ds : List Char) :
    splitOnceChars c (cs ++ ds) = some (r.1, r.2 ++ ds) := by
  induction cs generalizing r with
  | nil => cases h
  | cons d cs ih =>
      rw [splitOnceChars] at h
      rw [List.cons_append, splitOnceChars]
      split
      · rename_i hd
        rw [if_pos hd] at h
        rw [← Option.some.inj h]
      · rename_i hd
        rw [if_neg hd] at h
        obtain ⟨r', hr', rfl⟩ := Option.map_eq_some_iff.1 h
        rw [ih hr']
        rfl

/-! ## Suffixes -/

theorem stripSuffix_append (s p : String) : stripSuffix p (s ++ p) = some s := by
  rw [stripSuffix, String.toList_append, List.reverse_append, dropPrefix?_append, Option.map_some,
    List.reverse_reverse, String.ofList_toList]

theorem stripSuffix_eq_some {p s r : String} (h : stripSuffix p s = some r) : s = r ++ p := by
  obtain ⟨rest, hrest, rfl⟩ := Option.map_eq_some_iff.1 h
  have hs := congrArg List.reverse (dropPrefix?_eq_some hrest)
  rw [List.reverse_reverse, List.reverse_append, List.reverse_reverse] at hs
  rw [← String.toList_inj, String.toList_append, String.toList_ofList, hs]

theorem endsWith_append (s p : String) : endsWith p (s ++ p) = true := by
  rw [endsWith, stripSuffix_append]
  rfl

theorem dropPrefixes_of_none {p cs : List Char} (h : dropPrefix? p cs = none) (n : Nat) :
    dropPrefixes p n cs = cs := by
  cases n with
  | zero => rfl
  | succ n => rw [dropPrefixes, h]

theorem dropPrefix?_of_not_endsWith {p s : String} (h : endsWith p s = false) :
    dropPrefix? p.toList.reverse s.toList.reverse = none := by
  rw [endsWith, stripSuffix, Option.isSome_map, Option.isSome_eq_false_iff,
    Option.isNone_iff_eq_none] at h
  exact h

theorem trimEndMatches_of_not_endsWith {p s : String} (h : endsWith p s = false) :
    trimEndMatches p s = s := by
  rw [trimEndMatches, dropPrefixes_of_none (dropPrefix?_of_not_endsWith h), List.reverse_reverse,
    String.ofList_toList]

/-- One suffix is removed from a text that does not end with it otherwise. -/
theorem trimEndMatches_append {p s : String} (hp : p ≠ "") (h : endsWith p s = false) :
    trimEndMatches p (s ++ p) = s := by
  have hlen : (s ++ p).length ≠ 0 := by
    rw [← String.length_toList, String.toList_append, List.length_append]
    have hne : p.toList.length ≠ 0 := by
      rw [String.length_toList]
      exact fun hzero => hp (String.length_eq_zero_iff.1 hzero)
    omega
  obtain ⟨n, hn⟩ := Nat.exists_eq_succ_of_ne_zero hlen
  rw [trimEndMatches, hn, dropPrefixes, String.toList_append, List.reverse_append,
    dropPrefix?_append]
  dsimp only
  rw [dropPrefixes_of_none (dropPrefix?_of_not_endsWith h), List.reverse_reverse,
    String.ofList_toList]

/-! ## Occurrence -/

theorem isSome_dropPrefix? (p cs : List Char) : (dropPrefix? p cs).isSome = true ↔ p <+: cs := by
  rw [Option.isSome_iff_exists]
  constructor
  · rintro ⟨rest, hrest⟩
    exact ⟨rest, (dropPrefix?_eq_some hrest).symm⟩
  · rintro ⟨rest, rfl⟩
    exact ⟨rest, dropPrefix?_append p rest⟩

theorem contains_iff_infix (needle s : String) :
    contains needle s = true ↔ needle.toList <:+: s.toList := by
  have hchars : ∀ cs, containsChars needle.toList cs = true ↔ needle.toList <:+: cs := by
    intro cs
    induction cs with
    | nil => rw [containsChars, List.isEmpty_iff, List.infix_nil]
    | cons c cs ih =>
        rw [containsChars, Bool.or_eq_true, isSome_dropPrefix?, ih, List.infix_cons_iff]
  exact hchars s.toList

/-- What occurs in a text occurs in every longer text around it. -/
theorem contains_padded {needle u : String} (h : contains needle u = true) (s t : String) :
    contains needle (s ++ u ++ t) = true := by
  rw [ contains_iff_infix] at h ⊢
  rw [String.toList_append, String.toList_append]
  exact h.trans ⟨s.toList, t.toList, rfl⟩

end Paac.Text
